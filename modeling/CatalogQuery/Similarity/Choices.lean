import CatalogQuery.Similarity.Index
import CatalogQuery.Similarity.JaroWinkler
import CatalogQuery.Text.Blank
import CatalogQuery.Text.Lowercase

/-!
# Similarity to a fixed list of choices

`Choices` is an index over the allowed values of a parameter. Texts are compared without regard to
letter case and to the amount of blank space between words. `Choices.closest` is the earliest choice
with the greatest score, unless all scores are below the threshold.
-/

namespace CatalogQuery

namespace Similarity

/-- A text with single spaces between its words, in lower case: what is compared. -/
def folded (s : String) : List Char :=
  Text.toLowercase ([' '].intercalate (Text.words s.toList))

/-- The better of the best candidate so far and the next one: a candidate that scores too low is
passed over, and only a higher score displaces an earlier candidate. -/
def keepBest {α β : Type} (score : α → β) (above : β → β → Bool) (tooLow : β → Bool)
    (best : Option (α × β)) (next : α) : Option (α × β) :=
  if tooLow (score next) then best
  else match best with
    | none => some (next, score next)
    | some (_, top) => if above (score next) top then some (next, score next) else best

/-- The earliest candidate with the greatest score, among those that do not score too low. -/
def earliestBest {α β : Type} (score : α → β) (above : β → β → Bool) (tooLow : β → Bool)
    (candidates : List α) : Option α :=
  (candidates.foldl (keepBest score above tooLow) none).map Prod.fst

/-- The choice closest to a text, by a score of what is compared. -/
def closestBy {β : Type} (score : List Char → List Char → β) (above : β → β → Bool)
    (tooLow : β → Bool) (choices : List String) (text : String) : Option String :=
  let sought := folded text
  earliestBest (fun choice => score sought (folded choice)) above tooLow choices

end Similarity

/-- The allowed values of a parameter. -/
structure Choices where
  name : String
  choices : List String
  /-- The least score that a match needs. -/
  threshold : Double

namespace Choices

/-- The threshold that holds where none is given. -/
def defaultThreshold : Double := Binary.ofRatio false 85 100

/-- The choice closest to a text. -/
def closest (index : Choices) (text : String) : Option String :=
  Similarity.closestBy Similarity.jaroWinkler (fun x y => Binary.lt y x)
    (fun x => Binary.lt x index.threshold) index.choices text

/-- The index that answers at once. -/
def toIndex (index : Choices) : SimilarityIndex where
  name := index.name
  lookup _ text := ⟨0, .ok (index.closest text)⟩

end Choices

end CatalogQuery
