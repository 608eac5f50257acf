import CatalogQuery.Proofs.Similarity.Earliest
import CatalogQuery.Proofs.Similarity.JaroWinkler

/-!
# The nearest choice

What an index over choices answers, told without its scan. The index compares doubles, which are in
a linear order as long as they are numbers: the key of this order is `Binary.signedRank`, so that
what is known of `earliestBest` holds of `Choices.closest`. The threshold alone may be no number.

Jaro–Winkler similarity is one score that the choices can be compared by (`Choices.toIndex_eq`).
`Choices.lookup_earliest` holds for this score and every other measure of similarity: the answer is
the first choice with the greatest score that reaches the threshold.
-/

namespace CatalogQuery

/-- What is below a limit is less than what is not. The limit may be no number. -/
theorem Binary.lt_of_below {f : BinaryFormat} {x y limit : Binary f} (hy : y.isNaN = false)
    (hbelow : Binary.lt x limit = true) (hreaches : Binary.lt y limit = false) :
    x.signedRank < y.signedRank := by
  simp only [Binary.lt, Bool.and_eq_true, Bool.not_eq_true', decide_eq_true_eq] at hbelow
  obtain ⟨⟨-, hlimit⟩, hlt⟩ := hbelow
  rw [Binary.lt_of_number hy hlimit, decide_eq_false_iff_not] at hreaches
  omega

namespace Choices

open Similarity (IsMeasure folded jaroWinkler ofNat)

/-! ### Choices by any measure -/

variable {score : List Char → List Char → Double}

/-- The choice closest to a text by the given score. -/
def nearest (score : List Char → List Char → Double) (index : Choices) (text : String) :
    Option String :=
  Similarity.closestBy score (fun x y => Binary.lt y x) (fun x => Binary.lt x index.threshold)
    index.choices text

/-- The index that answers at once with the choice closest by the given score. -/
def scoredBy (score : List Char → List Char → Double) (index : Choices) : SimilarityIndex where
  name := index.name
  lookup _ text := ⟨0, .ok (index.nearest score text)⟩

theorem toIndex_eq (index : Choices) : index.toIndex = index.scoredBy jaroWinkler := rfl

variable {index : Choices} {text choice : String}

/-! ### The earliest of the best -/

section Number

variable (hnumber : ∀ a b, (score a b).isNaN = false)

include hnumber

/-- Scores are compared by their ranks. -/
theorem lt_score (text x y : String) :
    Binary.lt (score (folded text) (folded y)) (score (folded text) (folded x))
      = decide ((score (folded text) (folded y)).signedRank
        < (score (folded text) (folded x)).signedRank) :=
  Binary.lt_of_number (hnumber _ _) (hnumber _ _)

/-- There is no answer if all choices are below the threshold. -/
theorem nearest_eq_none_iff : index.nearest score text = none ↔
    ∀ d ∈ index.choices, Binary.lt (score (folded text) (folded d)) index.threshold = true :=
  Similarity.earliestBest_eq_none_iff (lt_score hnumber text)

/-- The answer is the first choice with the greatest score, and this reaches the threshold. -/
theorem nearest_eq_some_iff : index.nearest score text = some choice ↔
    ∃ before after, index.choices = before ++ choice :: after ∧
      Binary.lt (score (folded text) (folded choice)) index.threshold = false ∧
      (∀ d ∈ before, Binary.lt (score (folded text) (folded d))
        (score (folded text) (folded choice)) = true) ∧
      ∀ d ∈ after, Binary.lt (score (folded text) (folded choice))
        (score (folded text) (folded d)) = false := by
  have hearliest : index.nearest score text = some choice ↔ _ :=
    Similarity.earliestBest_eq_some_iff (lt_score hnumber text)
  rw [hearliest]
  simp only [Similarity.Earliest, lt_score hnumber, decide_eq_true_eq, decide_eq_false_iff_not,
    not_lt, Bool.not_eq_true]
  -- a choice below the threshold is below the answer
  refine exists_congr fun before => exists_congr fun after => and_congr_right fun _ =>
    and_congr_right fun hreaches => and_congr ?_ ?_
  · exact forall₂_congr fun d _ => or_iff_right_of_imp fun hbelow =>
      Binary.lt_of_below (hnumber _ _) hbelow hreaches
  · exact forall₂_congr fun d _ => or_iff_right_of_imp fun hbelow =>
      (Binary.lt_of_below (hnumber _ _) hbelow hreaches).le

end Number

/-! ### Texts that are folded like choices -/

section Measure

variable (hscore : IsMeasure score index.choices)

include hscore

/-- An answer is its own answer. -/
theorem nearest_answer (h : index.nearest score text = some choice) :
    index.nearest score choice = some choice := by
  -- a score below the threshold leaves no lower one at or above it
  have hlow : ∀ a b c d, (score a b).signedRank ≤ (score c d).signedRank →
      Binary.lt (score c d) index.threshold = true → Binary.lt (score a b) index.threshold = true := by
    intro a b c d hle hbelow
    by_contra hreaches
    rw [Bool.not_eq_true] at hreaches
    exact absurd (Binary.lt_of_below (hscore.number a b) hbelow hreaches) (not_lt.mpr hle)
  refine Similarity.closestBy_answer Binary.signedRank ?_ hlow hscore.signedRank_le
    (fun c hc d hd => hscore.signedRank_eq_iff hc hd) h
  exact fun a b c d => Binary.lt_of_number (hscore.number _ _) (hscore.number _ _)

end Measure

/-! ### The index -/

/-- By Jaro–Winkler similarity there is no answer exactly if all choices are below the threshold,
also if they are long. -/
theorem closest_eq_none_iff : index.closest text = none ↔ ∀ d ∈ index.choices,
    Binary.lt (jaroWinkler (folded text) (folded d)) index.threshold = true :=
  nearest_eq_none_iff Similarity.jaroWinkler_number

/-- By Jaro–Winkler similarity the answer is the first choice with the greatest score, also if
choices are long. -/
theorem closest_eq_some_iff : index.closest text = some choice ↔
    ∃ before after, index.choices = before ++ choice :: after ∧
      Binary.lt (jaroWinkler (folded text) (folded choice)) index.threshold = false ∧
      (∀ d ∈ before, Binary.lt (jaroWinkler (folded text) (folded d))
        (jaroWinkler (folded text) (folded choice)) = true) ∧
      ∀ d ∈ after, Binary.lt (jaroWinkler (folded text) (folded choice))
        (jaroWinkler (folded text) (folded d)) = false :=
  nearest_eq_some_iff Similarity.jaroWinkler_number

end Choices

end CatalogQuery
