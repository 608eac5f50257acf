/-!
# Similarity indexes

A `SimilarityIndex` maps a free-text literal to the closest value that it knows. It may need time:
its `Reply` says for how many rounds the lookup stays pending before the answer is there. Both may
depend on the place of the literal in the source, so that two lookups of one text may take
different times.
-/

namespace CatalogQuery

/-- Why a lookup failed. -/
inductive SimilarityError where
  | unavailable (index reason : String)
  deriving DecidableEq, Repr

def SimilarityError.message : SimilarityError → String
  | .unavailable index reason => "Similarity index " ++ index ++ " unavailable: " ++ reason

/-- What an index answers, and after how many rounds. -/
structure Reply where
  delay : Nat
  /-- The closest known text, or nothing if none is close enough. -/
  answer : Except SimilarityError (Option String)

/-- A store of known texts. -/
structure SimilarityIndex where
  /-- The name in messages and logs. -/
  name : String
  /-- The reply to a text, looked up for the literal at a place in the source. -/
  lookup : (place : Nat) → (text : String) → Reply

end CatalogQuery
