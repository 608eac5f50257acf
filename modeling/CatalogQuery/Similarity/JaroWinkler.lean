import CatalogQuery.Decimal.Binary

/-!
# Jaro–Winkler similarity

A score between `0.0` and `1.0` for two texts. Characters of the first text pick equal characters
of the second that stand within a window around the same position, each at most once; the Jaro score
is the mean of the picked share of either text and of the share of picked characters that are not
transposed. A common prefix of up to four characters raises a score above `0.7`.

Every arithmetic step is rounded to a double, in the order in which it is written here.
-/

namespace CatalogQuery.Similarity

/-- A character that can be picked once. -/
structure Cell where
  char : Char
  picked : Bool

/-- Picks the first free cell that holds `c` among the `span` cells after the first `skip`. -/
def pick (c : Char) : (skip span : Nat) → List Cell → Option (List Cell)
  | _, _, [] => none
  | skip + 1, span, cell :: rest => (pick c skip span rest).map (cell :: ·)
  | 0, 0, _ :: _ => none
  | 0, span + 1, cell :: rest =>
    if cell.char = c ∧ cell.picked = false then some ({ cell with picked := true } :: rest)
    else (pick c 0 span rest).map (cell :: ·)

/-- Lets the characters of a text, the first of which has position `i`, pick cells at most `range`
positions away. Gives the characters that found one, and the cells. -/
def pickAll (range : Nat) : (i : Nat) → List Char → List Cell → List Char × List Cell
  | _, [], cells => ([], cells)
  | i, c :: cs, cells =>
    let low := i - range
    match pick c low (i + range + 1 - low) cells with
    | some cells =>
      let (found, cells) := pickAll range (i + 1) cs cells
      (c :: found, cells)
    | none => pickAll range (i + 1) cs cells

/-- The natural number as a double. -/
def ofNat (n : Nat) : Double := Binary.ofInt n

/-- The Jaro score of two texts. -/
def jaro (a b : List Char) : Double :=
  if a.isEmpty && b.isEmpty then ofNat 1
  else
    let range := max a.length b.length / 2 - 1
    let (found, cells) := pickAll range 0 a (b.map fun c => ⟨c, false⟩)
    let picked := (cells.filter Cell.picked).map Cell.char
    let matched := found.length
    let transposed := ((found.zip picked).filter fun (x, y) => x != y).length / 2
    if matched = 0 then ofNat 0
    else
      let m := ofNat matched
      let share := ((m.div (ofNat a.length)).add (m.div (ofNat b.length))).add
        ((ofNat (matched - transposed)).div m)
      share.div (ofNat 3)

/-- The length of the longest common prefix, at most `limit`. -/
def commonPrefix : (limit : Nat) → List Char → List Char → Nat
  | limit + 1, x :: xs, y :: ys => if x = y then commonPrefix limit xs ys + 1 else 0
  | _, _, _ => 0

/-- The Jaro–Winkler score of two texts. -/
def jaroWinkler (a b : List Char) : Double :=
  let score := jaro a b
  if Binary.lt (Binary.ofRatio false 7 10) score then
    let weight : Double := (Binary.ofRatio false 1 10 : Double).mul (ofNat (commonPrefix 4 a b))
    score.add (weight.mul ((ofNat 1).sub score))
  else score

end CatalogQuery.Similarity
