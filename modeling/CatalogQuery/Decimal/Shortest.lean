import CatalogQuery.Decimal.Basic

/-!
# The fewest digits that read back

`Decimal.shortest up x` is the numeral with the fewest digits whose nearest binary number is `x`,
and among those the one closest to `x`. A numeral of `n` digits that reads back as `x` exists only
if one of the two neighbours of `x` on the grid of `n` digits does, so for each `n` only these two
are tried: the exact numeral of `x` cut off after `n` digits, and the same with its last digit
raised by one. `up` says which of two equally close neighbours is taken.
-/

namespace CatalogQuery.Decimal

-- powers are those of the standard library, also where algebra brings its own
attribute [local instance (high)] instPowNat

variable {f : BinaryFormat}

/-- The numeral reads back as the binary number, signs aside. -/
def readsBack (x : Binary f) (d : Decimal) : Bool := decide ((d.nearest x.negative : Binary f) = x)

/-- The neighbour of `x` on the grid of `n` digits that reads back as `x` and is closest to it. -/
def onGrid (up : Nat → Bool) (x : Binary f) (n : Nat) : Option Decimal :=
  let d := exact x
  let dropped := width d.coefficient - n
  let unit := 10 ^ dropped
  let below : Decimal := ⟨d.coefficient / unit, d.exponent + dropped⟩
  let above : Decimal := ⟨d.coefficient / unit + 1, d.exponent + dropped⟩
  let twice := 2 * (d.coefficient % unit)
  match readsBack x below, readsBack x above with
  | true, true =>
    some (if twice < unit ∨ twice = unit ∧ !up below.coefficient then below else above)
  | true, false => some below
  | false, true => some above
  | false, false => none

/-- The shortest numeral that reads back as `x`. Seventeen digits are enough for every double; the
exact numeral stands in should none of them do. -/
def shortest (up : Nat → Bool) (x : Binary f) : Decimal :=
  ((List.range 17).findSome? fun n => onGrid up x (n + 1)).getD (exact x)

end CatalogQuery.Decimal
