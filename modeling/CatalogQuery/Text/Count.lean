/-!
# Counts

A count is written with decimal digits after an optional plus sign, and fits a word of 64 bits.
-/

namespace CatalogQuery.Text

-- powers are those of the standard library, also where algebra brings its own
attribute [local instance (high)] instPowNat

/-- The number that decimal digits denote, at least one of them. -/
def readDecimal? (digits : List Char) : Option Nat :=
  if digits.isEmpty then none
  else digits.foldl
    (fun sofar c => sofar.bind fun n =>
      if c.isDigit then some (10 * n + (c.toNat - '0'.toNat)) else none) (some 0)

/-- The count that a text denotes. -/
def readCount? (s : String) : Option UInt64 :=
  let digits := match s.toList with
    | '+' :: ds => ds
    | ds => ds
  match readDecimal? digits with
  | some n => if n < 2 ^ (64 : Nat) then some (UInt64.ofNat n) else none
  | none => none

example : readCount? "+007" = some 7 := by decide +kernel
example : readCount? "" = none ∧ readCount? "+" = none ∧ readCount? "-0" = none := by decide +kernel
example : readCount? "18446744073709551616" = none := by decide +kernel

end CatalogQuery.Text
