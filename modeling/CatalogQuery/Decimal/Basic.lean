import CatalogQuery.Decimal.Binary

/-!
# Decimal numerals

A `Decimal` is `coefficient * 10 ^ exponent`. `Decimal.read?` reads the numerals that occur in
query sources and in configuration files (`12`, `1.`, `.5`, `2e-3`), `Decimal.nearest` gives the
binary number nearest to one, and `Decimal.exact` the numeral that equals a given finite binary
number, which always exists because a power of two divides a power of ten.
-/

namespace CatalogQuery

-- powers are those of the standard library, also where algebra brings its own
attribute [local instance (high)] instPowNat

/-- The number `coefficient * 10 ^ exponent`. -/
structure Decimal where
  coefficient : Nat
  exponent : Int
  deriving DecidableEq, Repr

/-- The number that a row of decimal digits stands for. -/
def numeral (digits : List Char) : Nat :=
  digits.foldl (fun n c => 10 * n + (c.toNat - '0'.toNat)) 0

namespace Decimal

/-! ### Reading -/

/-- The digits at the front of a text, and the rest. -/
def splitDigits (cs : List Char) : List Char × List Char :=
  (cs.takeWhile Char.isDigit, cs.dropWhile Char.isDigit)

/-- The exponent that ends a numeral: nothing, or `e` with a sign that may be missing and at least
one digit. -/
def readExponent? : List Char → Option Int
  | [] => some 0
  | e :: rest =>
    if e = 'e' ∨ e = 'E' then
      let (negative, digits) := match rest with
        | '-' :: ds => (true, ds)
        | '+' :: ds => (false, ds)
        | ds => (false, ds)
      if !digits.isEmpty && digits.all Char.isDigit then
        some (if negative then -(numeral digits : Int) else numeral digits)
      else none
    else none

/-- An unsigned numeral: digits with a point that may be missing, at least one digit in all, and an
exponent that may be missing. -/
def read? (cs : List Char) : Option Decimal :=
  let (whole, rest) := splitDigits cs
  let (fraction, rest) := match rest with
    | '.' :: rest => splitDigits rest
    | rest => ([], rest)
  if (whole ++ fraction).isEmpty then none
  else (readExponent? rest).map fun e => ⟨numeral (whole ++ fraction), e - fraction.length⟩

/-! ### To and from binary numbers -/

/-- The number of decimal digits of a natural number. -/
def width (n : Nat) : Nat := (Nat.toDigits 10 n).length

/-- The binary number nearest to a numeral. Numerals whose size is far outside every format are
answered at once, so that a huge exponent costs nothing. -/
def nearest {f : BinaryFormat} (negative : Bool) (d : Decimal) : Binary f :=
  let size := d.exponent + width d.coefficient
  let reach : Int := 2 ^ f.exponentBits + f.fractionBits
  if d.coefficient = 0 ∨ size < -reach then Binary.ofRatio negative 0 1
  else if reach < size then Binary.infinite negative
  else if 0 ≤ d.exponent then
    Binary.ofRatio negative (d.coefficient * 10 ^ d.exponent.toNat) 1
  else Binary.ofRatio negative d.coefficient (10 ^ (-d.exponent).toNat)

/-- The numeral equal to the size of a finite binary number. -/
def exact {f : BinaryFormat} (x : Binary f) : Decimal :=
  let (m, q) := x.significand
  if 0 ≤ q then ⟨m * 2 ^ q.toNat, 0⟩ else ⟨m * 5 ^ (-q).toNat, q⟩

end Decimal

end CatalogQuery
