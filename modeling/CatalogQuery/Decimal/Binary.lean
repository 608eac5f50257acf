/-!
# Binary floating-point numbers

A `Binary f` is a number of the binary interchange format `f`: a sign and a *rank*. The rank is the
exponent field followed by the fraction field, read as one natural number, so that the non-negative
numbers of a format are its ranks in increasing order: zero has rank `0`, the next number up has the
next rank, infinity has rank `f.infinity`, and everything above it is a NaN.

`Binary.ofRatio` rounds a quotient of natural numbers to the nearest number of the format, a half
going to the even neighbour. Because ranks are consecutive, the carry of a rounding and the overflow
to infinity need no case of their own. `Binary.significand` reads the number back as
`m * 2 ^ q`, and `Binary.value` as a rational number. Sums, products and quotients are the exact
rational results, rounded.
-/

namespace CatalogQuery

-- powers are those of the standard library, also where algebra brings its own
attribute [local instance (high)] instPowNat

/-- A binary interchange format: how many bits its fraction and its exponent take. -/
structure BinaryFormat where
  fractionBits : Nat
  exponentBits : Nat
  deriving DecidableEq, Repr

namespace BinaryFormat

/-- The format of sixty-four bits. -/
def double : BinaryFormat := ⟨52, 11⟩

/-- The format of thirty-two bits. -/
def single : BinaryFormat := ⟨23, 8⟩

/-- How many ranks there are. -/
def ranks (f : BinaryFormat) : Nat := 2 ^ (f.exponentBits + f.fractionBits)

/-- The rank of infinity: all bits of the exponent set and none of the fraction. -/
def infinity (f : BinaryFormat) : Nat := (2 ^ f.exponentBits - 1) * 2 ^ f.fractionBits

/-- The binary exponent of the smallest positive number. -/
def minExponent (f : BinaryFormat) : Int :=
  2 - 2 ^ (f.exponentBits - 1) - f.fractionBits

theorem infinity_lt_ranks (f : BinaryFormat) : f.infinity < f.ranks := by
  have hpos : 0 < 2 ^ f.exponentBits := Nat.two_pow_pos _
  have hfrac : 0 < 2 ^ f.fractionBits := Nat.two_pow_pos _
  unfold infinity ranks
  rw [Nat.pow_add]
  exact Nat.mul_lt_mul_of_pos_right (by omega) hfrac

end BinaryFormat

/-- A number of the format `f`. -/
structure Binary (f : BinaryFormat) where
  negative : Bool
  rank : Fin f.ranks
  deriving DecidableEq, Repr

/-- A number of sixty-four bits. -/
abbrev Double := Binary .double

/-- A number of thirty-two bits. -/
abbrev Single := Binary .single

/-! ### Rounding quotients of natural numbers -/

/-- `num / den` to the nearest natural number, a half going to the even neighbour. -/
def roundHalfEven (num den : Nat) : Nat :=
  let twice := 2 * (num % den)
  if twice < den then num / den
  else if den < twice then num / den + 1
  else num / den + num / den % 2

/-- `num / den` counted in units of `2 ^ q`, again as a quotient. -/
def inUnits (num den : Nat) (q : Int) : Nat × Nat :=
  if 0 ≤ q then (num, den * 2 ^ q.toNat) else (num * 2 ^ (-q).toNat, den)

namespace Binary

variable {f : BinaryFormat}

/-- The exponent of the unit in the last place of `num / den`: the one in whose units the quotient
has just the digits that a fraction and its leading bit can hold, and never less than the smallest
exponent of the format. -/
def unitExponent (f : BinaryFormat) (num den : Nat) : Int :=
  let guess : Int := num.log2 - den.log2 - f.fractionBits
  let (n, d) := inUnits num den guess
  let exact := if n < d * 2 ^ f.fractionBits then guess - 1 else guess
  max exact f.minExponent

/-- The rank nearest to `num / den`, not above that of infinity. -/
def nearestRank (f : BinaryFormat) (num den : Nat) : Nat :=
  if num = 0 then 0 else
    let q := unitExponent f num den
    let (n, d) := inUnits num den q
    min ((q - f.minExponent).toNat * 2 ^ f.fractionBits + roundHalfEven n d) f.infinity

theorem nearestRank_le_infinity (num den : Nat) : nearestRank f num den ≤ f.infinity := by
  unfold nearestRank
  split
  · exact Nat.zero_le _
  · exact Nat.min_le_right _ _

/-- The number nearest to `num / den`, with the given sign. -/
def ofRatio (negative : Bool) (num den : Nat) : Binary f where
  negative := negative
  rank := ⟨nearestRank f num den,
    Nat.lt_of_le_of_lt (nearestRank_le_infinity num den) f.infinity_lt_ranks⟩

/-- The number nearest to a rational number; zero is the positive one. -/
def ofRat (r : Rat) : Binary f := ofRatio (decide (r.num < 0)) r.num.natAbs r.den

/-- The number nearest to an integer. -/
def ofInt (n : Int) : Binary f := ofRatio (decide (n < 0)) n.natAbs 1

/-! ### Reading numbers -/

/-- Neither infinite nor a NaN. -/
def isFinite (x : Binary f) : Bool := x.rank.val < f.infinity

def isNaN (x : Binary f) : Bool := f.infinity < x.rank.val

/-- Zero, of either sign. -/
def isZero (x : Binary f) : Bool := x.rank.val == 0

def infinite (negative : Bool) : Binary f where
  negative := negative
  rank := ⟨f.infinity, f.infinity_lt_ranks⟩

/-- A NaN. -/
def nan : Binary f where
  negative := false
  rank := ⟨f.ranks - 1, Nat.sub_lt (Nat.two_pow_pos _) Nat.one_pos⟩

/-- The number with the other sign. -/
def neg (x : Binary f) : Binary f := { x with negative := !x.negative }

/-- The size of a finite number as `m * 2 ^ q`. -/
def significand (x : Binary f) : Nat × Int :=
  let biased := x.rank.val / 2 ^ f.fractionBits
  let fraction := x.rank.val % 2 ^ f.fractionBits
  if biased = 0 then (fraction, f.minExponent)
  else (fraction + 2 ^ f.fractionBits, f.minExponent + (biased - 1 : Nat))

/-- The rational number that a finite number stands for. -/
def value (x : Binary f) : Rat :=
  let (m, q) := x.significand
  let size : Rat := if 0 ≤ q then ((m * 2 ^ q.toNat : Nat) : Rat) else mkRat m (2 ^ (-q).toNat)
  if x.negative then -size else size

/-- The number of another format nearest to this one. -/
def convert {g : BinaryFormat} (x : Binary f) : Binary g :=
  if x.isNaN then nan
  else if x.isFinite then
    ofRatio x.negative x.value.num.natAbs x.value.den
  else infinite x.negative

/-! ### Order and arithmetic -/

/-- The rank with the sign of the number; the two zeros share theirs. -/
def signedRank (x : Binary f) : Int := if x.negative then -(x.rank.val : Int) else x.rank.val

/-- The order of numbers, in which a NaN is below nothing and above nothing. -/
def lt (x y : Binary f) : Bool := !x.isNaN && !y.isNaN && decide (x.signedRank < y.signedRank)

def add (x y : Binary f) : Binary f := ofRat (x.value + y.value)

def sub (x y : Binary f) : Binary f := ofRat (x.value - y.value)

def mul (x y : Binary f) : Binary f := ofRat (x.value * y.value)

def div (x y : Binary f) : Binary f := ofRat (x.value / y.value)

end Binary

end CatalogQuery
