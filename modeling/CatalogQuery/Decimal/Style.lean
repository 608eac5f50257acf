import CatalogQuery.Decimal.Shortest

/-!
# Styles of writing floating-point numbers

A `DecimalStyle` holds the decisions that one output takes when it writes a binary number: which
magnitudes are written positionally, whether a positive exponent has a sign, and which way an exact
tie between two shortest numerals goes. `DecimalStyle.write` does the writing; positional numbers
always keep a point with at least one digit on each side, so that they read as floating-point
numbers again.
-/

namespace CatalogQuery

/-- How an output writes binary numbers. The magnitude of a number is the exponent `e` of its
leading digit, as in `d.ddd * 10 ^ e`. -/
structure DecimalStyle where
  /-- The least magnitude written positionally. -/
  positionalFrom : Int
  /-- The least magnitude above those written positionally. -/
  positionalBelow : Int
  /-- A positive exponent is written with its sign. -/
  plus : Bool
  /-- Whether of two equally short and equally close numerals the larger is taken, given the
  coefficient of the smaller. -/
  tieUp : Nat → Bool

namespace DecimalStyle

/-- The style of canonical JSON: positional from `0.00001` up to sixteen digits, then `1e+16`; a
tie goes to the even digit. -/
def json : DecimalStyle := ⟨-5, 16, true, fun below => below % 2 == 1⟩

/-- The style of rendered queries: positional from `0.0001` up to sixteen digits, then `1e16`; a
tie goes up. -/
def rendered : DecimalStyle := ⟨-4, 16, false, fun _ => true⟩

/-- The digits of a numeral without the zeros at its end, and its magnitude. -/
def digits (d : Decimal) : List Char × Int :=
  let all := Nat.toDigits 10 d.coefficient
  let kept := (all.reverse.dropWhile (· = '0')).reverse
  (if kept.isEmpty then ['0'] else kept, d.exponent + all.length - 1)

def zeros (n : Nat) : List Char := List.replicate n '0'

/-- Digits with the point after the one of weight `10 ^ 0`. -/
def positional (ds : List Char) (e : Int) : List Char :=
  if e < 0 then '0' :: '.' :: (zeros (-e - 1).toNat ++ ds)
  else
    let whole := ds.take (e.toNat + 1)
    let fraction := ds.drop (e.toNat + 1)
    whole ++ zeros (e.toNat + 1 - whole.length)
      ++ '.' :: (if fraction.isEmpty then ['0'] else fraction)

/-- One digit, the others after a point, and the power of ten. -/
def scientific (style : DecimalStyle) (ds : List Char) (e : Int) : List Char :=
  let mantissa := match ds with
    | d :: rest => d :: (if rest.isEmpty then [] else '.' :: rest)
    | [] => []
  let sign := if e < 0 then ['-'] else if style.plus then ['+'] else []
  mantissa ++ 'e' :: (sign ++ Nat.toDigits 10 e.natAbs)

/-- The size of a finite number in a style. -/
def writeSize {f : BinaryFormat} (style : DecimalStyle) (x : Binary f) : List Char :=
  if x.isZero then ['0', '.', '0'] else
    let (ds, e) := digits (Decimal.shortest style.tieUp x)
    if style.positionalFrom ≤ e ∧ e < style.positionalBelow then positional ds e
    else scientific style ds e

/-- A number in a style. Infinities and NaNs, which no numeral denotes, are written as words. -/
def write {f : BinaryFormat} (style : DecimalStyle) (x : Binary f) : String :=
  if x.isNaN then "NaN"
  else
    let size := if x.isFinite then writeSize style x else ['i', 'n', 'f']
    String.ofList (if x.negative then '-' :: size else size)

end DecimalStyle

end CatalogQuery
