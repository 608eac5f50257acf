import CatalogQuery.Decimal.Basic
import CatalogQuery.Draft.Escape
import CatalogQuery.Json

/-!
# YAML data

`Yaml` is the data of a document: scalars, sequences and mappings. A scalar keeps its text, and
whether it was written without quotes; only then may it stand for something else than a text.
`Plain.ofText` says what an unquoted text stands for by the core rules: nothing, a truth value, an
integer, a floating-point number, or the text itself.
-/

namespace CatalogQuery

-- powers are those of the standard library, also where algebra brings its own
attribute [local instance (high)] instPowNat

/-- The data of a YAML document. -/
inductive Yaml where
  | scalar (plain : Bool) (text : List Char)
  | sequence (items : List Yaml)
  | mapping (entries : List (Yaml × Yaml))

namespace Yaml

/-- The scalar that stands where nothing is written. -/
def empty : Yaml := .scalar true []

mutual

/-- How many collections stand inside one another. -/
def nesting : Yaml → Nat
  | .scalar _ _ => 0
  | .sequence ys => itemNesting ys + 1
  | .mapping es => valueNesting es + 1

/-- The deepest nesting of an item. -/
def itemNesting : List Yaml → Nat
  | [] => 0
  | y :: ys => max y.nesting (itemNesting ys)

/-- The deepest nesting of a value. -/
def valueNesting : List (Yaml × Yaml) → Nat
  | [] => 0
  | (_, v) :: es => max v.nesting (valueNesting es)

end

end Yaml

/-- What an unquoted scalar stands for. -/
inductive Plain where
  | null
  | bool (b : Bool)
  /-- An integer of 64 bits, with or without sign. -/
  | int (n : Int)
  /-- An integer that takes more than 64 bits, and at most 128. -/
  | wideInt
  | float (x : Double)
  | text

namespace Plain

/-- Digits of a base, at least one. -/
def readNatural? (base : Nat) (cs : List Char) : Option Nat :=
  if cs.isEmpty then none else Escape.readDigits? base 0 cs

/-- Several digits that begin with a zero, which by the core rules are no number. -/
def zeroLed (cs : List Char) : Bool :=
  let digits := match cs with
    | '-' :: ds => ds
    | '+' :: ds => ds
    | ds => ds
  match digits with
  | '0' :: d :: ds => (d :: ds).all Char.isDigit
  | _ => false

/-- A natural number after an optional plus sign, in base ten, or in base sixteen, eight or two
after `0x`, `0o` or `0b`. -/
def unsigned? (cs : List Char) : Option Nat :=
  let size := match cs with
    | '+' :: size => size
    | size => size
  let based := match size with
    | '0' :: 'x' :: ds => readNatural? 16 ds
    | '0' :: 'o' :: ds => readNatural? 8 ds
    | '0' :: 'b' :: ds => readNatural? 2 ds
    | _ => none
  match based with
  | some n => some n
  | none => if zeroLed cs then none else readNatural? 10 size

/-- The size of a negative integer, in the bases of the others. -/
def negative? (cs : List Char) : Option Nat :=
  match cs with
  | '-' :: '+' :: _ => none
  | '-' :: size => unsigned? size
  | _ => none

/-- An integer of at most 128 bits. -/
def integer? (cs : List Char) : Option Plain :=
  match unsigned? cs, negative? cs with
  | some n, _ =>
    if n < 2 ^ (64 : Nat) then some (.int n)
    else if n < 2 ^ (128 : Nat) then some .wideInt
    else none
  | none, some n =>
    if n ≤ 2 ^ (63 : Nat) then some (.int (-n))
    else if n ≤ 2 ^ (127 : Nat) then some .wideInt
    else none
  | none, none => none

/-- A floating-point number. One too large for a double is none. -/
def float? (cs : List Char) : Option Double :=
  let (sign, size) := match cs with
    | '+' :: size => (false, size)
    | '-' :: size => (true, size)
    | size => (false, size)
  let word := String.ofList size
  if word = ".inf" ∨ word = ".Inf" ∨ word = ".INF" then some (Binary.infinite sign)
  else if cs = size ∧ (word = ".nan" ∨ word = ".NaN" ∨ word = ".NAN") then
    some Binary.nan
  else match Decimal.read? size with
    | some d =>
      let x : Double := d.nearest sign
      if x.isFinite then some x else none
    | none => none

/-- What an unquoted text stands for. -/
def ofText (cs : List Char) : Plain :=
  let word := String.ofList cs
  if word = "" ∨ word = "~" ∨ word = "null" ∨ word = "Null" ∨ word = "NULL" then .null
  else if word = "true" ∨ word = "True" ∨ word = "TRUE" then .bool true
  else if word = "false" ∨ word = "False" ∨ word = "FALSE" then .bool false
  else match integer? cs with
    | some p => p
    | none =>
      if zeroLed cs then .text
      else match float? cs with
        | some x => .float x
        | none => .text

end Plain

end CatalogQuery
