import CatalogQuery.Decimal.Style

/-!
# JSON data and its canonical text

`Json` is the data that a context carries and the shape in which queries, types and settings are
written out. `Json.compact` is the canonical text: no spaces, the fields of an object in the order
in which they stand, non-ASCII characters as they are, floating-point numbers with the fewest digits
that read back.

An object read from outside keeps its fields sorted by key, with the last of several fields of one
key (`Json.object`), so that equal objects have equal texts.
-/

namespace CatalogQuery

/-- A double that is neither infinite nor a NaN. -/
structure FiniteDouble where
  val : Double
  finite : val.isFinite = true
  deriving DecidableEq

/-- JSON data. -/
inductive Json where
  | null
  | bool (b : Bool)
  | int (n : Int)
  | float (x : FiniteDouble)
  | str (s : String)
  | arr (items : List Json)
  | obj (fields : List (String × Json))

namespace Json

/-- A number that has no place in JSON is written as nothing. -/
def ofDouble (x : Double) : Json :=
  if h : x.isFinite = true then .float ⟨x, h⟩ else .null

/-- Puts a field where its key belongs, in place of a field of the same key. -/
def putField (key : String) (value : Json) : List (String × Json) → List (String × Json)
  | [] => [(key, value)]
  | (k, v) :: rest =>
    if key < k then (key, value) :: (k, v) :: rest
    else if key = k then (key, value) :: rest
    else (k, v) :: putField key value rest

/-- The object with the given fields, sorted by key. -/
def object (fields : List (String × Json)) : Json :=
  .obj (fields.foldl (fun sorted (k, v) => putField k v sorted) [])

/-! ### Canonical text -/

/-- An integer in decimal. -/
def writeInt (n : Int) : List Char :=
  if n < 0 then '-' :: Nat.toDigits 10 n.natAbs else Nat.toDigits 10 n.natAbs

/-- A character inside a quoted text. Quotes, backslashes and controls are escaped. -/
def escape (c : Char) : List Char :=
  if c = '"' then ['\\', '"']
  else if c = '\\' then ['\\', '\\']
  else if c = '\n' then ['\\', 'n']
  else if c = '\r' then ['\\', 'r']
  else if c = '\t' then ['\\', 't']
  else if c = '\x08' then ['\\', 'b']
  else if c = '\x0c' then ['\\', 'f']
  else if c.toNat < 32 then
    ['\\', 'u', '0', '0', Nat.digitChar (c.toNat / 16), Nat.digitChar (c.toNat % 16)]
  else [c]

/-- A quoted text. -/
def writeString (s : String) : List Char := '"' :: (s.toList.flatMap escape ++ ['"'])

mutual

/-- The canonical text, as characters. -/
def write : Json → List Char
  | .null => "null".toList
  | .bool true => "true".toList
  | .bool false => "false".toList
  | .int n => writeInt n
  | .float x => (DecimalStyle.json.write x.val).toList
  | .str s => writeString s
  | .arr items => '[' :: (writeItems items ++ [']'])
  | .obj fields => '\x7b' :: (writeFields fields ++ ['\x7d'])

/-- Items with commas between them. -/
def writeItems : List Json → List Char
  | [] => []
  | [v] => v.write
  | v :: rest => v.write ++ ',' :: writeItems rest

/-- Fields with commas between them. -/
def writeFields : List (String × Json) → List Char
  | [] => []
  | [(k, v)] => writeString k ++ ':' :: v.write
  | (k, v) :: rest => writeString k ++ ':' :: (v.write ++ ',' :: writeFields rest)

end

/-- The canonical text. -/
def compact (v : Json) : String := String.ofList v.write

end Json

end CatalogQuery
