import CatalogQuery.Yaml.Basic

/-!
# Typed values in YAML data

These functions read what a configuration expects to find at a place of a document. A text takes any
scalar as it is written, and a number any unquoted one that is written as a number of its kind, even
if by the core rules it stands for something else: `007` is a floating-point number. Where a list or
a record is expected, a value that is left empty is an empty list or a record without fields. Fields
that a record does not know are passed over, but a known field may stand only once. Nothing that is
read may be nested too deep.
-/

namespace CatalogQuery.Yaml

-- powers are those of the standard library, also where algebra brings its own
attribute [local instance (high)] instPowNat

/-- The text of a scalar. -/
def asText? : Yaml → Option String
  | .scalar _ cs => some (String.ofList cs)
  | _ => none

/-- The items of a sequence, each read with `item`. -/
def asList? {α : Type} (item : Yaml → Option α) : Yaml → Option (List α)
  | .sequence ys => ys.mapM item
  | .scalar true [] => some []
  | _ => none

/-- What an unquoted scalar stands for. -/
def asPlain? : Yaml → Option Plain
  | .scalar true cs => some (Plain.ofText cs)
  | _ => none

/-- A natural number of 64 bits. -/
def asWord? : Yaml → Option UInt64
  | .scalar true cs =>
    match Plain.unsigned? cs with
    | some n => if n < 2 ^ (64 : Nat) then some (UInt64.ofNat n) else none
    | none => none
  | _ => none

/-- A floating-point number. -/
def asFloat? {f : BinaryFormat} : Yaml → Option (Binary f)
  | .scalar true cs => (Plain.float? cs).map (·.convert)
  | _ => none

/-- An optional value: one that is left empty or written as null is absent. -/
def asOptional? {α : Type} (value : Yaml → Option α) (y : Yaml) : Option (Option α) :=
  match asPlain? y with
  | some .null => some none
  | _ => (value y).map some

/-- How many collections may stand inside one another. -/
def nestingLimit : Nat := 128

/-- A value inside of `outer` collections that is not nested too deep. -/
def within? {α : Type} (outer : Nat) (value : Yaml → Option α) (y : Yaml) : Option α :=
  if outer + y.nesting ≤ nestingLimit then value y else none

/-! ### Records -/

/-- The fields of a record, by the texts of their keys. -/
def fields? : Yaml → Option (List (String × Yaml))
  | .mapping entries => entries.mapM fun (k, v) => (asText? k).map (·, v)
  | .scalar true [] => some []
  | _ => none

/-- The fields of a record in which none of the known ones stands twice. -/
def record? (known : List String) (y : Yaml) : Option (List (String × Yaml)) :=
  match fields? y with
  | some fields => if known.all fun k => fields.countP (·.1 == k) ≤ 1 then some fields else none
  | none => none

/-- A field that has to be there. -/
def required? {α : Type} (value : Yaml → Option α) (key : String)
    (fields : List (String × Yaml)) : Option α :=
  (fields.lookup key).bind value

/-- A field for which there is a default. -/
def defaulted? {α : Type} (default : α) (value : Yaml → Option α) (key : String)
    (fields : List (String × Yaml)) : Option α :=
  match fields.lookup key with
  | some y => value y
  | none => some default

/-! ### Free data -/

mutual

/-- The data as JSON. Unquoted scalars stand for what the core rules say. -/
def toJson? : Yaml → Option Json
  | .scalar true cs =>
    match Plain.ofText cs with
    | .null => some .null
    | .bool b => some (.bool b)
    | .int n => some (.int n)
    | .wideInt => none
    | .float x => some (.ofDouble x)
    | .text => some (.str (String.ofList cs))
  | .scalar false cs => some (.str (String.ofList cs))
  | .sequence ys => (itemsToJson? ys).map .arr
  | .mapping es => (entriesToJson? es).map .object

/-- The data of each item. -/
def itemsToJson? : List Yaml → Option (List Json)
  | [] => some []
  | y :: rest => do return (← toJson? y) :: (← itemsToJson? rest)

/-- The data of each entry, under the text of its key. -/
def entriesToJson? : List (Yaml × Yaml) → Option (List (String × Json))
  | [] => some []
  | (k, v) :: rest => do return (← asText? k, ← toJson? v) :: (← entriesToJson? rest)

end

end CatalogQuery.Yaml
