import CatalogQuery.Query.Value
import CatalogQuery.Digest

/-!
# Calls, conditions and queries

A `Call` applies a function of the catalog to resolved arguments, and a `Condition` combines calls
by `and`, `or` and `not`. A `Query` is such a root together with the source that it was read from.
Roots of both kinds render back to query text and have canonical data; the fingerprint of a query is
the SHA-256 digest of the canonical text of its root.
-/

namespace CatalogQuery

/-- A function of the catalog applied to resolved arguments. -/
structure Call where
  function : String
  arguments : List Value

/-- A boolean combination of calls. -/
inductive Condition where
  | all (operands : List Condition)
  | any (operands : List Condition)
  | not (operand : Condition)
  | call (c : Call)

/-! ### Calls -/

namespace Call

def write (c : Call) : List Char :=
  c.function.toList ++ '(' :: (Value.writeItems c.arguments ++ [')'])

/-- A call as it would stand in a query. -/
def render (c : Call) : String := String.ofList c.write

def fields (c : Call) : List (String × Json) :=
  [("name", .str c.function), ("arguments", .arr (Value.itemsToJson c.arguments))]

/-- The canonical data of a call that is a root. -/
def toJson (c : Call) : Json := .obj c.fields

end Call

/-! ### Conditions -/

namespace Condition

/-- An `and` or an `or`, which is parenthesized as an operand. -/
def isChain : Condition → Bool
  | .all _ | .any _ => true
  | .not _ | .call _ => false

/-- Text in parentheses if asked for. -/
def parenthesized (wanted : Bool) (text : List Char) : List Char :=
  if wanted then '(' :: (text ++ [')']) else text

mutual

/-- A condition as query text, as characters. -/
def write : Condition → List Char
  | .all cs => writeOperands " and ".toList cs
  | .any cs => writeOperands " or ".toList cs
  | .not c => "not ".toList ++ parenthesized c.isChain c.write
  | .call c => c.write

/-- Operands with an operator between them. -/
def writeOperands (operator : List Char) : List Condition → List Char
  | [] => []
  | [c] => parenthesized c.isChain c.write
  | c :: rest => parenthesized c.isChain c.write ++ (operator ++ writeOperands operator rest)

end

/-- A condition as query text. -/
def render (c : Condition) : String := String.ofList c.write

mutual

/-- The canonical data of a condition. -/
def toJson : Condition → Json
  | .all cs => .obj [("type", .str "And"), ("children", .arr (operandsToJson cs))]
  | .any cs => .obj [("type", .str "Or"), ("children", .arr (operandsToJson cs))]
  | .not c => .obj [("type", .str "Not"), ("child", c.toJson)]
  | .call c => .obj (("type", .str "Call") :: c.fields)

/-- The canonical data of each operand. -/
def operandsToJson : List Condition → List Json
  | [] => []
  | c :: rest => c.toJson :: operandsToJson rest

end

mutual

/-- The calls of a condition from left to right. -/
def calls : Condition → List Call
  | .all cs | .any cs => callsOfEach cs
  | .not c => c.calls
  | .call c => [c]

/-- The calls of several conditions from left to right. -/
def callsOfEach : List Condition → List Call
  | [] => []
  | c :: rest => c.calls ++ callsOfEach rest

end

end Condition

/-! ### Queries -/

/-- What a query may have at its root: text that a query can hold, and canonical data. -/
class Root (α : Type) where
  render : α → String
  toJson : α → Json

instance : Root Condition := ⟨Condition.render, Condition.toJson⟩

instance : Root Call := ⟨Call.render, Call.toJson⟩

/-- A validated root and the source that it was read from. -/
structure Query (α : Type) where
  root : α
  source : String

/-- The SHA-256 digest of the canonical text of a root. -/
def fingerprint {α : Type} [Root α] (root : α) : String :=
  Digest.hex (Digest.sha256 (Root.toJson root).compact.toUTF8.toList)

end CatalogQuery
