import CatalogQuery.Json

/-!
# Argument values

A `Value` is an argument of a call once it is resolved: a literal, a list of values, or a `Context`,
an object that the caller supplied and that a query refers to by name. `Value.render` writes a value
as it would stand in a query; `Value.toJson` is its canonical data.
-/

namespace CatalogQuery

/-- An object supplied by the caller. -/
structure Context where
  /-- The identifier by which a query refers to it. -/
  name : String
  /-- The name of its type, which a parameter type may admit. -/
  typeName : String
  /-- Data that travels with it. -/
  payload : Json

/-- A resolved argument. -/
inductive Value where
  | none
  | bool (b : Bool)
  | int (n : Int64)
  | float (x : Double)
  | str (s : String)
  | list (items : List Value)
  | context (c : Context)

namespace Value

/-- The kind of a value, as messages name it. -/
def kind : Value → String
  | .none => "None"
  | .bool _ => "bool"
  | .int _ => "int"
  | .float _ => "float"
  | .str _ => "str"
  | .list _ => "list"
  | .context _ => "context"

/-! ### Text in a query -/

/-- A character inside a quoted text of a query. -/
def escape (c : Char) : List Char :=
  if c = '\\' then ['\\', '\\']
  else if c = '\'' then ['\\', '\'']
  else if c = '\n' then ['\\', 'n']
  else if c = '\t' then ['\\', 't']
  else if c = '\r' then ['\\', 'r']
  else [c]

/-- A quoted text of a query. -/
def writeString (s : String) : List Char := '\'' :: (s.toList.flatMap escape ++ ['\''])

mutual

/-- A value as it would stand in a query, as characters. -/
def write : Value → List Char
  | .none => "None".toList
  | .bool true => "True".toList
  | .bool false => "False".toList
  | .int n => Json.writeInt n.toInt
  | .float x => (DecimalStyle.rendered.write x).toList
  | .str s => writeString s
  | .list items => '[' :: (writeItems items ++ [']'])
  | .context c => c.name.toList

/-- Values with commas between them. -/
def writeItems : List Value → List Char
  | [] => []
  | [v] => v.write
  | v :: rest => v.write ++ ',' :: ' ' :: writeItems rest

end

/-- A value as it would stand in a query. -/
def render (v : Value) : String := String.ofList v.write

end Value

/-! ### Canonical data -/

/-- The canonical data of a context. -/
def Context.toJson (c : Context) : Json :=
  .obj [("alias", .str c.name), ("type_name", .str c.typeName), ("payload", c.payload)]

namespace Value

/-- Data under the name of its kind. -/
def tagged (kind : String) (data : Json) : Json := .obj [("type", .str kind), ("value", data)]

mutual

/-- The canonical data of a value. -/
def toJson : Value → Json
  | .none => .obj [("type", .str "None")]
  | .bool b => tagged "Bool" (.bool b)
  | .int n => tagged "Int" (.int n.toInt)
  | .float x => tagged "Float" (.ofDouble x)
  | .str s => tagged "Str" (.str s)
  | .list items => tagged "List" (.arr (itemsToJson items))
  | .context c => tagged "Context" c.toJson

/-- The canonical data of each value. -/
def itemsToJson : List Value → List Json
  | [] => []
  | v :: rest => v.toJson :: itemsToJson rest

end

end Value

end CatalogQuery
