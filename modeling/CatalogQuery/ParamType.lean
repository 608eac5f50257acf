import CatalogQuery.Json
import CatalogQuery.Text.Quoted

/-!
# Types of parameters

A `ParamType` is the declared type of a parameter. `ParamType.render` is its text in signatures and
messages, `ParamType.toJson` its form in catalog files, and `ParamType.contextTypes` lists the
context types that occur in it, each once and in the order of declaration.
-/

namespace CatalogQuery

/-- The declared type of a parameter. -/
inductive ParamType where
  | int
  | float
  | str
  | bool
  | list (element : ParamType)
  | optional (inner : ParamType)
  | union (members : List ParamType)
  /-- A context object of the named type. -/
  | context (typeName : String)

namespace ParamType

mutual

def write : ParamType → List Char
  | .int => "int".toList
  | .float => "float".toList
  | .str => "str".toList
  | .bool => "bool".toList
  | .list t => "list[".toList ++ (t.write ++ [']'])
  | .optional t => "Optional[".toList ++ (t.write ++ [']'])
  | .union ts => "Union[".toList ++ (writeMembers ts ++ [']'])
  | .context n => n.toList

def writeMembers : List ParamType → List Char
  | [] => []
  | [t] => t.write
  | t :: rest => t.write ++ ',' :: ' ' :: writeMembers rest

end

/-- A type as signatures and messages show it. -/
def render (t : ParamType) : String := String.ofList t.write

mutual

/-- A type as catalog files declare it. -/
def toJson : ParamType → Json
  | .int => .str "int"
  | .float => .str "float"
  | .str => .str "str"
  | .bool => .str "bool"
  | .list t => .obj [("list", t.toJson)]
  | .optional t => .obj [("optional", t.toJson)]
  | .union ts => .obj [("union", .arr (membersToJson ts))]
  | .context n => .obj [("context", .str n)]

def membersToJson : List ParamType → List Json
  | [] => []
  | t :: rest => t.toJson :: membersToJson rest

end

mutual

/-- The context types of a type, after those already found. -/
def collectContexts (found : List String) : ParamType → List String
  | .context n => if found.contains n then found else found ++ [n]
  | .list t | .optional t => t.collectContexts found
  | .union ts => collectContextsOfEach found ts
  | .int | .float | .str | .bool => found

def collectContextsOfEach (found : List String) : List ParamType → List String
  | [] => found
  | t :: rest => collectContextsOfEach (t.collectContexts found) rest

end

/-- The context types that occur in a type. -/
def contextTypes (t : ParamType) : List String := t.collectContexts []

mutual

/-- A type as diagnostic output shows it. -/
def inspect : ParamType → String
  | .int => "Int"
  | .float => "Float"
  | .str => "Str"
  | .bool => "Bool"
  | .list t => "List(" ++ t.inspect ++ ")"
  | .optional t => "Optional(" ++ t.inspect ++ ")"
  | .union ts => "Union([" ++ inspectMembers ts ++ "])"
  | .context n => "Context(" ++ Text.quoted n ++ ")"

def inspectMembers : List ParamType → String
  | [] => ""
  | [t] => t.inspect
  | t :: rest => t.inspect ++ ", " ++ inspectMembers rest

end

end ParamType

end CatalogQuery
