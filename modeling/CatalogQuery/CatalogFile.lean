import CatalogQuery.Catalog
import CatalogQuery.Query.Value
import CatalogQuery.Similarity.Choices
import CatalogQuery.Yaml.Decode
import CatalogQuery.Yaml.Document

/-!
# Catalog files

A catalog file declares functions and, optionally, contexts. A parameter with choices gets a
similarity index over them, which is named for the function and the parameter. A context file is a
list of contexts alone.
-/

namespace CatalogQuery

/-- A parameter as a catalog file declares it. -/
structure ParameterDef where
  name : String
  type : ParamType
  choices : List String
  threshold : Option Double

/-- A function as a catalog file declares it. -/
structure FunctionDef where
  name : String
  description : Option String
  parameters : List ParameterDef

/-- The content of a catalog file. -/
structure CatalogFile where
  functions : List FunctionDef
  contexts : List Context

/-- Why a file gives no catalog or no contexts. -/
inductive CatalogFileError where
  | unreadable
  | malformed
  | invalid (e : CatalogError)
  deriving DecidableEq, Repr

/-! ### Reading declarations -/

namespace Yaml

mutual

/-- The type that a catalog file declares: a word, or a record of the kind of a composite type. -/
def asParamType? : Yaml → Option ParamType
  | .scalar isPlain cs =>
    if isPlain && !(match Plain.ofText cs with
      | .text => true
      | _ => false) then none
    else match String.ofList cs with
      | "int" => some .int
      | "float" => some .float
      | "str" => some .str
      | "bool" => some .bool
      | _ => none
  | .mapping [(.scalar _ key, y)] =>
    match String.ofList key with
    | "list" => (asParamType? y).map .list
    | "optional" => (asParamType? y).map .optional
    | "context" => (asText? y).map .context
    | "union" =>
      match y with
      | .sequence ys => (asParamTypes? ys).map .union
      | .scalar true [] => some (.union [])
      | _ => none
    | _ => none
  | _ => none

/-- The types that a catalog file declares as the members of a union. -/
def asParamTypes? : List Yaml → Option (List ParamType)
  | [] => some []
  | y :: rest => do return (← asParamType? y) :: (← asParamTypes? rest)

end

def asParameter? (y : Yaml) : Option ParameterDef := do
  let fields ← record? ["name", "type", "choices", "threshold"] y
  return {
    name := ← required? asText? "name" fields
    type := ← required? (within? 5 asParamType?) "type" fields
    choices := ← defaulted? [] (asList? asText?) "choices" fields
    threshold := ← defaulted? none (asOptional? asFloat?) "threshold" fields }

def asFunction? (y : Yaml) : Option FunctionDef := do
  let fields ← record? ["name", "description", "parameters"] y
  return {
    name := ← required? asText? "name" fields
    description := ← defaulted? none (asOptional? asText?) "description" fields
    parameters := ← defaulted? [] (asList? asParameter?) "parameters" fields }

/-- A context inside of `outer` collections. -/
def asContext? (outer : Nat) (y : Yaml) : Option Context := do
  let fields ← record? ["alias", "type_name", "payload"] y
  return {
    name := ← required? asText? "alias" fields
    typeName := ← required? asText? "type_name" fields
    payload := ← defaulted? .null (within? (outer + 1) toJson?) "payload" fields }

def asCatalogFile? (y : Yaml) : Option CatalogFile := do
  let fields ← record? ["functions", "contexts"] y
  return {
    functions := ← required? (asList? asFunction?) "functions" fields
    contexts := ← defaulted? [] (asList? (asContext? 2)) "contexts" fields }

end Yaml

/-! ### From declarations to the catalog -/

/-- The parameter of a function of that name. -/
def ParameterDef.toParameter (function : String) (d : ParameterDef) : Parameter where
  name := d.name
  type := d.type
  similarity :=
    if d.choices.isEmpty then none
    else some (Choices.toIndex
      ⟨function ++ "." ++ d.name, d.choices, d.threshold.getD Choices.defaultThreshold⟩)

def FunctionDef.toFunction (d : FunctionDef) : Function :=
  ⟨d.name, d.description, d.parameters.map (ParameterDef.toParameter d.name)⟩

namespace CatalogFile

/-- The content of a catalog file with the given text. -/
def read (text : String) : Except CatalogFileError CatalogFile :=
  match (Yaml.read? text).bind Yaml.asCatalogFile? with
  | some file => .ok file
  | none => .error .malformed

/-- The catalog of the declared functions. -/
def catalog (file : CatalogFile) : Except CatalogFileError Catalog :=
  match Catalog.ofFunctions (file.functions.map FunctionDef.toFunction) with
  | .ok c => .ok c
  | .error e => .error (.invalid e)

end CatalogFile

/-- The contexts in a context file with the given text. -/
def readContexts (text : String) : Except CatalogFileError (List Context) :=
  match (Yaml.read? text).bind (Yaml.asList? (Yaml.asContext? 1)) with
  | some contexts => .ok contexts
  | none => .error .malformed

/-- The text of a catalog error. What is wrong with a file itself is not spelled out. -/
def CatalogFileError.message : CatalogFileError → String
  | unreadable => "Failed to read catalog file"
  | malformed => "Failed to parse catalog YAML"
  | invalid e => "Invalid catalog: " ++ e.message

end CatalogQuery
