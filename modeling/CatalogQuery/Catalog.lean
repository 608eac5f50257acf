import CatalogQuery.ParamType
import CatalogQuery.Similarity.Index

/-!
# Catalogs of functions

A `Catalog` lists the functions that a query may call, in the order of their registration. No two
functions share a name and no function has two parameters of one name: `Catalog.register` refuses a
function that would break this, and leaves the catalog as it was.
-/

namespace CatalogQuery

/-- A parameter of a function. -/
structure Parameter where
  name : String
  type : ParamType
  /-- The index that corrects literals given for the parameter. -/
  similarity : Option SimilarityIndex

/-- A function that queries may call. -/
structure Function where
  name : String
  description : Option String
  parameters : List Parameter

/-- The functions that queries may call. -/
structure Catalog where
  functions : List Function

/-- Why a function is not registered or not found. -/
inductive CatalogError where
  | functionNotFound (name : String)
  | duplicateFunction (name : String)
  | duplicateParameter (function parameter : String)
  deriving DecidableEq, Repr

def CatalogError.message : CatalogError → String
  | .functionNotFound name => "Function not found: " ++ name
  | .duplicateFunction name => "Function " ++ name ++ " is registered more than once"
  | .duplicateParameter function parameter =>
    "Function " ++ function ++ " declares parameter " ++ parameter ++ " more than once"

/-- A catalog error as diagnostic output shows it. -/
def CatalogError.inspect : CatalogError → String
  | .functionNotFound name => "FunctionNotFound(" ++ Text.quoted name ++ ")"
  | .duplicateFunction name => "DuplicateFunction(" ++ Text.quoted name ++ ")"
  | .duplicateParameter function parameter =>
    "DuplicateParameter \x7b func: " ++ Text.quoted function ++ ", param: "
      ++ Text.quoted parameter ++ " \x7d"

/-! ### Parameters and functions -/

namespace Parameter

/-- The context types that the parameter admits. -/
def contextTypes (p : Parameter) : List String := p.type.contextTypes

/-- Whether contexts of a type may be passed. -/
def acceptsContext (p : Parameter) (typeName : String) : Bool := p.contextTypes.contains typeName

/-- A parameter as a signature shows it. -/
def render (p : Parameter) : String := p.name ++ ": " ++ p.type.render

/-- A parameter as diagnostic output shows it. -/
def inspect (p : Parameter) : String :=
  "Parameter \x7b name: " ++ Text.quoted p.name ++ ", param_type: " ++ p.type.inspect
    ++ ", similarity: " ++ (match p.similarity with
      | some index => "Some(" ++ Text.quoted index.name ++ ")"
      | none => "None") ++ " \x7d"

/-- The first name that occurs a second time among parameters, after the names `seen`. -/
def firstRepeated (seen : List String) : List Parameter → Option String
  | [] => none
  | p :: rest => if seen.contains p.name then some p.name else firstRepeated (p.name :: seen) rest

end Parameter

namespace Function

/-- The number of arguments that a call needs. -/
def arity (f : Function) : Nat := f.parameters.length

/-- The signature of a function with its description, on one line. -/
def render (f : Function) : String :=
  f.name ++ "(" ++ ", ".intercalate (f.parameters.map Parameter.render) ++ ")"
    ++ (match f.description with
      | some text => " - " ++ text
      | none => "")

/-- A function as diagnostic output shows it. -/
def inspect (f : Function) : String :=
  "ExposedFunction \x7b name: " ++ Text.quoted f.name ++ ", description: "
    ++ (match f.description with
      | some text => "Some(" ++ Text.quoted text ++ ")"
      | none => "None")
    ++ ", parameters: [" ++ ", ".intercalate (f.parameters.map Parameter.inspect) ++ "] \x7d"

end Function

/-! ### Catalogs -/

namespace Catalog

def empty : Catalog := ⟨[]⟩

/-- The function of a name. -/
def find? (c : Catalog) (name : String) : Option Function :=
  c.functions.find? fun f => f.name == name

/-- The function of a name, or the error that there is none. -/
def lookup (c : Catalog) (name : String) : Except CatalogError Function :=
  match c.find? name with
  | some f => .ok f
  | none => .error (.functionNotFound name)

/-- Adds a function at the end. A name that is taken is reported before a repeated parameter. -/
def register (c : Catalog) (f : Function) : Except CatalogError Catalog :=
  if c.functions.any fun g => g.name == f.name then .error (.duplicateFunction f.name)
  else match Parameter.firstRepeated [] f.parameters with
    | some p => .error (.duplicateParameter f.name p)
    | none => .ok ⟨c.functions ++ [f]⟩

/-- Registers functions in order; the first refusal ends it. -/
def registerAll (c : Catalog) : List Function → Except CatalogError Catalog
  | [] => .ok c
  | f :: rest => match c.register f with
    | .ok c => c.registerAll rest
    | .error e => .error e

/-- The catalog of the given functions. -/
def ofFunctions (fs : List Function) : Except CatalogError Catalog := empty.registerAll fs

/-- The signatures of all functions, one a line. -/
def describe (c : Catalog) : String := "\n".intercalate (c.functions.map Function.render)

end Catalog

end CatalogQuery
