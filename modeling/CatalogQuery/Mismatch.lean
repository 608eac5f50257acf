import CatalogQuery.ParamType

/-!
# Why a value does not fit a type

A `Mismatch` names the type that was expected and the kind of value that was found, and where in
nested lists it was found.
-/

namespace CatalogQuery

/-- Why a value does not fit a type. -/
inductive Mismatch where
  | expected (type : ParamType) (kind : String)
  /-- The element of that index does not fit. -/
  | element (index : Nat) (why : Mismatch)

def Mismatch.message : Mismatch → String
  | .expected type kind => "expected " ++ type.render ++ ", got " ++ kind
  | .element index why => "element " ++ toString index ++ ": " ++ why.message

end CatalogQuery
