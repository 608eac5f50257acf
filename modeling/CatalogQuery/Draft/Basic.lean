import CatalogQuery.Catalog
import CatalogQuery.Decimal.Binary
import CatalogQuery.Source.Snippet

/-!
# Drafts

A `Draft` is a query whose shape is settled and whose calls are matched with functions of the
catalog, but whose arguments are still as the source has them: literals, lists and names that have
yet to be looked up and checked.
-/

namespace CatalogQuery

/-- A literal of the language. -/
inductive Literal where
  | none
  | bool (b : Bool)
  | int (n : Int64)
  | float (x : Double)
  | str (s : String)

/-- An argument as the source has it, and the piece of the source. -/
inductive RawArg where
  | literal (value : Literal) (piece : Snippet)
  | list (items : List RawArg) (piece : Snippet)
  | name (name : String) (piece : Snippet)
  /-- Something that no argument can be. -/
  | unsupported (piece : Snippet)

def RawArg.snippet : RawArg → Snippet
  | .literal _ s | .list _ s | .name _ s | .unsupported s => s

/-- A call of a known function with as many arguments as it has parameters. -/
structure DraftCall where
  function : Function
  arguments : List RawArg

/-- A boolean combination of draft calls. -/
inductive Draft where
  | all (operands : List Draft)
  | any (operands : List Draft)
  | not (operand : Draft)
  | call (c : DraftCall)

end CatalogQuery
