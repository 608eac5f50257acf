import CatalogQuery.Environment.Assignment

/-!
# Environment variables

An `Environment` lists variables with their values; of several entries with one name the first
counts. A file can supply variables that are not set. Because its assignments are put behind what is
there, they override nothing, and the first of two for one name counts. An assignment may refer to
variables of the environment and to those that the file has supplied before. Reading ends at the
first malformed line.
-/

namespace CatalogQuery

/-- Variables with their values, the first entry of a name counting. -/
abbrev Environment := List (String × String)

namespace Environment

/-- The value of a variable, which is empty if the variable is not set. -/
def valueOf (env : Environment) (name : List Char) : List Char :=
  ((env.lookup (String.ofList name)).getD "").toList

/-- The environment with the assignments of lines, up to the first malformed one. -/
def withLines (env : Environment) : List (List Char) → Environment
  | [] => env
  | line :: lines =>
    let line := Text.trim line
    if line.isEmpty ∨ line.head? = some '#' then env.withLines lines
    else match readAssignment? env.valueOf line with
      | some assignment => Environment.withLines (env ++ [assignment]) lines
      | none => env

/-- The environment with the variables of a file where they are not set. -/
def withFile (env : Environment) (text : String) : Environment :=
  env.withLines (linesOf text.toList)

/-- The variables that a file with the given text may refer to. -/
def references (text : String) : List String := (namesIn text.toList).map String.ofList

end Environment

end CatalogQuery
