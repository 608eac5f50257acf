import CatalogQuery.Environment.Line
import CatalogQuery.Text.Alphanumeric

/-!
# Assignments in environment files

A line `NAME=value` assigns a value to a variable; the word `export` may precede the name. The value
is made of bare parts and quoted ones, and a bare blank ends it. A backslash takes the meaning from
the next character. Everywhere but in single quotes, `$NAME` stands for the value of a variable, and
so does the name in braces; the character that ends a name without braces stands for itself.
-/

namespace CatalogQuery.Environment

def beginsName (c : Char) : Bool := c.isAlpha || c == '_'

def continuesName (c : Char) : Bool := c.isAlphanum || c == '_' || c == '.'

/-- The name at the front of a line, and the rest behind it and blanks. -/
def readName? : List Char → Option (List Char × List Char)
  | [] => none
  | c :: cs =>
    if beginsName c then
      some (c :: cs.takeWhile continuesName, Text.trimStart (cs.dropWhile continuesName))
    else none

/-- The character that a backslash and another character stand for. -/
def escaped? (c : Char) : Option Char :=
  if c = 'n' then some '\n'
  else if ['\\', '\'', '"', '$', ' '].contains c then some c
  else none

/-- Only a comment may follow the blank that ends a value. -/
def endsHere (cs : List Char) : Bool :=
  match cs.dropWhile fun c => c == ' ' || c == '\t' with
  | [] => true
  | c :: _ => c == '#'

/-- What is being read of a value. -/
inductive Part where
  | text (q : Quoting)
  /-- The name of a variable, the latest character first. -/
  | name (q : Quoting) (read : List Char)
  /-- The same in braces. -/
  | braced (q : Quoting) (read : List Char)

/-- A value, in which the names of variables are replaced by what `valueOf` gives for them. -/
def readValue? (valueOf : List Char → List Char) : Part → List Char → Option (List Char)
  | .text .bare, [] => some []
  | .name .bare name, [] => some (valueOf name.reverse)
  | _, [] => none
  | .name q name, c :: cs =>
    if Text.isAlphanumeric c then readValue? valueOf (.name q (c :: name)) cs
    else if c = '\x7b' ∧ name = [] then readValue? valueOf (.braced q []) cs
    else if c = '$' then (readValue? valueOf (.name q []) cs).map (valueOf name.reverse ++ ·)
    else (readValue? valueOf (.text q) cs).map (valueOf name.reverse ++ c :: ·)
  | .braced q name, c :: cs =>
    if c = '\x7d' then (readValue? valueOf (.text q) cs).map (valueOf name.reverse ++ ·)
    else readValue? valueOf (.braced q (c :: name)) cs
  | .text .single, c :: cs =>
    if c = '\'' then readValue? valueOf (.text .bare) cs
    else (readValue? valueOf (.text .single) cs).map (c :: ·)
  | .text .bare, ['\\'] => some []
  | .text q, '\\' :: c :: cs => do return (← escaped? c) :: (← readValue? valueOf (.text q) cs)
  | .text q, '$' :: cs => readValue? valueOf (.name q []) cs
  | .text .double, c :: cs =>
    if c = '"' then readValue? valueOf (.text .bare) cs
    else (readValue? valueOf (.text .double) cs).map (c :: ·)
  | .text .bare, c :: cs =>
    if c = '\'' then readValue? valueOf (.text .single) cs
    else if c = '"' then readValue? valueOf (.text .double) cs
    else if c = ' ' ∨ c = '\t' then if endsHere cs then some [] else none
    else (readValue? valueOf (.text .bare) cs).map (c :: ·)

-- A name ends at the first character that is no letter or number, and that character is kept.
example : readValue? id (.text .bare) "$a_${b c}'$d'".toList = some "a_b c$d".toList := by
  decide +kernel

/-- What stands behind the name on a line. -/
def readAssigned? (valueOf : List Char → List Char) (name : List Char) :
    List Char → Option (String × String)
  | '=' :: cs =>
    let cs := Text.trimStart cs
    if cs.head? = some '#' then some (String.ofList name, "")
    else (readValue? valueOf (.text .bare) cs).map fun value =>
      (String.ofList name, String.ofList value)
  | _ => none

/-- A line with an assignment, in front of which the word `export` may stand. -/
def readAssignment? (valueOf : List Char → List Char) (line : List Char) :
    Option (String × String) :=
  match readName? line with
  | none => none
  | some (name, rest) =>
    if name = "export".toList ∧ rest.head? ≠ some '=' then
      (readName? rest).bind fun (name, rest) => readAssigned? valueOf name rest
    else readAssigned? valueOf name rest

/-- The names that may stand for values in a text: behind every dollar sign, with braces or
without. -/
def namesIn (text : List Char) : List (List Char) :=
  (Text.split '$' text).tail.map fun
    | '\x7b' :: cs => cs.takeWhile (· ≠ '\x7d')
    | cs => cs.takeWhile Text.isAlphanumeric

end CatalogQuery.Environment
