import CatalogQuery.Text.Blank
import CatalogQuery.Text.Split

/-!
# The lines of an environment file

An assignment may hold line breaks inside quotes, so that several lines of the file make up one.
`Environment.joinLines` puts them together and takes off comments. A comment stands on a line of its
own, or behind an odd number of blanks; behind an even number its mark belongs to the line, whose
reader has to tell. A line that the end of the file leaves open inside quotes, or behind a backslash
or an odd number of blanks, is malformed, and nothing comes of it.
-/

namespace CatalogQuery.Environment

/-- How a part of a line is quoted. -/
inductive Quoting where
  | bare
  | single
  | double
  deriving DecidableEq

/-- What the end of a line depends on. -/
inductive LineState where
  | within (q : Quoting)
  /-- Behind a backslash. -/
  | escape (q : Quoting)
  /-- Behind an odd number of blanks. -/
  | blank
  | comment
  deriving DecidableEq

namespace LineState

/-- The state behind a character outside of quotes that is no blank. -/
def ofBare (c : Char) : LineState :=
  if c = '\\' then .escape .bare
  else if c = '"' then .within .double
  else if c = '\'' then .within .single
  else .within .bare

/-- The state behind a character. -/
def next (c : Char) : LineState → LineState
  | escape q => .within q
  | comment => .comment
  | blank => if c = '#' then .comment else ofBare c
  | within .bare => if Text.isBlank c ∧ c ≠ '\n' ∧ c ≠ '\r' then .blank else ofBare c
  | within .single =>
    if c = '\\' then .escape .single else if c = '\'' then .within .bare else .within .single
  | within .double =>
    if c = '\\' then .escape .double else if c = '"' then .within .bare else .within .double

/-- What remains of a line without its comment, and the state at its end. -/
def scan (s : LineState) : List Char → List Char × LineState
  | [] => ([], s)
  | c :: cs =>
    match s.next c with
    | .comment => ([], .comment)
    | s => let (kept, last) := s.scan cs; (c :: kept, last)

/-- A line can end in this state. -/
def mayEndLine (s : LineState) : Bool := s == .within .bare || s == .comment

end LineState

/-- Puts together the lines of a file, given without their line breaks. `begun` is the text so far
of an assignment that is still open, and `s` its state. -/
def joinLines (begun : List Char) (s : LineState) : List (List Char) → List (List Char)
  | [] => []
  | line :: lines =>
    if begun.isEmpty ∧ (Text.trimStart line).head? = some '#' then
      joinLines [] (.within .bare) lines
    else
      let (kept, s) := s.scan (if lines.isEmpty then line else line ++ ['\n'])
      if s.mayEndLine then (begun ++ kept) :: joinLines [] (.within .bare) lines
      else joinLines (begun ++ kept) s lines

/-- The lines of a file with the given text. A mark of the byte order may precede it. -/
def linesOf (text : List Char) : List (List Char) :=
  let text := if text.head? = some '\uFEFF' then text.tail else text
  joinLines [] (.within .bare) (Text.split '\n' text)

-- Quotes join lines, and a comment ends what precedes it.
example : linesOf "A='x\ny' #z\nB".toList = ["A='x\ny' ".toList, "B".toList] := by decide +kernel
-- The end of the file closes no quotes.
example : linesOf "A\nB='x\n".toList = ["A\n".toList] := by decide +kernel

end CatalogQuery.Environment
