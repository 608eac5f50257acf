/-!
# Places in YAML text

A `Cursor` is a place in a text together with what is left of the text. It counts characters, lines
and columns, because YAML asks for them: indentation is a column, and a key has to stay on one line
and within a number of characters. `Cursor.gap` goes to the next place that is neither blank nor
comment.
-/

namespace CatalogQuery.Yaml

def isSpace (c : Char) : Bool := c == ' ' || c == '\t'

def isBreak (c : Char) : Bool :=
  c == '\n' || c == '\r' || c == '\u0085' || c == '\u2028' || c == '\u2029'

/-- The characters that a document may hold. -/
def isAllowed (c : Char) : Bool :=
  let n := c.toNat
  n == 9 || n == 10 || n == 13 || 0x20 ≤ n && n ≤ 0x7E || n == 0x85
    || 0xA0 ≤ n && n ≤ 0xFFFD || 0x10000 ≤ n

/-- A blank, a line break or the end comes next. -/
def atBlank : List Char → Bool
  | [] => true
  | c :: _ => isSpace c || isBreak c

/-- Three dashes or dots that stand alone come next. At the front of a line they set documents
apart. -/
def atDivider : List Char → Bool
  | a :: b :: c :: cs => (a == '-' || a == '.') && a == b && b == c && atBlank cs
  | _ => false

/-- How far a place lies from the start of a text. -/
structure Position where
  index : Nat
  line : Nat
  column : Nat

/-- The place behind a character. -/
def Position.after (p : Position) (c : Char) : Position :=
  if isBreak c then ⟨p.index + 1, p.line + 1, 0⟩ else ⟨p.index + 1, p.line, p.column + 1⟩

/-- A place in a text, with what is left of the text. -/
structure Cursor where
  position : Position
  rest : List Char

namespace Cursor

/-- The front of a text. -/
def ofText (cs : List Char) : Cursor := ⟨⟨0, 0, 0⟩, cs⟩

def column (c : Cursor) : Nat := c.position.column

/-- A divider of documents comes next. -/
def atDivider (c : Cursor) : Bool := c.column == 0 && Yaml.atDivider c.rest

/-- The place behind the next `n` characters. -/
def skip : (n : Nat) → Cursor → Cursor
  | n + 1, ⟨p, c :: cs⟩ => skip n ⟨p.after c, cs⟩
  | _, c => c

/-- Goes over blanks, comments and line breaks. Tabs are blanks only if `tabs` holds; once a line
break has come, they are if `tabsLater` holds. The answer says whether a line break has come. -/
def gapFrom (tabs tabsLater comment broken : Bool) (p : Position) : List Char → Cursor × Bool
  | [] => (⟨p, []⟩, broken)
  | c :: cs =>
    if isBreak c then gapFrom tabsLater tabsLater false true (p.after c) cs
    else if comment || c == '#' then gapFrom tabs tabsLater true broken (p.after c) cs
    else if c = ' ' ∨ (c = '\t' ∧ tabs) ∨ (c = '\uFEFF' ∧ p.column = 0) then
      gapFrom tabs tabsLater false broken (p.after c) cs
    else (⟨p, c :: cs⟩, broken)

/-- The next place that is neither blank nor comment, and whether it is on a later line. -/
def gap (tabs tabsLater : Bool) (c : Cursor) : Cursor × Bool :=
  gapFrom tabs tabsLater false false c.position c.rest

end Cursor

end CatalogQuery.Yaml
