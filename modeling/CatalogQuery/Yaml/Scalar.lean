import CatalogQuery.Draft.Escape
import CatalogQuery.Yaml.Cursor

/-!
# Scalars in YAML text

`readQuoted` reads a scalar in single or double quotes, and `readPlain` one without quotes. Inside
both, blanks around a line break are dropped. The break itself is folded into a space unless more
breaks follow, which are kept then; line and paragraph separators are always kept.
-/

namespace CatalogQuery.Yaml

/-! ### Folding lines -/

/-- The character that a line break stands for. -/
def breakChar (c : Char) : Char := if c == '\u2028' || c == '\u2029' then c else '\n'

/-- What lies between the text read so far and the next character. -/
inductive Fold where
  /-- Blanks of the same line, the latest first. -/
  | blanks (cs : List Char)
  /-- A line break and the ones behind it, the latest first. -/
  | broken (first : Char) (more : List Char)
  /-- A backslash that a line break follows. -/
  | escaping
  /-- An escaped line break and the ones behind it, the latest first. -/
  | escaped (more : List Char)

namespace Fold

def none : Fold := .blanks []

/-- Adds a blank. After a line break it is indentation. -/
def blank (c : Char) : Fold → Fold
  | .blanks cs => .blanks (c :: cs)
  | fold => fold

/-- Adds a line break. -/
def lineBreak (c : Char) : Fold → Fold
  | .blanks _ => .broken (breakChar c) []
  | .broken first more => .broken first (breakChar c :: more)
  | .escaping => .escaped []
  | .escaped more => .escaped (breakChar c :: more)

/-- Adds a line break that may be the first half of a pair, which counts once. -/
def lineBreakBefore (c : Char) (cs : List Char) (fold : Fold) : Fold :=
  if c = '\r' ∧ cs.head? = some '\n' then fold else fold.lineBreak c

/-- Puts onto a text, the latest character first, what a fold leaves of itself. -/
def onto (text : List Char) : Fold → List Char
  | .blanks cs => cs ++ text
  | .broken '\n' [] => ' ' :: text
  | .broken '\n' more => more ++ text
  | .broken first more => more ++ first :: text
  | .escaping => text
  | .escaped more => more ++ text

/-- Nothing lies in between. -/
def isNone : Fold → Bool
  | .blanks [] => true
  | _ => false

/-- A line break has come. -/
def isBroken : Fold → Bool
  | .blanks _ | .escaping => false
  | .broken _ _ | .escaped _ => true

end Fold

/-- A scalar that was read: its text, the place behind it, and whether a line break was passed on
the way from the text to that place. -/
structure Scalar where
  text : List Char
  next : Cursor
  broken : Bool

/-! ### Quoted scalars -/

/-- The character of an escape with a single letter. -/
def simpleEscape? (c : Char) : Option Char :=
  match c with
  | '0' => some '\x00'
  | 'a' => some '\x07'
  | 'b' => some '\x08'
  | 't' => some '\t'
  | '\t' => some '\t'
  | 'n' => some '\n'
  | 'v' => some '\x0b'
  | 'f' => some '\x0c'
  | 'r' => some '\r'
  | 'e' => some '\x1b'
  | ' ' => some ' '
  | '"' => some '"'
  | '/' => some '/'
  | '\\' => some '\\'
  | 'N' => some '\u0085'
  | '_' => some '\u00a0'
  | 'L' => some '\u2028'
  | 'P' => some '\u2029'
  | _ => none

/-- The character of the escape after a backslash, and how many characters it takes. -/
def escape? : List Char → Option (Char × Nat)
  | [] => none
  | c :: cs =>
    match simpleEscape? c with
    | some d => some (d, 1)
    | none =>
      match Escape.hexWidth? c with
      | some n =>
        if (cs.take n).length = n then
          ((Escape.readDigits? 16 0 (cs.take n)).bind Escape.charOfCode?).map fun d => (d, n + 1)
        else none
      | none => none

/-- Reads on inside quotes, after the first `skip` characters. A divider of documents is refused
there. -/
def quotedFrom (double : Bool) (text : List Char) (fold : Fold) (p : Position) :
    (skip : Nat) → List Char → Option Scalar
  | _, [] => none
  | skip + 1, c :: cs => quotedFrom double text fold (p.after c) skip cs
  | 0, c :: cs =>
    let next := p.after c
    if isSpace c then quotedFrom double text (fold.blank c) next 0 cs
    else if isBreak c then quotedFrom double text (fold.lineBreakBefore c cs) next 0 cs
    else if Cursor.atDivider ⟨p, c :: cs⟩ then none
    else
      let text := fold.onto text
      if double ∧ c = '"' ∨ !double ∧ c = '\'' ∧ cs.head? ≠ some '\'' then
        some ⟨text.reverse, ⟨next, cs⟩, false⟩
      else if !double ∧ c = '\'' then quotedFrom double ('\'' :: text) .none next 1 cs
      else if double ∧ c = '\\' then
        if (cs.head?.map isBreak).getD false then quotedFrom double text .escaping next 0 cs
        else match escape? cs with
          | some (d, used) => quotedFrom double (d :: text) .none next used cs
          | none => none
      else quotedFrom double (c :: text) .none next 0 cs

/-- Reads a quoted scalar whose opening quote was just passed. -/
def readQuoted (double : Bool) (c : Cursor) : Option Scalar :=
  quotedFrom double [] .none c.position 0 c.rest

/-! ### Plain scalars -/

/-- The marks of collections in brackets. -/
def isFlowMark (c : Char) : Bool := c == ',' || c == '[' || c == ']' || c == '\x7b' || c == '\x7d'

/-- A plain scalar can begin with these characters. -/
def beginsPlain (inBrackets : Bool) : List Char → Bool
  | [] => false
  | c :: cs =>
    if isSpace c || isBreak c || isFlowMark c then false
    else if c = '-' then !atBlank cs
    else if c = '?' ∨ c = ':' then !inBrackets && !atBlank cs
    else !"#&*!|>'\"%@`".toList.contains c

/-- Reads on in a plain scalar. Outside brackets a line indented less than `least` ends it; tabs
may not take the place of that indentation anywhere. -/
def plainFrom (inBrackets : Bool) (least : Nat) (text : List Char) (fold : Fold) (p : Position) :
    List Char → Option Scalar
  | [] => some ⟨text.reverse, ⟨p, []⟩, fold.isBroken⟩
  | c :: cs =>
    let stop : Option Scalar := some ⟨text.reverse, ⟨p, c :: cs⟩, fold.isBroken⟩
    let next := p.after c
    if isSpace c then
      if fold.isBroken ∧ c = '\t' ∧ p.column < least then none
      else plainFrom inBrackets least text (fold.blank c) next cs
    else if isBreak c then plainFrom inBrackets least text (fold.lineBreakBefore c cs) next cs
    else if fold.isBroken ∧ !inBrackets ∧ p.column < least then stop
    else if !fold.isNone && (c == '#' || Cursor.atDivider ⟨p, c :: cs⟩) then stop
    else if c = ':' ∧ atBlank cs then stop
    else if inBrackets ∧ c = ':'
        ∧ (cs.head?.map fun d => isFlowMark d || d == '?').getD false then
      none
    else if inBrackets ∧ isFlowMark c then stop
    else plainFrom inBrackets least (c :: fold.onto text) .none next cs

/-- Reads a plain scalar. -/
def readPlain (inBrackets : Bool) (least : Nat) (c : Cursor) : Option Scalar :=
  if beginsPlain inBrackets c.rest then
    plainFrom inBrackets least [] .none c.position c.rest
  else none

end CatalogQuery.Yaml
