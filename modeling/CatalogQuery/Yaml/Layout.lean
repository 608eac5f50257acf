import CatalogQuery.Yaml.Scalar

/-!
# The layout of YAML text

`tokens?` turns a text into marks, brackets and scalars, and writes out what the layout of the lines
says: where the indentation opens a sequence or a mapping and where it closes one, and where a key
begins.

A key is known only by the colon behind it. So a `Layout` remembers, outside brackets and for every
open bracket, the place where a key may have begun last. The colon makes that place a key, unless
it is on another line or too far back.
-/

namespace CatalogQuery.Yaml

/-- What the text of a document consists of. -/
inductive Token where
  /-- `---` at the front of a line. -/
  | documentStart
  /-- `...` at the front of a line. -/
  | documentEnd
  /-- The indentation opens a sequence. -/
  | openItems
  /-- The indentation opens a mapping. -/
  | openFields
  /-- The indentation closes a sequence or a mapping. -/
  | closeBlock
  /-- An item of a sequence begins. -/
  | item
  /-- A key begins. -/
  | key
  /-- The value of a key begins. -/
  | value
  | openBracket
  | closeBracket
  | openBrace
  | closeBrace
  | comma
  | scalar (plain : Bool) (text : List Char)
  deriving DecidableEq

/-- A place where a key may have begun. -/
structure KeyPlace where
  position : Position
  /-- Nothing else than a key can have begun there. -/
  required : Bool
  /-- How many tokens precede the place. -/
  token : Nat

/-- A key has to stay on one line and end within this many characters. -/
def KeyPlace.width : Nat := 1024

/-- The colon of a key that began at the place can no longer come. -/
def KeyPlace.isPast (k : KeyPlace) (p : Position) : Bool :=
  k.position.line < p.line || k.position.index + width < p.index

/-- The layout of what precedes a place in a text. -/
structure Layout where
  cursor : Cursor
  /-- The tokens so far, the latest first, and how many they are. -/
  tokens : List Token
  count : Nat
  /-- The columns of the collections that the indentation has opened, the innermost first. -/
  columns : List Nat
  /-- Where a key may have begun inside the innermost open bracket. -/
  place : Option KeyPlace
  /-- Where a key may have begun around each open bracket, the innermost first. -/
  places : List (Option KeyPlace)
  /-- A key may begin at the next token. -/
  keyMayBegin : Bool

namespace Layout

/-- The layout in front of a text. -/
def ofText (cs : List Char) : Layout where
  cursor := .ofText cs
  tokens := []
  count := 0
  columns := []
  place := none
  places := []
  keyMayBegin := true

def inBrackets (s : Layout) : Bool := !s.places.isEmpty

/-- The least indentation of what belongs to the innermost collection. -/
def least (s : Layout) : Nat :=
  match s.columns with
  | [] => 0
  | column :: _ => column + 1

/-- Adds a token. -/
def emit (t : Token) (s : Layout) : Layout :=
  { s with tokens := t :: s.tokens, count := s.count + 1 }

/-- Adds tokens, the latest first, in front of those from number `n` on. -/
def insert (n : Nat) (ts : List Token) (s : Layout) : Layout :=
  let later := s.count - n
  { s with
    tokens := s.tokens.take later ++ ts ++ s.tokens.drop later
    count := s.count + ts.length }

/-! ### Indentation -/

/-- Closes the collections that the indentation has opened right of a column. -/
def closeFrom (column : Nat) (s : Layout) : Layout :=
  if s.inBrackets then s
  else
    let closed := s.columns.takeWhile (column < ·)
    { s with
      tokens := closed.map (fun _ => Token.closeBlock) ++ s.tokens
      count := s.count + closed.length
      columns := s.columns.drop closed.length }

/-- Closes all collections that the indentation has opened. -/
def closeAll (s : Layout) : Layout :=
  if s.inBrackets then s
  else
    { s with
      tokens := s.columns.map (fun _ => Token.closeBlock) ++ s.tokens
      count := s.count + s.columns.length
      columns := [] }

/-- A column that is right of the innermost collection. -/
def opens (column : Nat) (s : Layout) : Bool := !s.inBrackets && s.least ≤ column

/-- Opens a collection in the column of the next token, if that is right of the innermost one. -/
def openHere (t : Token) (s : Layout) : Layout :=
  let column := s.cursor.column
  if s.opens column then { s.emit t with columns := column :: s.columns } else s

/-! ### Keys -/

/-- Forgets a place where a key has not turned up. There is no layout if it was required. -/
def dropPlace (s : Layout) : Option Layout :=
  match s.place with
  | some ⟨_, true, _⟩ => none
  | _ => some { s with place := none }

/-- A place that the colon of its key can still reach. -/
def reachable? (p : Position) : Option KeyPlace → Option (Option KeyPlace)
  | none => some none
  | some k =>
    if !k.isPast p then some (some k)
    else if k.required then none
    else some none

/-- Forgets all places that the colons of their keys can no longer reach. -/
def dropPast (s : Layout) : Option Layout := do
  let p := s.cursor.position
  return { s with
    place := ← reachable? p s.place
    places := ← s.places.mapM (reachable? p) }

/-- Remembers the place of the next token, if a key may begin there. In the column of the innermost
collection nothing else may. -/
def savePlace (s : Layout) : Option Layout :=
  if !s.keyMayBegin then some s
  else match s.dropPlace with
    | none => none
    | some s =>
      let required := !s.inBrackets && s.columns.head? == some s.cursor.column
      some { s with place := some ⟨s.cursor.position, required, s.count⟩ }

/-! ### Single tokens -/

/-- Goes over a mark of `width` characters. -/
def mark (t : Token) (width : Nat) (keyMayBegin : Bool) (s : Layout) : Layout :=
  { s.emit t with cursor := s.cursor.skip width, keyMayBegin }

/-- A mark that is no part of a key. -/
def endPlace (t : Token) (width : Nat) (keyMayBegin : Bool) (s : Layout) : Option Layout :=
  s.dropPlace.map (mark t width keyMayBegin)

/-- A divider of documents closes everything. -/
def divider (t : Token) (s : Layout) : Option Layout := s.closeAll.endPlace t 3 false

/-- The mark of an item. Outside brackets it stands where a key may begin. -/
def dash (s : Layout) : Option Layout :=
  if s.inBrackets then s.endPlace .item 1 true
  else if s.keyMayBegin then (s.openHere .openItems).endPlace .item 1 true
  else none

/-- The mark of a key that is announced. -/
def question (s : Layout) : Option Layout :=
  if s.inBrackets then s.endPlace .key 1 false
  else if s.keyMayBegin then (s.openHere .openFields).endPlace .key 1 true
  else none

/-- The mark of a value. It makes the place before it a key. Without such a place it stands, outside
brackets, where a key may begin. -/
def colon (s : Layout) : Option Layout :=
  match s.place with
  | some k =>
    let column := k.position.column
    let s :=
      if s.opens column then
        { s.insert k.token [.key, .openFields] with columns := column :: s.columns }
      else s.insert k.token [.key]
    some ({ s with place := none }.mark .value 1 false)
  | none =>
    if s.inBrackets then some (s.mark .value 1 false)
    else if s.keyMayBegin then some ((s.openHere .openFields).mark .value 1 true)
    else none

/-- An opening bracket. -/
def opening (t : Token) (s : Layout) : Option Layout :=
  s.savePlace.map fun s =>
    { s.mark t 1 true with place := none, places := s.place :: s.places }

/-- A closing bracket. -/
def closing (t : Token) (s : Layout) : Option Layout :=
  s.dropPlace.map fun s =>
    match s.places with
    | [] => s.mark t 1 false
    | place :: places => { s.mark t 1 false with place, places }

/-- A scalar. A key may begin behind it if a line break has come. -/
def scalar (plain : Bool) (read : Option Scalar) (s : Layout) : Option Layout :=
  match s.savePlace, read with
  | some s, some r =>
    some { s.emit (.scalar plain r.text) with cursor := r.next, keyMayBegin := r.broken }
  | _, _ => none

/-- The layout behind the next token. -/
def token (s : Layout) : Option Layout :=
  let c := s.cursor
  if c.atDivider then
    s.divider (if c.rest.head? = some '-' then .documentStart else .documentEnd)
  else match c.rest with
    | [] => none
    | '[' :: _ => s.opening .openBracket
    | '\x7b' :: _ => s.opening .openBrace
    | ']' :: _ => s.closing .closeBracket
    | '\x7d' :: _ => s.closing .closeBrace
    | ',' :: _ => s.endPlace .comma 1 true
    | '\'' :: _ => s.scalar false (readQuoted false (c.skip 1))
    | '"' :: _ => s.scalar false (readQuoted true (c.skip 1))
    | d :: cs =>
      if d = '-' ∧ atBlank cs then s.dash
      else if d = '?' ∧ (s.inBrackets || atBlank cs) then s.question
      else if d = ':' ∧ (s.inBrackets || atBlank cs) then s.colon
      else s.scalar true (readPlain s.inBrackets s.least c)

/-- The layout in front of the next token. Outside brackets a key may begin on a new line, and tabs
are no indentation. -/
def gap (s : Layout) : Option Layout :=
  let tabs := s.inBrackets || !s.keyMayBegin
  let (cursor, broken) := s.cursor.gap tabs s.inBrackets
  let keyMayBegin := s.keyMayBegin || broken && !s.inBrackets
  { s with cursor, keyMayBegin }.dropPast

/-- The tokens of a text. Every step takes at least one character, so that the length of the text
is enough fuel. -/
def tokensFrom : (fuel : Nat) → Layout → Option (List Token)
  | 0, _ => none
  | fuel + 1, s =>
    match s.gap with
    | none => none
    | some s =>
      if s.cursor.rest.isEmpty then s.closeAll.dropPlace.map (·.tokens.reverse)
      else ((s.closeFrom s.cursor.column).token).bind (tokensFrom fuel)

end Layout

/-- The tokens of a text, if its layout is sound. -/
def tokens? (cs : List Char) : Option (List Token) :=
  if cs.all isAllowed then Layout.tokensFrom (cs.length + 1) (.ofText cs) else none

-- The colon makes the place in front of the bracket a key, and that opens a mapping.
example : tokens? "[a]: b".toList = some [.openFields, .key, .openBracket, .scalar true ['a'],
    .closeBracket, .value, .scalar true ['b'], .closeBlock] := by decide +kernel
-- On another line it comes too late.
example : tokens? "a\n: b".toList = some [.scalar true ['a'], .openFields, .value,
    .scalar true ['b'], .closeBlock] := by decide +kernel

end CatalogQuery.Yaml
