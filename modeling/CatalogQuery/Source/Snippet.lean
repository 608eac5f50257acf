/-!
# Places and snippets

A `Place` is a line and a column, both counted from one. A `Snippet` is a piece of a source between
two byte offsets, together with the place where it begins. The offsets and the place are taken from
the normal form of the source, the text from the source itself; only where the source cannot be cut
at the offsets is the text, too, that of the normal form.
-/

namespace CatalogQuery

/-- A line and a column, counted from one; columns count characters. -/
structure Place where
  line : Nat
  column : Nat
  deriving DecidableEq, Repr

/-- A piece of a source. -/
structure Snippet where
  text : String
  /-- The byte offset of its first character. -/
  start : Nat
  /-- The byte offset after its last character. -/
  stop : Nat
  line : Nat
  column : Nat
  deriving DecidableEq, Repr

namespace Source

-- sums start from the literal zero, also where algebra brings its own
attribute [local instance (high)] Zero.ofOfNat0

/-- How many bytes a text takes. -/
def byteLength (cs : List Char) : Nat := (cs.map Char.utf8Size).sum

/-- The text without the characters that begin in its first `n` bytes. -/
def dropBytes : (n : Nat) → List Char → List Char
  | 0, cs => cs
  | _ + 1, [] => []
  | n + 1, c :: cs => dropBytes (n + 1 - c.utf8Size) cs

/-- The characters that begin in the first `n` bytes of a text. -/
def takeBytes : (n : Nat) → List Char → List Char
  | 0, _ => []
  | _ + 1, [] => []
  | n + 1, c :: cs => c :: takeBytes (n + 1 - c.utf8Size) cs

/-- The piece of a text between two byte offsets. -/
def slice (start stop : Nat) (cs : List Char) : List Char :=
  takeBytes (stop - start) (dropBytes start cs)

/-- A text cut at a byte offset, if it ends or a character of it begins there. -/
def cut? : (offset : Nat) → List Char → Option (List Char × List Char)
  | 0, cs => some ([], cs)
  | _ + 1, [] => none
  | n + 1, c :: cs =>
    if c.utf8Size ≤ n + 1 then
      (cut? (n + 1 - c.utf8Size) cs).map fun (before, after) => (c :: before, after)
    else none

/-- The piece of a text between two byte offsets, if they are in order and the text can be cut at
both. -/
def piece? (start stop : Nat) (cs : List Char) : Option (List Char) :=
  if start ≤ stop then
    (cut? start cs).bind fun (_, rest) => (cut? (stop - start) rest).map Prod.fst
  else none

end Source

/-- The place after a character at a place. A line ends after its line feed. -/
def Place.next (p : Place) (c : Char) : Place :=
  if c = '\n' then ⟨p.line + 1, 1⟩ else ⟨p.line, p.column + 1⟩

/-- The place of a byte offset in a text. -/
def Place.of (offset : Nat) (cs : List Char) : Place :=
  (Source.takeBytes offset cs).foldl Place.next ⟨1, 1⟩

namespace Snippet

/-- The snippet between two offsets, from a source and its normal form. -/
def of (source normal : List Char) (start stop : Nat) : Snippet :=
  let place := Place.of start normal
  let text := (Source.piece? start stop source).getD (Source.slice start stop normal)
  ⟨String.ofList text, start, stop, place.line, place.column⟩

/-- A snippet as messages show it. -/
def render (s : Snippet) : String :=
  "`" ++ s.text ++ "` (line " ++ toString s.line ++ ", column " ++ toString s.column ++ ")"

end Snippet

end CatalogQuery
