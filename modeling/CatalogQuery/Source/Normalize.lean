import CatalogQuery.Text.Alphanumeric

/-!
# Normal form of a source

Sources spell `and`, `or` and `not` in any case and break lines inside brackets. The grammar wants
the three words in lower case and one line per statement. `normalize` brings a source to that form
without moving anything: outside quotes and comments the three words are lowered, a line break
inside brackets becomes a blank, and a comment inside brackets becomes as many blanks as it has
bytes. Every character keeps its byte offset, so that offsets into the normal form are offsets into
the source.
-/

namespace CatalogQuery.Source

/-- Where in a source a character stands. -/
inductive Zone where
  /-- Outside quotes and comments, inside `depth` brackets. -/
  | code (depth : Nat)
  /-- Inside a quote that `mark` opened; `escaped` after an odd number of backslashes. -/
  | quoted (mark : Char) (escaped : Bool) (depth : Nat)
  | comment (depth : Nat)
  deriving DecidableEq, Repr

/-- The words whose case does not matter. -/
def lowered : List (List Char) := ["and".toList, "or".toList, "not".toList]

/-- A character that words are made of. -/
def isWordChar (c : Char) : Bool := Text.isAlphanumeric c || c == '_'

/-- A whole word in normal form: one of the three in lower case, any other as it is. -/
def settle (word : List Char) : List Char :=
  let lower := word.map Char.toLower
  if lower ∈ lowered then lower else word

/-- A character of a comment in normal form. -/
def faded (depth : Nat) (c : Char) : List Char :=
  if 0 < depth then List.replicate c.utf8Size ' ' else [c]

/-- A line break in normal form. -/
def joined (depth : Nat) : Char := if 0 < depth then ' ' else '\n'

/-- The zone after a character of code that is not part of a word. -/
def Zone.after (depth : Nat) (c : Char) : Zone :=
  if c = '\'' ∨ c = '"' then .quoted c false depth
  else if c = '#' then .comment depth
  else if c = '(' ∨ c = '[' ∨ c = '\x7b' then .code (depth + 1)
  else if c = ')' ∨ c = ']' ∨ c = '\x7d' then .code (depth - 1)
  else .code depth

/-- A character of code that is not part of a word, in normal form. -/
def settleChar (depth : Nat) (c : Char) : List Char :=
  if c = '\n' then [joined depth]
  else if c = '#' then faded depth c
  else [c]

/-- The normal form of the rest of a source, from inside a zone and after the characters `word` of a
word that has begun. -/
def normalizeFrom : Zone → (word : List Char) → List Char → List Char
  | _, word, [] => settle word
  | .quoted mark escaped depth, word, c :: cs =>
    c :: normalizeFrom
      (if escaped then .quoted mark false depth
        else if c = '\\' then .quoted mark true depth
        else if c = mark ∨ c = '\n' then .code depth
        else .quoted mark false depth) word cs
  | .comment depth, word, c :: cs =>
    if c = '\n' then joined depth :: normalizeFrom (.code depth) word cs
    else faded depth c ++ normalizeFrom (.comment depth) word cs
  | .code depth, word, c :: cs =>
    if isWordChar c then normalizeFrom (.code depth) (word ++ [c]) cs
    else settle word ++ settleChar depth c ++ normalizeFrom (Zone.after depth c) [] cs

/-- The normal form of a source, as characters. -/
def normalizeChars (cs : List Char) : List Char := normalizeFrom (.code 0) [] cs

/-- The normal form of a source. -/
def normalize (source : String) : String := String.ofList (normalizeChars source.toList)

end CatalogQuery.Source
