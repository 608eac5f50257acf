/-!
# Escapes in string literals

`unescape` gives the text that the body of a string literal denotes. A backslash begins an escape:
one of a few single letters, up to three octal digits, or `x`, `u`, `U` with two, four or eight
hexadecimal digits. A backslash before a line break stands for nothing, and before any other
character for itself. A body is refused if hexadecimal digits are missing or name no character.
-/

namespace CatalogQuery.Escape

/-- The value of a digit in some base up to sixteen, the letters in either case. -/
def digitValue? (base : Nat) (c : Char) : Option Nat :=
  let value :=
    if c.isDigit then c.toNat - '0'.toNat
    else if 'a' ≤ c ∧ c ≤ 'f' then c.toNat - 'a'.toNat + 10
    else if 'A' ≤ c ∧ c ≤ 'F' then c.toNat - 'A'.toNat + 10
    else base
  if value < base then some value else none

/-- The number that digits denote, after the digits already read. -/
def readDigits? (base : Nat) (sofar : Nat) : List Char → Option Nat
  | [] => some sofar
  | c :: cs =>
    match digitValue? base c with
    | some d => readDigits? base (base * sofar + d) cs
    | none => none

/-- The character with a code, if there is one. -/
def charOfCode? (code : Nat) : Option Char :=
  if code.isValidChar then some (Char.ofNat code) else none

/-- The character named by the `n` characters in front: hexadecimal digits, the first of which may
be replaced by a plus sign. -/
def hexChar? (n : Nat) (cs : List Char) : Option Char :=
  let code := cs.take n
  if code.length = n then
    (readDigits? 16 0 (match code with
      | '+' :: rest => rest
      | code => code)).bind charOfCode?
  else none

/-- The octal digits in front, at most `n`. -/
def octalDigits : (n : Nat) → List Char → List Char
  | n + 1, c :: cs => if (digitValue? 8 c).isSome then c :: octalDigits n cs else []
  | _, _ => []

/-- The characters that an escape with a single letter stands for. -/
def simple? (c : Char) : Option (List Char) :=
  match c with
  | 'n' => some ['\n']
  | 't' => some ['\t']
  | 'r' => some ['\r']
  | 'a' => some ['\x07']
  | 'b' => some ['\x08']
  | 'f' => some ['\x0c']
  | 'v' => some ['\x0b']
  | '\\' => some ['\\']
  | '\'' => some ['\'']
  | '"' => some ['"']
  | '\n' => some []
  | _ => none

/-- How many hexadecimal digits follow a letter. -/
def hexWidth? (c : Char) : Option Nat :=
  match c with
  | 'x' => some 2
  | 'u' => some 4
  | 'U' => some 8
  | _ => none

/-- What the escape after a backslash stands for, and how many characters it takes. -/
def read : List Char → Option (List Char × Nat)
  | [] => none
  | c :: cs =>
    match simple? c, hexWidth? c with
    | some out, _ => some (out, 1)
    | none, some n => (hexChar? n cs).map fun d => ([d], n + 1)
    | none, none =>
      match octalDigits 3 (c :: cs) with
      | [] => some (['\\', c], 1)
      | digits => ((readDigits? 8 0 digits).bind charOfCode?).map fun d => ([d], digits.length)

/-- The text that the rest of a body denotes after its first `skip` characters. -/
def unescapeFrom : (skip : Nat) → List Char → Option (List Char)
  | _, [] => some []
  | skip + 1, _ :: cs => unescapeFrom skip cs
  | 0, c :: cs =>
    if c = '\\' then
      match read cs with
      | some (out, used) => (unescapeFrom used cs).map (out ++ ·)
      | none => none
    else (unescapeFrom 0 cs).map (c :: ·)

/-- The text that the body of a string literal denotes. -/
def unescape (body : List Char) : Option (List Char) := unescapeFrom 0 body

end CatalogQuery.Escape
