import CatalogQuery.Grammar.Rule

/-!
# Parsing expressions

`Expr` is the type of parsing expressions: sequence, ordered choice, repetition and lookahead over
texts, character classes and named rules.
-/

namespace CatalogQuery.Grammar

/-- The character classes that the grammar uses. All but `any` are ASCII only. -/
inductive CharClass where
  | any
  | digit
  | letter
  | alphanumeric
  deriving DecidableEq, Repr

def CharClass.holds : CharClass → Char → Bool
  | any, _ => true
  | digit, c => c.isDigit
  | letter, c => c.isAlpha
  | alphanumeric, c => c.isAlphanum

/-- A parsing expression. -/
inductive Expr where
  /-- Matches without consuming anything. -/
  | nothing
  /-- Matches at the end of the input. -/
  | atEnd
  /-- The given text. -/
  | text (t : List Char)
  /-- The given text, which is in lower case, in any mixture of ASCII cases. -/
  | anyCase (t : List Char)
  /-- One character of a class. -/
  | char (k : CharClass)
  | rule (r : Rule)
  /-- One after the other, with blanks and comments between them where the flavor has it. -/
  | seq (a b : Expr)
  /-- The second only if the first fails. -/
  | choice (a b : Expr)
  | optional (a : Expr)
  /-- As many matches in a row as there are, with blanks and comments between them. -/
  | many (a : Expr)
  /-- As many further matches as there are, each after blanks and comments. -/
  | more (a : Expr)
  /-- Matches without consuming anything where the expression fails. -/
  | absent (a : Expr)
  deriving DecidableEq, Repr

namespace Expr

/-- Several expressions one after the other. -/
def sequence : List Expr → Expr
  | [] => nothing
  | [e] => e
  | e :: rest => seq e (sequence rest)

/-- The first of several expressions that matches. -/
def oneOf : List Expr → Expr
  | [] => absent nothing
  | [e] => e
  | e :: rest => choice e (oneOf rest)

/-- At least one match. -/
def manyOne (e : Expr) : Expr := seq e (many e)

/-- The characters of a string. -/
def lit (s : String) : Expr := text s.toList

end Expr

end CatalogQuery.Grammar
