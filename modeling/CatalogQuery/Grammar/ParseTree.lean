import CatalogQuery.Grammar.Rule

/-!
# Parse trees

A node of a `ParseTree` says which rule matched, between which byte offsets, on which text, and what
its parts are.
-/

namespace CatalogQuery.Grammar

/-- A match of a rule, with the matches inside it from left to right. -/
inductive ParseTree where
  | node (rule : Rule) (start stop : Nat) (text : List Char) (children : List ParseTree)

namespace ParseTree

def rule : ParseTree → Rule
  | node r _ _ _ _ => r

def start : ParseTree → Nat
  | node _ b _ _ _ => b

def stop : ParseTree → Nat
  | node _ _ e _ _ => e

def text : ParseTree → List Char
  | node _ _ _ t _ => t

def children : ParseTree → List ParseTree
  | node _ _ _ _ cs => cs

end ParseTree

end CatalogQuery.Grammar
