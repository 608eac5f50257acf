import CatalogQuery.Grammar.Rule

/-!
# How far matching came

While a source is matched, a `Furthest` remembers the furthest byte offset at which a rule failed
and the rules that failed there. When the whole match fails these are what the syntax error
reports. A rule takes the place of the rules that failed inside it at its own offset, unless exactly
one of them did, which then says more than the rule itself.
-/

namespace CatalogQuery.Grammar

/-- The furthest offset at which rules failed, and those rules, the latest first. -/
structure Furthest where
  offset : Nat
  rules : List Rule
  deriving DecidableEq, Repr

namespace Furthest

/-- Nothing has failed yet. -/
def start : Furthest := ⟨0, []⟩

/-- How many failures are remembered for an offset. -/
def countAt (f : Furthest) (offset : Nat) : Nat := if offset = f.offset then f.rules.length else 0

/-- Remembers that a rule failed at an offset where `before` failures were remembered when it
began. -/
def record (f : Furthest) (r : Rule) (offset before : Nat) : Furthest :=
  if f.countAt offset = before + 1 then f
  else if offset = f.offset then ⟨offset, r :: f.rules.drop (f.rules.length - before)⟩
  else if f.offset < offset then ⟨offset, [r]⟩
  else f

/-- The remembered rules without repetition, in the order in which errors list them. -/
def expected (f : Furthest) : List Rule := Rule.all.filter (· ∈ f.rules)

end Furthest

end CatalogQuery.Grammar
