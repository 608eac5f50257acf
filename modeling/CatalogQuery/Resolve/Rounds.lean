import CatalogQuery.Log.Event
import CatalogQuery.QueryError

/-!
# Work in rounds

`Rounds` is work that may have to wait for similarity lookups. It proceeds in rounds: in each round
it either finishes, with a result or an error, or has to be asked again in the next. What it notes
on the way is kept with the round.

Tasks that do not depend on each other run side by side. `Rounds.zip` and `Rounds.all` ask every
unfinished member once a round, from left to right; the first error met ends all of them, and the
members to the right of it are not asked in that round.

Groups of every size are asked in this way. A scheduler that hands over the results of a large group
(of more than thirty members) in the order of its members only would meet an error in such a group
no earlier, and some errors later: this difference is not modelled.
-/

namespace CatalogQuery

/-- Work that proceeds in rounds. -/
inductive Rounds (α : Type) where
  /-- Finishes in this round. -/
  | done (log : List Event) (result : Except ParseError α)
  /-- Goes on in the next round. -/
  | wait (log : List Event) (next : Rounds α)

namespace Rounds

variable {α β : Type}

def ofExcept (result : Except ParseError α) : Rounds α := .done [] result

/-- Notes events at the beginning of the first round. -/
def after (log : List Event) : Rounds α → Rounds α
  | .done log' result => .done (log ++ log') result
  | .wait log' next => .wait (log ++ log') next

/-- The same work, begun some rounds later. -/
def delayed : (rounds : Nat) → Rounds α → Rounds α
  | 0, t => t
  | n + 1, t => .wait [] (delayed n t)

/-- Applies a function that may fail to the result, in the round in which it is there. -/
def check (f : α → Except ParseError β) : Rounds α → Rounds β
  | .done log (.ok a) => .done log (f a)
  | .done log (.error e) => .done log (.error e)
  | .wait log next => .wait log (next.check f)

def map (f : α → β) (t : Rounds α) : Rounds β := t.check fun a => .ok (f a)

/-- Two tasks side by side. -/
def zip : Rounds α → Rounds β → Rounds (α × β)
  | .done log (.error e), _ => .done log (.error e)
  | .done log (.ok a), t => (t.map (a, ·)).after log
  | .wait log _, .done log' (.error e) => .done (log ++ log') (.error e)
  | .wait log next, .done log' (.ok b) => .wait (log ++ log') (next.map (·, b))
  | .wait log next, .wait log' next' => .wait (log ++ log') (zip next next')

/-- Any number of tasks side by side, a large group like a small one. -/
def all : List (Rounds α) → Rounds (List α)
  | [] => .done [] (.ok [])
  | t :: rest => (t.zip (all rest)).map fun (a, as) => a :: as

/-- Goes through all rounds. -/
def run : Rounds α → List Event × Except ParseError α
  | .done log result => (log, result)
  | .wait log next => (log ++ next.run.1, next.run.2)

end Rounds

end CatalogQuery
