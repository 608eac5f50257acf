import CatalogQuery.Proofs.Query.Validation
import CatalogQuery.Query.Condition

/-!
# Leaves of queries

The leaves of a query are, from left to right, the names of its functions and contexts and its
values that are not lists. Validation keeps them in their order and changes them by `Cast` only
(`Widened.leaves`). `Condition.Built` is what is said of a condition by what is said of its calls.
-/

namespace CatalogQuery

/-! ### Leaves of queries -/

/-- What stands at a leaf. -/
inductive Leaf where
  /-- The name of a function or of a context. -/
  | name (n : String)
  /-- A value that is neither a list nor a context. -/
  | value (v : Value)

namespace Value

mutual

/-- The parts of a value that are not lists, from left to right. -/
def leaves : Value → List Value
  | .list vs => leavesOfEach vs
  | v => [v]

def leavesOfEach : List Value → List Value
  | [] => []
  | v :: rest => v.leaves ++ leavesOfEach rest

end

theorem leavesOfEach_eq (vs : List Value) : leavesOfEach vs = vs.flatMap leaves := by
  induction vs with
  | nil => rfl
  | cons v vs ih => rw [leavesOfEach, ih, List.flatMap_cons]

/-- What a query shows of a part: a context is shown by its name. -/
def leaf : Value → Leaf
  | .context c => .name c.name
  | v => .value v

/-- A value, or a number that an integer was widened to. -/
inductive Cast : Value → Value → Prop where
  | same (v : Value) : Cast v v
  | widened (n : Int64) : Cast (.int n) (.float (Binary.ofInt n.toInt))

mutual

/-- Widening keeps the leaves and their order. -/
theorem Widened.leaves : ∀ {v w : Value}, Widened v w → List.Forall₂ Cast v.leaves w.leaves
  | _, _, .refl _ => List.forall₂_same.mpr fun x _ => .same x
  | _, _, .int n => .cons (.widened n) .nil
  | _, _, .list h => Widened.leavesOfEach h

theorem Widened.leavesOfEach : ∀ {vs ws : List Value}, List.Forall₂ Widened vs ws →
    List.Forall₂ Cast (leavesOfEach vs) (leavesOfEach ws)
  | _, _, .nil => .nil
  | _, _, .cons h hs => List.rel_append (Widened.leaves h) (Widened.leavesOfEach hs)

end

end Value

/-- The leaves of a call: the name of the function and those of its arguments. -/
def Call.leaves (c : Call) : List Leaf :=
  .name c.function :: (Value.leavesOfEach c.arguments).map Value.leaf

namespace Condition

mutual

/-- The leaves of a condition from left to right. -/
def leaves : Condition → List Leaf
  | .all cs | .any cs => leavesOfEach cs
  | .not c => c.leaves
  | .call c => c.leaves

def leavesOfEach : List Condition → List Leaf
  | [] => []
  | c :: rest => c.leaves ++ leavesOfEach rest

end

theorem leavesOfEach_eq (cs : List Condition) : leavesOfEach cs = cs.flatMap leaves := by
  induction cs with
  | nil => rfl
  | cons c cs ih => rw [leavesOfEach, ih, List.flatMap_cons]

theorem callsOfEach_eq (cs : List Condition) : callsOfEach cs = cs.flatMap calls := by
  induction cs with
  | nil => rfl
  | cons c cs ih => rw [callsOfEach, ih, List.flatMap_cons]

/-- Every chain has at least two operands, and every call has the property. -/
inductive Built (P : Call → Prop) : Condition → Prop where
  | all {cs : List Condition} (hmany : 2 ≤ cs.length) (h : ∀ c ∈ cs, c.Built P) : Built P (.all cs)
  | any {cs : List Condition} (hmany : 2 ≤ cs.length) (h : ∀ c ∈ cs, c.Built P) : Built P (.any cs)
  | not {c : Condition} (h : c.Built P) : Built P (.not c)
  | call {c : Call} (h : P c) : Built P (.call c)

theorem Built.of_calls {P : Call → Prop} {c : Condition} (h : c.Built P) : ∀ d ∈ c.calls, P d := by
  induction h with
  | all _ _ ih | any _ _ ih =>
    intro d hd
    rw [calls, callsOfEach_eq] at hd
    obtain ⟨c, hc, hd⟩ := List.mem_flatMap.mp hd
    exact ih c hc d hd
  | not _ ih => exact ih
  | call h => simpa [calls] using h

theorem Built.imp {P Q : Call → Prop} (hPQ : ∀ c, P c → Q c) {c : Condition} (h : c.Built P) :
    c.Built Q := by
  induction h with
  | all hmany _ ih => exact .all hmany ih
  | any hmany _ ih => exact .any hmany ih
  | not _ ih => exact .not ih
  | call h => exact .call (hPQ _ h)

end Condition

end CatalogQuery
