import CatalogQuery.Resolve.Basic
import Mathlib.Data.List.Forall2
import Mathlib.Tactic.Common

/-!
# Resolution one after another

The functions of this file resolve a draft with one thing done at a time, from left to right, and
end at the first error. They wait for every lookup where it stands, so there are no rounds.

`condition_agree` says that work in rounds gives the same conditions: it has a result exactly if the
work in order has that result. Which error is met may differ, because a task that waits lets later
ones go on.
-/

namespace CatalogQuery

/-! ### Results of rounds -/

namespace Rounds

variable {α β : Type}

/-- The result after all rounds. -/
def result (t : Rounds α) : Except ParseError α := t.run.2

@[simp] theorem result_done (log : List Event) (x : Except ParseError α) :
    (done log x).result = x := rfl

@[simp] theorem result_wait (log : List Event) (t : Rounds α) :
    (wait log t).result = t.result := rfl

@[simp] theorem result_after (log : List Event) (t : Rounds α) :
    (t.after log).result = t.result := by
  cases t <;> rfl

@[simp] theorem result_delayed (n : Nat) (t : Rounds α) : (t.delayed n).result = t.result := by
  induction n with
  | zero => rfl
  | succ n ih => rw [delayed, result_wait, ih]

@[simp] theorem result_check (f : α → Except ParseError β) (t : Rounds α) :
    (t.check f).result = t.result.bind f := by
  induction t with
  | done log x => cases x <;> rfl
  | wait log next ih => rw [check, result_wait, ih, result_wait]

@[simp] theorem result_map (f : α → β) (t : Rounds α) : (t.map f).result = t.result.map f := by
  rw [map, result_check]
  cases t.result <;> rfl

/-- Two tasks side by side have a result exactly if both have. -/
theorem result_zip_eq_ok {s : Rounds α} {t : Rounds β} {p : α × β} :
    (s.zip t).result = .ok p ↔ s.result = .ok p.1 ∧ t.result = .ok p.2 := by
  induction s generalizing t with
  | done log x =>
    cases x with
    | error e => simp [zip]
    | ok a =>
      rw [zip, result_after, result_map, result_done]
      obtain ⟨a', b⟩ := p
      cases t.result <;> simp [Except.map]
  | wait log next ih =>
    -- the second task may be done in this round, and is kept until the first one is
    cases t with
    | done log' x =>
      cases x with
      | error e => simp [zip]
      | ok b =>
        rw [zip, result_wait, result_map, result_wait, result_done]
        obtain ⟨a, b'⟩ := p
        cases next.result <;> simp [Except.map]
    | wait log' next' => rw [zip, result_wait, ih, result_wait, result_wait]

/-- **Any number of tasks side by side** have results exactly if each has its own. -/
theorem result_all_eq_ok {ts : List (Rounds α)} {as : List α} :
    (all ts).result = .ok as ↔ List.Forall₂ (fun t a => t.result = .ok a) ts as := by
  induction ts generalizing as with
  | nil => cases as <;> simp [all]
  | cons t ts ih =>
    rw [all, result_map]
    constructor
    · intro h
      cases hz : (t.zip (all ts)).result with
      | error e => rw [hz] at h; cases h
      | ok p =>
        rw [hz] at h
        cases h
        -- the first task side by side with all the others
        obtain ⟨ht, hts⟩ := result_zip_eq_ok.mp hz
        exact .cons ht (ih.mp hts)
    · intro h
      cases h with
      | @cons _ a _ as ht hts =>
        rw [(result_zip_eq_ok (p := (a, as))).mpr ⟨ht, ih.mpr hts⟩]
        rfl

end Rounds

/-! ### Work in order -/

namespace Resolve

/-- The value of a literal, when its lookup is waited for. -/
def literalInOrder (p : Parameter) (l : Literal) (piece : Snippet) : Except ParseError Value :=
  match p.similarity, l.lookupText? with
  | some index, some text =>
    match (index.lookup piece.start text).answer with
    | .error e => .error (.similarity e)
    | .ok none => .ok l.value
    | .ok (some found) => .ok (.str found)
  | _, _ => .ok l.value

mutual

/-- The value of an argument, one item after another, before it is checked. -/
def valueInOrder (contexts : List Context) (p : Parameter) : RawArg → Except ParseError Value
  | .literal l piece => literalInOrder p l piece
  | .list items _ => (valuesInOrder contexts p items).map .list
  | .name name piece => context contexts p name piece
  | .unsupported piece => .error (.query (.invalidArgument piece))

/-- The values of items, one after another. -/
def valuesInOrder (contexts : List Context) (p : Parameter) :
    List RawArg → Except ParseError (List Value)
  | [] => .ok []
  | a :: rest => (valueInOrder contexts p a).bind fun v =>
    (valuesInOrder contexts p rest).map (v :: ·)

end

/-- An argument, resolved and then checked. -/
def argumentInOrder (contexts : List Context) (p : Parameter) (a : RawArg) :
    Except ParseError Value :=
  (valueInOrder contexts p a).bind (checked p a.snippet)

/-- The arguments of a call, each resolved and checked before the next. -/
def argumentsInOrder (contexts : List Context) :
    List Parameter → List RawArg → Except ParseError (List Value)
  | p :: ps, a :: rest => (argumentInOrder contexts p a).bind fun v =>
    (argumentsInOrder contexts ps rest).map (v :: ·)
  | _, _ => .ok []

/-- A call, resolved and checked argument by argument. -/
def callInOrder (contexts : List Context) (c : DraftCall) : Except ParseError Call :=
  (argumentsInOrder contexts c.function.parameters c.arguments).map
    fun arguments => ⟨c.function.name, arguments⟩

mutual

/-- A draft, resolved and checked operand by operand. -/
def conditionInOrder (contexts : List Context) : Draft → Except ParseError Condition
  | .all ds => (conditionsInOrder contexts ds).map .all
  | .any ds => (conditionsInOrder contexts ds).map .any
  | .not d => (conditionInOrder contexts d).map .not
  | .call c => (callInOrder contexts c).map .call

/-- Several drafts, one after another. -/
def conditionsInOrder (contexts : List Context) :
    List Draft → Except ParseError (List Condition)
  | [] => .ok []
  | d :: rest => (conditionInOrder contexts d).bind fun c =>
    (conditionsInOrder contexts rest).map (c :: ·)

end

/-! ### Rounds and order agree -/

/-- Two ways to compute have the same results, whatever their errors. -/
def Agree {α : Type} (x y : Except ParseError α) : Prop := ∀ a, x = .ok a ↔ y = .ok a

namespace Agree

variable {α β : Type} {x y : Except ParseError α}

theorem refl (x : Except ParseError α) : Agree x x := fun _ => Iff.rfl

theorem toOption_eq (h : Agree x y) : x.toOption = y.toOption := by
  cases x with
  | ok a => rw [(h a).mp rfl]
  | error e =>
    cases y with
    | ok a => cases (h a).mpr rfl
    | error e' => rfl

theorem bind (h : Agree x y) (f : α → Except ParseError β) : Agree (x.bind f) (y.bind f) := by
  intro b
  cases x with
  | ok a => rw [(h a).mp rfl]
  | error e =>
    cases y with
    | ok a => cases (h a).mpr rfl
    | error e' => exact ⟨fun h => (by cases h), fun h => (by cases h)⟩

theorem map (h : Agree x y) (f : α → β) : Agree (x.map f) (y.map f) := by
  have hmap : ∀ z : Except ParseError α, z.map f = z.bind fun a => .ok (f a) := by
    intro z
    cases z <;> rfl
  rw [hmap, hmap]
  exact h.bind _

/-- One more task in front, done before the others. -/
theorem cons {t : Rounds α} {ts : List (Rounds α)} {z : Except ParseError (List α)}
    (h : Agree t.result y) (hs : Agree (Rounds.all ts).result z) :
    Agree (Rounds.all (t :: ts)).result (y.bind fun a => z.map (a :: ·)) := by
  intro as
  rw [Rounds.result_all_eq_ok]
  constructor
  · intro h'
    cases h' with
    | cons ht hts =>
      rw [(h _).mp ht, (hs _).mp (Rounds.result_all_eq_ok.mpr hts)]
      rfl
  · intro h'
    cases y with
    | error e => cases h'
    | ok a =>
      -- neither the first nor the others have an error
      cases z with
      | error e => cases h'
      | ok as' =>
        cases h'
        exact .cons ((h a).mpr rfl) (Rounds.result_all_eq_ok.mp ((hs as').mpr rfl))

end Agree

variable (contexts : List Context)

theorem result_literal (p : Parameter) (l : Literal) (piece : Snippet) :
    (literal p l piece).result = literalInOrder p l piece := by
  unfold literal literalInOrder
  cases p.similarity with
  | none => rfl
  | some index =>
    cases l.lookupText? with
    | none => rfl
    | some text =>
      dsimp only
      -- the delay of an answer does not change it
      rw [Rounds.result_after, Rounds.result_delayed]
      cases (index.lookup piece.start text).answer with
      | error e => rfl
      | ok found => cases found <;> rfl

mutual

theorem value_agree (p : Parameter) :
    ∀ a, Agree (value contexts p a).result (valueInOrder contexts p a)
  | .literal l piece => by
    rw [value, valueInOrder, result_literal]
    exact .refl _
  | .list items _ => by
    rw [value, valueInOrder, Rounds.result_map]
    exact (values_agree p items).map _
  | .name name piece => .refl _
  | .unsupported piece => .refl _

theorem values_agree (p : Parameter) :
    ∀ items, Agree (Rounds.all (values contexts p items)).result (valuesInOrder contexts p items)
  | [] => .refl _
  | a :: rest => (value_agree p a).cons (values_agree p rest)

end

theorem argument_agree (p : Parameter) (a : RawArg) :
    Agree (argument contexts p a).result (argumentInOrder contexts p a) := by
  rw [argument, argumentInOrder, Rounds.result_check]
  exact (value_agree contexts p a).bind _

theorem arguments_agree (ps : List Parameter) (as : List RawArg) :
    Agree (Rounds.all (List.zipWith (argument contexts) ps as)).result
      (argumentsInOrder contexts ps as) := by
  induction ps generalizing as with
  | nil => exact .refl _
  | cons p ps ih =>
    cases as with
    | nil => exact .refl _
    | cons a as => exact (argument_agree contexts p a).cons (ih as)

/-- **A call in rounds and in order.** -/
theorem call_agree (c : DraftCall) :
    Agree (call contexts c).result (callInOrder contexts c) := by
  rw [call, callInOrder, Rounds.result_map]
  exact (arguments_agree contexts _ _).map _

mutual

/-- **A condition in rounds and in order.** -/
theorem condition_agree : ∀ d, Agree (condition contexts d).result (conditionInOrder contexts d)
  | .all ds => by
    rw [condition, conditionInOrder, Rounds.result_map]
    exact (conditions_agree ds).map _
  | .any ds => by
    rw [condition, conditionInOrder, Rounds.result_map]
    exact (conditions_agree ds).map _
  | .not d => by
    rw [condition, conditionInOrder, Rounds.result_map]
    exact (condition_agree d).map _
  | .call c => by
    rw [condition, conditionInOrder, Rounds.result_map]
    exact (call_agree contexts c).map _

theorem conditions_agree :
    ∀ ds, Agree (Rounds.all (conditions contexts ds)).result (conditionsInOrder contexts ds)
  | [] => .refl _
  | d :: rest => (condition_agree d).cons (conditions_agree rest)

end

end Resolve

end CatalogQuery
