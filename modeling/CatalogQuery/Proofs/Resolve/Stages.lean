import CatalogQuery.Proofs.Draft.Leaves
import CatalogQuery.Proofs.Resolve.InOrder
import Mathlib.Data.Bool.Basic
import Mathlib.Data.Prod.Lex
import Mathlib.Order.Lattice

/-!
# The stages of resolution

Resolution may fail at its `Stage`s: where a leaf of an argument completes, and where an argument is
checked, which is in the round in which the last of its leaves completes. `Draft.stages` lists the
stages of a draft from left to right, with their rounds and errors. They are read off the draft and
the delays; no work in rounds is looked at.

`Rounds.Told stages t` says that the task `t` ends as its stages tell: with the error of the first
stage in the earliest round that has errors, and in that round; and if there are no errors, with a
result, in the last round of all. `Told.zip` is the step lemma for tasks side by side,
`Told.check` the one for the check of an argument, and `condition_told` what follows for a draft.
-/

namespace CatalogQuery

/-! ### Rounds that end -/

namespace Rounds

variable {α β : Type}

/-- The task ends in the given round, counted from zero, and with the given result. -/
inductive Ends {α : Type} : Rounds α → Nat → Except ParseError α → Prop where
  | done (log : List Event) (x : Except ParseError α) : Ends (.done log x) 0 x
  | wait (log : List Event) {next : Rounds α} {n : Nat} {x : Except ParseError α}
      (h : next.Ends n x) : Ends (.wait log next) (n + 1) x

namespace Ends

variable {s : Rounds α} {t : Rounds β} {m n : Nat} {x : Except ParseError α}
  {y : Except ParseError β} {e : ParseError}

theorem result (h : s.Ends n x) : s.result = x := by
  induction h with
  | done => rfl
  | wait log _ ih => rw [result_wait, ih]

theorem after (h : s.Ends n x) (log : List Event) : (s.after log).Ends n x := by
  cases h with
  | done => exact .done _ _
  | wait _ h => exact .wait _ h

theorem delayed (h : s.Ends n x) (k : Nat) : (s.delayed k).Ends (k + n) x := by
  induction k with
  | zero =>
    rw [Nat.zero_add]
    exact h
  | succ k ih =>
    rw [Nat.succ_add]
    exact .wait [] ih

theorem check (h : s.Ends n x) (f : α → Except ParseError β) : (s.check f).Ends n (x.bind f) := by
  induction h with
  | done log x => cases x <;> exact .done _ _
  | wait log _ ih => exact .wait log ih

theorem map (h : s.Ends n x) (f : α → β) : (s.map f).Ends n (x.map f) := by
  have hf := h.check fun a => (.ok (f a) : Except ParseError β)
  cases x <;> exact hf

/-- Two tasks that have results end with the later one. -/
theorem zip_ok {a : α} {b : β} (hs : s.Ends m (.ok a)) (ht : t.Ends n (.ok b)) :
    (s.zip t).Ends (max m n) (.ok (a, b)) := by
  generalize hx : Except.ok a = x at hs
  induction hs generalizing t n with
  | done log x =>
    subst hx
    rw [zip, Nat.zero_max]
    exact (ht.map _).after log
  | @wait log next m x hnext ih =>
    cases ht with
    | done log' =>
      subst hx
      rw [zip, Nat.max_zero]
      -- the second task is done and waits for the first
      exact .wait _ (hnext.map _)
    | wait log' hnext' =>
      rw [zip, Nat.succ_max_succ]
      exact .wait _ (ih hnext' hx)

/-- An error of the first task ends both, unless the second fails in an earlier round. -/
theorem zip_left (hs : s.Ends m (.error e)) (ht : t.Ends n y) (h : ∀ e', y = .error e' → m ≤ n) :
    (s.zip t).Ends m (.error e) := by
  generalize hx : Except.error e = x at hs
  induction hs generalizing t n with
  | done log x =>
    subst hx
    exact .done _ _
  | @wait log next m x hnext ih =>
    cases ht with
    | done log' =>
      cases y with
      -- the second task would have failed first
      | error e' => exact absurd (h e' rfl) (Nat.not_succ_le_zero m)
      | ok b =>
        subst hx
        rw [zip]
        exact .wait _ (hnext.map _)
    | wait log' hnext' =>
      rw [zip]
      exact .wait _ (ih hnext' (fun e' he => Nat.le_of_succ_le_succ (h e' he)) hx)

/-- An error of the second task ends both, unless the first fails in that round or before. -/
theorem zip_right (hs : s.Ends m x) (ht : t.Ends n (.error e)) (h : ∀ e', x = .error e' → n < m) :
    (s.zip t).Ends n (.error e) := by
  induction hs generalizing t n with
  | done log x =>
    cases x with
    -- the first task would have failed first
    | error e' => exact absurd (h e' rfl) (Nat.not_lt_zero n)
    | ok a =>
      rw [zip]
      exact (ht.map _).after log
  | @wait log next m x hnext ih =>
    cases ht with
    | done log' => exact .done _ _
    | wait log' hnext' =>
      rw [zip]
      exact .wait _ (ih hnext' fun e' he => Nat.lt_of_succ_lt_succ (h e' he))

end Ends

end Rounds

/-! ### Stages -/

/-- The error with which a computation ended. -/
def failure? {ε α : Type} : Except ε α → Option ε
  | .ok _ => none
  | .error e => some e

/-- A point of resolution at which an error may come: a leaf completes or an argument is checked. -/
structure Stage where
  /-- The round in which the point is reached. -/
  round : Nat
  /-- The byte offset of the leaf in the source. A check has that of the last leaf before it. -/
  place : Nat
  isCheck : Bool
  error? : Option ParseError

namespace Stage

/-- Where a stage stands in the source; a check stands right after the leaf at its place. -/
def spot (s : Stage) : Nat ×ₗ Bool := toLex (s.place, s.isCheck)

/-- Stages go by their round, and in one round by where they stand in the source. -/
def key (s : Stage) : Nat ×ₗ (Nat ×ₗ Bool) := toLex (s.round, s.spot)

/-- The round in which the last of several stages is reached. -/
def lastRound (stages : List Stage) : Nat := (stages.map round).foldr max 0

theorem lastRound_append (xs ys : List Stage) :
    lastRound (xs ++ ys) = max (lastRound xs) (lastRound ys) := by
  induction xs with
  | nil => exact (Nat.zero_max _).symm
  | cons x xs ih =>
    show max x.round (lastRound (xs ++ ys)) = max (max x.round (lastRound xs)) (lastRound ys)
    rw [ih, Nat.max_assoc]

/-- In the earliest round in which stages have errors, the first of these is that of `s`. -/
def IsFirst (stages : List Stage) (s : Stage) (e : ParseError) : Prop :=
  s.error? = some e ∧ ∃ before after, stages = before ++ s :: after ∧
    (∀ g ∈ before, g.error? ≠ none → s.round < g.round) ∧
    ∀ g ∈ after, g.error? ≠ none → s.round ≤ g.round

namespace IsFirst

variable {xs ys : List Stage} {s : Stage} {e : ParseError}

theorem round_le (h : IsFirst xs s e) : ∀ g ∈ xs, g.error? ≠ none → s.round ≤ g.round := by
  obtain ⟨-, before, after, rfl, hbefore, hafter⟩ := h
  intro g hg herror
  rcases List.mem_append.mp hg with hg | hg
  · exact Nat.le_of_lt (hbefore g hg herror)
  · rcases List.mem_cons.mp hg with rfl | hg
    · exact Nat.le_refl _
    · exact hafter g hg herror

theorem append_right (h : IsFirst xs s e) (hys : ∀ g ∈ ys, g.error? ≠ none → s.round ≤ g.round) :
    IsFirst (xs ++ ys) s e := by
  obtain ⟨he, before, after, rfl, hbefore, hafter⟩ := h
  exact ⟨he, before, after ++ ys, by rw [List.append_assoc, List.cons_append], hbefore,
    List.forall_mem_append.mpr ⟨hafter, hys⟩⟩

theorem append_left (h : IsFirst ys s e) (hxs : ∀ g ∈ xs, g.error? ≠ none → s.round < g.round) :
    IsFirst (xs ++ ys) s e := by
  obtain ⟨he, before, after, rfl, hbefore, hafter⟩ := h
  exact ⟨he, xs ++ before, after, by rw [List.append_assoc],
    List.forall_mem_append.mpr ⟨hxs, hbefore⟩, hafter⟩

end IsFirst

end Stage

open Stage (IsFirst lastRound)

/-- The task ends as its stages tell. -/
inductive Rounds.Told {α : Type} (stages : List Stage) (t : Rounds α) : Prop where
  | ok {a : α} (hnone : ∀ s ∈ stages, s.error? = none) (h : t.Ends (lastRound stages) (.ok a)) :
      Told stages t
  | error {s : Stage} {e : ParseError} (hs : IsFirst stages s e) (h : t.Ends s.round (.error e)) :
      Told stages t

namespace Rounds.Told

variable {α β : Type} {xs ys : List Stage}

/-- A single leaf. -/
theorem leaf {t : Rounds α} {n : Nat} {x : Except ParseError α} (h : t.Ends n x) (place : Nat) :
    t.Told [⟨n, place, false, failure? x⟩] := by
  cases x with
  | ok a => exact .ok (List.forall_mem_singleton.mpr rfl) (by simpa [lastRound] using h)
  | error e =>
    exact .error (s := ⟨n, place, false, some e⟩) ⟨rfl, [], [], rfl, by simp, by simp⟩ h

/-- An error with which a task ends is that of a stage. -/
theorem exists_stage {t : Rounds α} (h : t.Told xs) {e : ParseError} (ht : t.result = .error e) :
    ∃ s ∈ xs, s.error? = some e := by
  cases h with
  | ok _ hends => cases hends.result.symm.trans ht
  | @error s _ hs hends =>
    cases hends.result.symm.trans ht
    obtain ⟨he, before, after, rfl, -⟩ := hs
    exact ⟨s, by simp, he⟩

theorem map {t : Rounds α} (h : t.Told xs) (f : α → β) : (t.map f).Told xs := by
  cases h with
  | ok hnone h => exact .ok hnone (h.map f)
  | error hs h => exact .error hs (h.map f)

/-- **Two tasks side by side**: the stages of the first stand before those of the second. -/
theorem zip {s : Rounds α} {t : Rounds β} (hs : s.Told xs) (ht : t.Told ys) :
    (s.zip t).Told (xs ++ ys) := by
  have hfree : ∀ {zs : List Stage} {P : Stage → Prop}, (∀ g ∈ zs, g.error? = none) →
      ∀ g ∈ zs, g.error? ≠ none → P g := fun h g hg herror => absurd (h g hg) herror
  cases hs with
  | @ok a hnone hends =>
    cases ht with
    | @ok b hnone' hends' =>
      refine .ok (a := (a, b)) (List.forall_mem_append.mpr ⟨hnone, hnone'⟩) ?_
      rw [Stage.lastRound_append]
      exact hends.zip_ok hends'
    | error hfirst hends' =>
      refine .error (hfirst.append_left (hfree hnone)) (hends.zip_right hends' ?_)
      rintro _ ⟨⟩
  | @error g e hfirst hends =>
    cases ht with
    | ok hnone' hends' =>
      refine .error (hfirst.append_right (hfree hnone')) (hends.zip_left hends' ?_)
      rintro _ ⟨⟩
    | @error g' e' hfirst' hends' =>
      -- in one round the first task is asked before the second
      rcases Nat.lt_or_ge g'.round g.round with hlt | hge
      · have hlater : ∀ f ∈ xs, f.error? ≠ none → g'.round < f.round :=
          fun f hf herror => Nat.lt_of_lt_of_le hlt (hfirst.round_le f hf herror)
        exact .error (hfirst'.append_left hlater) (hends.zip_right hends' fun _ _ => hlt)
      · have hlater : ∀ f ∈ ys, f.error? ≠ none → g.round ≤ f.round :=
          fun f hf herror => Nat.le_trans hge (hfirst'.round_le f hf herror)
        exact .error (hfirst.append_right hlater) (hends.zip_left hends' fun _ _ => hge)

theorem all_nil : (all ([] : List (Rounds α))).Told [] := .ok (by simp) (.done _ _)

/-- One more task in front. -/
theorem all_cons {t : Rounds α} {ts : List (Rounds α)} (ht : t.Told xs) (hts : (all ts).Told ys) :
    (all (t :: ts)).Told (xs ++ ys) := (ht.zip hts).map _

/-- **A check of the result** is one more stage, in the round of the last. It has no error where
there is no result to be checked. -/
theorem check {t : Rounds α} (h : t.Told xs) {f : α → Except ParseError β} {c : Stage}
    (hround : c.round = lastRound xs) (hok : ∀ a, t.result = .ok a → c.error? = failure? (f a))
    (herror : ∀ e, t.result = .error e → c.error? = none) : (t.check f).Told (xs ++ [c]) := by
  -- the check is made in the round of the last stage
  have hlast : lastRound (xs ++ [c]) = lastRound xs := by
    rw [Stage.lastRound_append, ← hround]
    simp [lastRound]
  cases h with
  | @ok a hnone hends =>
    have hc := hok a hends.result
    have hchecked := hends.check f
    cases hf : f a with
    | ok b =>
      rw [hf] at hc
      refine .ok (a := b) (List.forall_mem_append.mpr ⟨hnone, List.forall_mem_singleton.mpr hc⟩) ?_
      rw [hlast, ← hf]
      exact hchecked
    | error e =>
      rw [hf] at hc
      refine .error (s := c) (e := e) ⟨hc, xs, [], rfl, ?_, by simp⟩ ?_
      · exact fun g hg hne => absurd (hnone g hg) hne
      · rw [hround, ← hf]
        exact hchecked
  | @error s e hfirst hends =>
    -- there is nothing to be checked, and the first error stays
    have hc := herror e hends.result
    refine .error (hfirst.append_right ?_) (hends.check f)
    exact List.forall_mem_singleton.mpr fun hne => absurd hc hne

end Rounds.Told

/-! ### The stages of a draft -/

namespace Resolve

/-- The round in which a literal is there: its lookup is given the reply in that round. -/
def literalRound (p : Parameter) (l : Literal) (piece : Snippet) : Nat :=
  match p.similarity, l.lookupText? with
  | some index, some text => (index.lookup piece.start text).delay
  | _, _ => 0

variable (contexts : List Context)

mutual

/-- The leaves of an argument as stages, from left to right. Names and unsupported parts are there
in the first round. -/
def leafStages (p : Parameter) : RawArg → List Stage
  | .literal l piece =>
    [⟨literalRound p l piece, piece.start, false, failure? (literalInOrder p l piece)⟩]
  | .list items _ => leafStagesOfEach p items
  | .name name piece => [⟨0, piece.start, false, failure? (context contexts p name piece)⟩]
  | .unsupported piece => [⟨0, piece.start, false, some (.query (.invalidArgument piece))⟩]

def leafStagesOfEach (p : Parameter) : List RawArg → List Stage
  | [] => []
  | a :: rest => leafStages p a ++ leafStagesOfEach p rest

end

/-- The check of an argument, right after its last leaf; an argument without leaves, such as an
empty list, is checked where it stands. -/
def checkStage (p : Parameter) (a : RawArg) : Stage where
  round := lastRound (leafStages contexts p a)
  place := ((leafStages contexts p a).getLast?.map Stage.place).getD a.snippet.start
  isCheck := true
  error? := match valueInOrder contexts p a with
    | .ok v => failure? (checked p a.snippet v)
    | .error _ => none

/-- The stages of an argument: its leaves and its check. -/
def argumentStages (p : Parameter) (a : RawArg) : List Stage :=
  leafStages contexts p a ++ [checkStage contexts p a]

/-- The stages of the arguments of a call, each of the parameter in its place. -/
def callStages (c : DraftCall) : List Stage :=
  (List.zipWith (argumentStages contexts) c.function.parameters c.arguments).flatten

/-- The stages of a draft, call by call. -/
def stages (d : Draft) : List Stage := d.calls.flatMap (callStages contexts)

/-! ### Drafts end as their stages tell -/

theorem literal_ends (p : Parameter) (l : Literal) (piece : Snippet) :
    (literal p l piece).Ends (literalRound p l piece) (literalInOrder p l piece) := by
  unfold literal literalRound literalInOrder
  cases p.similarity with
  | none => exact .done _ _
  | some index =>
    cases l.lookupText? with
    | none => exact .done _ _
    | some text =>
      dsimp only
      -- the reply ends the work on the literal at once, whatever it is
      obtain ⟨delay, answer⟩ := index.lookup piece.start text
      cases answer with
      | error e => exact ((Rounds.Ends.done _ _).delayed delay).after _
      | ok found => cases found <;> exact ((Rounds.Ends.done _ _).delayed delay).after _

mutual

theorem value_told (p : Parameter) :
    ∀ a, (value contexts p a).Told (leafStages contexts p a)
  | .literal l piece => .leaf (literal_ends p l piece) _
  | .list items _ => (values_told p items).map _
  | .name name piece => .leaf (.done [] (context contexts p name piece)) _
  | .unsupported piece =>
    .leaf (.done [] (.error (.query (.invalidArgument piece)) : Except ParseError Value)) _

theorem values_told (p : Parameter) :
    ∀ items, (Rounds.all (values contexts p items)).Told (leafStagesOfEach contexts p items)
  | [] => .all_nil
  | a :: rest => (value_told p a).all_cons (values_told p rest)

end

/-- **An argument ends as its stages tell.** -/
theorem argument_told (p : Parameter) (a : RawArg) :
    (argument contexts p a).Told (argumentStages contexts p a) := by
  refine (value_told contexts p a).check rfl ?_ ?_
  · intro v hv
    have hv := (value_agree contexts p a v).mp hv
    simp only [checkStage, hv]
  · intro e he
    cases hv : valueInOrder contexts p a with
    | error e' => simp only [checkStage, hv]
    | ok v => cases he.symm.trans ((value_agree contexts p a v).mpr hv)

theorem arguments_told (ps : List Parameter) (as : List RawArg) :
    (Rounds.all (List.zipWith (argument contexts) ps as)).Told
      (List.zipWith (argumentStages contexts) ps as).flatten := by
  induction ps generalizing as with
  | nil => exact .all_nil
  | cons p ps ih =>
    cases as with
    | nil => exact .all_nil
    | cons a as => exact (argument_told contexts p a).all_cons (ih as)

/-- **A call ends as its stages tell.** -/
theorem call_told (c : DraftCall) : (call contexts c).Told (callStages contexts c) :=
  (arguments_told contexts _ _).map _

mutual

/-- **A condition ends as its stages tell.** -/
theorem condition_told : ∀ d : Draft, (condition contexts d).Told (stages contexts d)
  | .all ds => (conditions_told ds).map _
  | .any ds => (conditions_told ds).map _
  | .not d => (condition_told d).map _
  | .call c => by
    rw [stages, Draft.calls, List.flatMap_singleton]
    exact (call_told contexts c).map _

theorem conditions_told : ∀ ds : List Draft, (Rounds.all (conditions contexts ds)).Told
    ((Draft.callsOfEach ds).flatMap (callStages contexts))
  | [] => .all_nil
  | d :: rest => by
    rw [Draft.callsOfEach, List.flatMap_append]
    exact (condition_told d).all_cons (conditions_told rest)

end

end Resolve

end CatalogQuery
