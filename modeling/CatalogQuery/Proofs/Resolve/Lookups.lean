import CatalogQuery.Proofs.Draft.Leaves
import CatalogQuery.Resolve.Basic

/-!
# Lookups are started in order

Each literal of an argument is looked up if the parameter has an index and the literal is not
`None`: `RawArg.lookups` and `DraftCall.lookups` list these lookups from left to right.

`Rounds.Orderly lookups t` says how the task `t` starts them: all in its first round and in their
order, or, if an error ends that round, as many of them as stand before the error. Waiting starts
nothing more. `Orderly.zip` is the step lemma for tasks side by side, and `condition_orderly` what
follows for a whole draft. An error of resolution is never one that narrowing finds, and `Orderly`
keeps that as well.
-/

namespace CatalogQuery

/-! ### Events and errors -/

namespace Event

/-- The lookups among events, in the order in which they were started. -/
def lookups (log : List Event) : List (String × String) := log.filterMap lookup?

@[simp] theorem lookups_nil : lookups [] = [] := rfl

@[simp] theorem lookups_append (log log' : List Event) :
    lookups (log ++ log') = lookups log ++ lookups log' := List.filterMap_append

end Event

/-- The error is found in the text or in its shape, before any argument is resolved. -/
def QueryError.isStructural : QueryError → Bool
  | malformed .. | noStatement _ | severalStatements _ | notAnExpression _ | unsupported ..
  | unknownFunction .. | wrongArity .. => true
  | invalidArgument _ | contextNotAllowed .. | contextNotFound .. | invalidValue .. => false

def ParseError.isStructural : ParseError → Bool
  | .query e => e.isStructural
  | .similarity _ => false

/-! ### Tasks that start lookups in order -/

namespace Rounds

variable {α β : Type} {ls ls' : List (String × String)}

/-- The task starts the lookups in its first round, from left to right. Only an error, which is no
structural one, cuts them short. -/
inductive Orderly {α : Type} : List (String × String) → Rounds α → Prop where
  | ok {ls log} {a : α} (hlog : Event.lookups log = ls) : Orderly ls (.done log (.ok a))
  | error {ls log e} (hlog : Event.lookups log <+: ls) (he : e.isStructural = false) :
      Orderly ls (.done log (.error e))
  | wait {ls log next} (hlog : Event.lookups log = ls) (hnext : Orderly [] next) :
      Orderly ls (.wait log next)

namespace Orderly

/-- What is noted at the beginning stands in front. -/
theorem after {t : Rounds α} (h : t.Orderly ls) (log : List Event) :
    (t.after log).Orderly (Event.lookups log ++ ls) := by
  cases h with
  | ok hlog => exact .ok (by rw [Event.lookups_append, hlog])
  | error hlog he =>
    refine .error ?_ he
    rw [Event.lookups_append]
    exact (List.prefix_append_right_inj _).mpr hlog
  | wait hlog hnext => exact .wait (by rw [Event.lookups_append, hlog]) hnext

theorem delayed {t : Rounds α} (h : t.Orderly []) (n : Nat) : (t.delayed n).Orderly [] := by
  induction n with
  | zero => exact h
  | succ n ih => exact .wait rfl ih

/-- A check of the result starts nothing. -/
theorem check {t : Rounds α} (h : t.Orderly ls) {f : α → Except ParseError β}
    (hf : ∀ a e, f a = .error e → e.isStructural = false) : (t.check f).Orderly ls := by
  induction h with
  | @ok _ log a hlog =>
    rw [Rounds.check]
    cases ha : f a with
    | ok b => exact .ok hlog
    | error e => exact .error (hlog ▸ List.prefix_refl _) (hf a e ha)
  | error hlog he => exact .error hlog he
  | wait hlog _ ih => exact .wait hlog ih

theorem map {t : Rounds α} (h : t.Orderly ls) (f : α → β) : (t.map f).Orderly ls := by
  apply h.check
  intro a e he
  cases he

/-- **Two tasks side by side** start the lookups of the first and then those of the second. -/
theorem zip {s : Rounds α} {t : Rounds β} (hs : s.Orderly ls) (ht : t.Orderly ls') :
    (s.zip t).Orderly (ls ++ ls') := by
  induction hs generalizing t ls' with
  | @ok _ log a hlog =>
    rw [Rounds.zip, ← hlog]
    exact (ht.map _).after log
  | error hlog he =>
    -- the second task is not asked any more
    rw [Rounds.zip]
    exact .error (hlog.trans (List.prefix_append _ _)) he
  | @wait ls log next hlog hnext ih =>
    cases ht with
    | @ok _ log' b hlog' =>
      rw [Rounds.zip]
      exact .wait (by rw [Event.lookups_append, hlog, hlog']) (hnext.map _)
    | @error _ log' e hlog' he =>
      rw [Rounds.zip]
      refine .error ?_ he
      rw [Event.lookups_append, hlog]
      exact (List.prefix_append_right_inj _).mpr hlog'
    | @wait _ log' next' hlog' hnext' =>
      rw [Rounds.zip]
      exact .wait (by rw [Event.lookups_append, hlog, hlog']) (ih hnext')

theorem all_nil : (all ([] : List (Rounds α))).Orderly [] := .ok rfl

/-- One more task in front. -/
theorem all_cons {t : Rounds α} {ts : List (Rounds α)} (ht : t.Orderly ls)
    (hts : (all ts).Orderly ls') : (all (t :: ts)).Orderly (ls ++ ls') := (ht.zip hts).map _

/-- **What a whole run starts**: a row of lookups from the left, all of them if it has a result. -/
theorem run {t : Rounds α} (h : t.Orderly ls) :
    Event.lookups t.run.1 <+: ls ∧ (∀ a, t.run.2 = .ok a → Event.lookups t.run.1 = ls) ∧
      ∀ e, t.run.2 = .error e → e.isStructural = false := by
  induction h with
  | @ok ls log a hlog =>
    refine ⟨hlog ▸ List.prefix_refl _, fun _ _ => hlog, fun e he => ?_⟩
    cases he
  | @error ls log e hlog he =>
    refine ⟨hlog, fun a ha => ?_, fun e' he' => ?_⟩
    · cases ha
    · cases he'
      exact he
  | @wait ls log next hlog hnext ih =>
    obtain ⟨hrest, -, herror⟩ := ih
    -- all lookups are started in the first round
    have hnothing : Event.lookups next.run.1 = [] := List.prefix_nil.mp hrest
    have hwhole : Event.lookups (Rounds.wait log next).run.1 = ls := by
      show Event.lookups (log ++ next.run.1) = ls
      rw [Event.lookups_append, hlog, hnothing, List.append_nil]
    exact ⟨hwhole ▸ List.prefix_refl _, fun _ _ => hwhole, herror⟩

end Orderly

end Rounds

/-! ### The lookups of arguments -/

/-- Every literal other than `None` has a text to be looked up under. -/
theorem Literal.lookupText?_eq_none_iff {l : Literal} : l.lookupText? = Option.none ↔ l = .none := by
  cases l <;> simp [lookupText?]

namespace RawArg

mutual

/-- The lookups that an argument of a parameter asks for, from left to right: the name of the index
and the text of each literal other than `None`, however deep in lists. -/
def lookups (p : Parameter) : RawArg → List (String × String)
  | .literal l _ =>
    match p.similarity, l.lookupText? with
    | some index, some text => [(index.name, text)]
    | _, _ => []
  | .list items _ => lookupsOfEach p items
  | .name _ _ | .unsupported _ => []

def lookupsOfEach (p : Parameter) : List RawArg → List (String × String)
  | [] => []
  | a :: rest => a.lookups p ++ lookupsOfEach p rest

end

/-- A literal asks for a lookup unless it is `None` or the parameter has no index. -/
theorem lookups_literal_eq_nil_iff {p : Parameter} {l : Literal} {piece : Snippet} :
    (RawArg.literal l piece).lookups p = [] ↔ p.similarity = none ∨ l = .none := by
  rw [← Literal.lookupText?_eq_none_iff, lookups]
  cases p.similarity <;> cases l.lookupText? <;> simp

/-- The lookups of arguments, each of the parameter in its place. -/
def lookupsOfCall : List Parameter → List RawArg → List (String × String)
  | p :: ps, a :: rest => a.lookups p ++ lookupsOfCall ps rest
  | _, _ => []

end RawArg

/-- The lookups that a call asks for. -/
def DraftCall.lookups (c : DraftCall) : List (String × String) :=
  RawArg.lookupsOfCall c.function.parameters c.arguments

namespace Resolve

variable (contexts : List Context)

/-- What an index answers starts no further lookup. -/
theorem answered_orderly (p : Parameter) (index text : String) (v : Value)
    (answer : Except SimilarityError (Option String)) :
    (answered p index text v answer).Orderly [] := by
  cases answer with
  | error e => exact .error (List.prefix_refl _) rfl
  | ok found =>
    cases found with
    | none => exact .ok rfl
    | some found => exact .ok rfl

theorem literal_orderly (p : Parameter) (l : Literal) (piece : Snippet) :
    (literal p l piece).Orderly ((RawArg.literal l piece).lookups p) := by
  unfold literal RawArg.lookups
  cases p.similarity with
  | none => exact .ok rfl
  | some index =>
    cases l.lookupText? with
    | none => exact .ok rfl
    | some text =>
      exact ((answered_orderly p index.name text l.value _).delayed _).after
        [.lookup index.name text]

theorem context_not_structural {p : Parameter} {name : String} {piece : Snippet} {e : ParseError}
    (h : context contexts p name piece = .error e) : e.isStructural = false := by
  unfold context at h
  split_ifs at h
  · cases h
    rfl
  · split at h
    · cases h
      rfl
    · split_ifs at h
      cases h
      rfl

theorem checked_not_structural {p : Parameter} {piece : Snippet} {v : Value} {e : ParseError}
    (h : checked p piece v = .error e) : e.isStructural = false := by
  unfold checked at h
  split at h <;> cases h
  rfl

mutual

theorem value_orderly (p : Parameter) : ∀ a : RawArg, (value contexts p a).Orderly (a.lookups p)
  | .literal l piece => literal_orderly p l piece
  | .list items _ => (values_orderly p items).map _
  | .name name piece => by
    rw [value, Rounds.ofExcept]
    cases h : context contexts p name piece with
    | ok v => exact .ok rfl
    | error e => exact .error (List.prefix_refl _) (context_not_structural contexts h)
  | .unsupported _ => .error (List.prefix_refl _) rfl

theorem values_orderly (p : Parameter) :
    ∀ items, (Rounds.all (values contexts p items)).Orderly (RawArg.lookupsOfEach p items)
  | [] => .all_nil
  | a :: rest => (value_orderly p a).all_cons (values_orderly p rest)

end

theorem argument_orderly (p : Parameter) (a : RawArg) :
    (argument contexts p a).Orderly (a.lookups p) :=
  (value_orderly contexts p a).check fun _ _ => checked_not_structural

theorem arguments_orderly (ps : List Parameter) (as : List RawArg) :
    (Rounds.all (List.zipWith (argument contexts) ps as)).Orderly
      (RawArg.lookupsOfCall ps as) := by
  induction ps generalizing as with
  | nil => exact .all_nil
  | cons p ps ih =>
    cases as with
    | nil => exact .all_nil
    | cons a as => exact (argument_orderly contexts p a).all_cons (ih as)

/-- **A call starts its lookups in order.** -/
theorem call_orderly (c : DraftCall) : (call contexts c).Orderly c.lookups :=
  (arguments_orderly contexts _ _).map _

mutual

/-- **A condition starts the lookups of its calls in order.** -/
theorem condition_orderly :
    ∀ d : Draft, (condition contexts d).Orderly (d.calls.flatMap DraftCall.lookups)
  | .all ds => (conditions_orderly ds).map _
  | .any ds => (conditions_orderly ds).map _
  | .not d => (condition_orderly d).map _
  | .call c => by
    rw [Draft.calls, List.flatMap_singleton]
    exact (call_orderly contexts c).map _

theorem conditions_orderly :
    ∀ ds : List Draft, (Rounds.all (conditions contexts ds)).Orderly
      ((Draft.callsOfEach ds).flatMap DraftCall.lookups)
  | [] => .all_nil
  | d :: rest => by
    rw [Draft.callsOfEach, List.flatMap_append]
    exact (condition_orderly d).all_cons (conditions_orderly rest)

end

end Resolve

end CatalogQuery
