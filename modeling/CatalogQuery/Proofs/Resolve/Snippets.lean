import CatalogQuery.Proofs.Draft.Snippets
import CatalogQuery.Proofs.Resolve.InOrder

/-!
# Resolution shows exact snippets

Resolution makes no snippets of its own. Its errors show those of the arguments, and the error of
several tasks side by side is the error of one of them (`Rounds.Exact.all`), whichever round it is
met in. So the error of a draft with exact snippets shows exact snippets (`condition_exact`).
-/

namespace CatalogQuery

/-! ### Rounds -/

/-- The results of rounds that may only fail with exact snippets. -/
abbrev Rounds.Exact {α : Type} (source : List Char) (t : Rounds α) : Prop :=
  Gives (ParseError.Exact source) (fun _ => True) t.result

namespace Rounds

variable {α β : Type} {source : List Char}

theorem Exact.check {t : Rounds α} (h : t.Exact source) {f : α → Except ParseError β}
    (hf : ∀ a, Gives (ParseError.Exact source) (fun _ => True) (f a)) :
    (t.check f).Exact source := by
  rw [Exact, result_check]
  exact Gives.bind h fun a _ => hf a

theorem Exact.map {t : Rounds α} (h : t.Exact source) (f : α → β) : (t.map f).Exact source := by
  rw [Exact, result_map]
  exact Gives.map h fun _ _ => trivial

/-- An error of two tasks side by side is one of theirs. -/
theorem Exact.zip {s : Rounds α} {t : Rounds β} (hs : s.Exact source) (ht : t.Exact source) :
    (s.zip t).Exact source := by
  induction s generalizing t with
  | done log x =>
    cases x with
    | error e => exact hs
    | ok a =>
      rw [Rounds.zip, Exact, result_after]
      -- the first task is done, and only the second can fail
      exact ht.map _
  | wait log next ih =>
    cases t with
    | done log' x =>
      cases x with
      | error e => exact ht
      | ok b =>
        rw [Rounds.zip, Exact, result_wait]
        -- and the other way round
        exact Exact.map hs _
    | wait log' next' =>
      rw [Rounds.zip, Exact, result_wait]
      exact ih hs ht

/-- An error of any number of tasks side by side is one of theirs. -/
theorem Exact.all {ts : List (Rounds α)} (h : ∀ t ∈ ts, t.Exact source) :
    (Rounds.all ts).Exact source := by
  induction ts with
  | nil => exact trivial
  | cons t ts ih =>
    obtain ⟨ht, hts⟩ := List.forall_mem_cons.mp h
    exact (ht.zip (ih hts)).map _

end Rounds

/-! ### Arguments, calls and conditions -/

namespace Resolve

variable {source : List Char} (contexts : List Context)

theorem context_exact (p : Parameter) (name : String) {piece : Snippet} (h : piece.Exact source) :
    Gives (ParseError.Exact source) (fun _ => True) (context contexts p name piece) := by
  unfold context
  split_ifs
  · exact List.forall_mem_singleton.mpr h
  · split
    · exact List.forall_mem_singleton.mpr h
    · split_ifs
      · trivial
      · exact List.forall_mem_singleton.mpr h

theorem literal_exact (p : Parameter) (l : Literal) (piece : Snippet) :
    (literal p l piece).Exact source := by
  rw [Rounds.Exact, result_literal]
  unfold literalInOrder
  split
  · split <;> trivial
  · trivial

mutual

theorem value_exact (p : Parameter) :
    ∀ a : RawArg, a.Exact source → (value contexts p a).Exact source
  | .literal l piece, _ => literal_exact p l piece
  | .list items _, h => by
    cases h with
    | list _ hitems => exact (Rounds.Exact.all (values_exact p items hitems)).map _
  | .name n _, h => by
    cases h with
    | name _ h => exact context_exact contexts p n h
  | .unsupported _, h => by
    cases h with
    | unsupported h => exact List.forall_mem_singleton.mpr h

theorem values_exact (p : Parameter) : ∀ items : List RawArg, (∀ a ∈ items, a.Exact source) →
    ∀ t ∈ values contexts p items, t.Exact source
  | [], _ => by simp [values]
  | a :: rest, h => by
    obtain ⟨ha, hrest⟩ := List.forall_mem_cons.mp h
    rw [values]
    exact List.forall_mem_cons.mpr ⟨value_exact p a ha, values_exact p rest hrest⟩

end

/-- An argument fails with the snippet of a part or with its own. -/
theorem argument_exact (p : Parameter) {a : RawArg} (h : a.Exact source) :
    (argument contexts p a).Exact source := by
  refine (value_exact contexts p a h).check fun v => ?_
  unfold checked
  split
  · trivial
  · exact List.forall_mem_singleton.mpr h.snippet

theorem arguments_exact (ps : List Parameter) {as : List RawArg} (h : ∀ a ∈ as, a.Exact source) :
    ∀ t ∈ List.zipWith (argument contexts) ps as, t.Exact source := by
  induction ps generalizing as with
  | nil => simp
  | cons p ps ih =>
    cases as with
    | nil => simp
    | cons a as =>
      obtain ⟨ha, has⟩ := List.forall_mem_cons.mp h
      exact List.forall_mem_cons.mpr ⟨argument_exact contexts p ha, ih has⟩

/-- **The error of a call shows exact snippets.** -/
theorem call_exact {c : DraftCall} (h : c.Exact source) : (call contexts c).Exact source :=
  (Rounds.Exact.all (arguments_exact contexts _ h)).map _

mutual

/-- **The error of a condition shows exact snippets.** -/
theorem condition_exact : ∀ d : Draft, d.Exact source → (condition contexts d).Exact source
  | .all ds, h => by
    cases h with
    | all h => exact (Rounds.Exact.all (conditions_exact ds h)).map _
  | .any ds, h => by
    cases h with
    | any h => exact (Rounds.Exact.all (conditions_exact ds h)).map _
  | .not d, h => by
    cases h with
    | not h => exact (condition_exact d h).map _
  | .call c, h => by
    cases h with
    | call h => exact (call_exact contexts h).map _

theorem conditions_exact : ∀ ds : List Draft, (∀ d ∈ ds, d.Exact source) →
    ∀ t ∈ conditions contexts ds, t.Exact source
  | [], _ => by simp [conditions]
  | d :: rest, h => by
    obtain ⟨hd, hrest⟩ := List.forall_mem_cons.mp h
    rw [conditions]
    exact List.forall_mem_cons.mpr ⟨condition_exact d hd, conditions_exact rest hrest⟩

end

end Resolve

end CatalogQuery
