import CatalogQuery.Proofs.Grammar.Shape
import CatalogQuery.Proofs.Source.Offsets
import Mathlib.Logic.Relation

/-!
# The calls of the matcher

A `Site` is an expression that is matched in some mode from some state, and `Site.Calls` says which
sites the matcher enters on the way. These are all that it enters: a run that ends up without fuel
has a call that does (`Site.exists_calls_of_outOfFuel`).

One call leaves fewer bytes or an expression of less height (`Site.Calls.descends`), so each chain
of calls does (`Site.descends_of_chain`). Between rules the height is the rank, and there is no left
recursion: no rule is entered again before a byte is consumed.

A run that has ended does not depend on its fuel (`run_of_le`), so that `parse` answers what every
run with enough fuel does (`parse_settled`).
-/

namespace CatalogQuery.Grammar

open Source (byteLength)

/-! ### More fuel -/

/-- A run that ended ends in the same way with one more unit of fuel. By induction on the fuel: the
runs that it is made of have ended. -/
theorem run_succ : ∀ {n : Nat} {e : Expr} {m : Mode} {s : State}, run n e m s ≠ .outOfFuel →
    run (n + 1) e m s = run n e m s := by
  intro n
  induction n with
  | zero =>
    intro e m s h
    exact absurd (run_zero e m s) h
  | succ n ih =>
    -- parts that have ended are the same with the fuel of the whole run
    have hmatched : ∀ {e m s after}, run n e m s = .matched after →
        run (n + 1) e m s = .matched after := fun h => (ih (by simp [h])).trans h
    have hfailed : ∀ {e m s f}, run n e m s = .failed f → run (n + 1) e m s = .failed f :=
      fun h => (ih (by simp [h])).trans h
    intro e m s h
    cases e with
    | nothing | atEnd | text t | anyCase t | char k => simp only [run]
    | rule r =>
      simp only [run] at h ⊢
      split at h
      · rename_i hm
        -- without its body's end the rule would not have ended either
        have hbody : run n r.body (m.inside r.flavor) { s with found := [] } ≠ .outOfFuel := by
          intro hrun
          rw [hrun] at h
          exact h rfl
        rw [if_pos hm, if_pos hm, ih hbody]
      · rename_i hm
        rw [if_neg hm, if_neg hm, ih h]
    | seq a b =>
      -- the second part is run from where the first one ended, which fuel does not change
      simp only [run] at h ⊢
      cases hrun : run n a m s with
      | matched after =>
        rw [hrun] at h
        rw [hmatched hrun]
        exact ih h
      | failed f => rw [hfailed hrun]
      | outOfFuel => rw [hrun] at h; exact absurd rfl h
    | choice a b =>
      -- the second alternative begins with how far the first one got
      simp only [run] at h ⊢
      cases hrun : run n a m s with
      | matched after => rw [hmatched hrun]
      | failed f =>
        rw [hrun] at h
        rw [hfailed hrun]
        exact ih h
      | outOfFuel => rw [hrun] at h; exact absurd rfl h
    | optional a =>
      simp only [run] at h ⊢
      cases hrun : run n a m s with
      | matched after => rw [hmatched hrun]
      | failed f => rw [hfailed hrun]
      | outOfFuel => rw [hrun] at h; exact absurd rfl h
    | many a =>
      simp only [run] at h ⊢
      cases hrun : run n a m s with
      | matched after =>
        rw [hrun] at h
        rw [hmatched hrun]
        exact ih h
      | failed f => rw [hfailed hrun]
      | outOfFuel => rw [hrun] at h; exact absurd rfl h
    | more a =>
      -- each further repetition begins after skipping
      simp only [run] at h ⊢
      cases hrun : run n a m (s.skip m) with
      | matched after =>
        rw [hrun] at h
        rw [hmatched hrun]
        exact ih h
      | failed f => rw [hfailed hrun]
      | outOfFuel => rw [hrun] at h; exact absurd rfl h
    | absent a =>
      -- only whether the part matches is looked at
      simp only [run] at h ⊢
      cases hrun : run n a { m with records := false } s with
      | matched after => rw [hmatched hrun]
      | failed f => rw [hfailed hrun]
      | outOfFuel => rw [hrun] at h; exact absurd rfl h

/-- A run that ended ends in the same way with more fuel. -/
theorem run_of_le {n k : Nat} {e : Expr} {m : Mode} {s : State} (hle : n ≤ k)
    (h : run n e m s ≠ .outOfFuel) : run k e m s = run n e m s := by
  induction hle with
  | refl => rfl
  | step _ ih => rw [← ih]; exact run_succ (ih ▸ h)

/-! ### Calls -/

/-- An expression, and the mode and the state in which it is matched. -/
structure Site where
  expr : Expr
  mode : Mode
  state : State

namespace Site

/-- What matching at a site leads to, with some fuel. -/
def run (n : Nat) (x : Site) : Outcome := Grammar.run n x.expr x.mode x.state

/-- The bytes that are left at a site. -/
def left (x : Site) : Nat := byteLength x.state.rest

/-- Matching at the first site enters the second one. -/
inductive Calls : Site → Site → Prop where
  | node {r : Rule} {m : Mode} {s : State} (hm : m.records = true) :
      Calls ⟨.rule r, m, s⟩ ⟨r.body, m.inside r.flavor, { s with found := [] }⟩
  | bare {r : Rule} {m : Mode} {s : State} (hm : m.records = false) :
      Calls ⟨.rule r, m, s⟩ ⟨r.body, m.inside r.flavor, s⟩
  | seq_left {a b : Expr} {m : Mode} {s : State} : Calls ⟨.seq a b, m, s⟩ ⟨a, m, s⟩
  | seq_right {n : Nat} {a b : Expr} {m : Mode} {s after : State}
      (h : Grammar.run n a m s = .matched after) : Calls ⟨.seq a b, m, s⟩ ⟨b, m, after.skip m⟩
  | choice_left {a b : Expr} {m : Mode} {s : State} : Calls ⟨.choice a b, m, s⟩ ⟨a, m, s⟩
  | choice_right {n : Nat} {a b : Expr} {m : Mode} {s : State} {f : Furthest}
      (h : Grammar.run n a m s = .failed f) :
      Calls ⟨.choice a b, m, s⟩ ⟨b, m, { s with furthest := f }⟩
  | optional {a : Expr} {m : Mode} {s : State} : Calls ⟨.optional a, m, s⟩ ⟨a, m, s⟩
  | many {a : Expr} {m : Mode} {s : State} : Calls ⟨.many a, m, s⟩ ⟨a, m, s⟩
  | many_more {n : Nat} {a : Expr} {m : Mode} {s after : State}
      (h : Grammar.run n a m s = .matched after) : Calls ⟨.many a, m, s⟩ ⟨.more a, m, after⟩
  | more {a : Expr} {m : Mode} {s : State} : Calls ⟨.more a, m, s⟩ ⟨a, m, s.skip m⟩
  | more_more {n : Nat} {a : Expr} {m : Mode} {s after : State}
      (h : Grammar.run n a m (s.skip m) = .matched after) :
      Calls ⟨.more a, m, s⟩ ⟨.more a, m, after⟩
  | absent {a : Expr} {m : Mode} {s : State} :
      Calls ⟨.absent a, m, s⟩ ⟨a, { m with records := false }, s⟩

/-- **The calls are all there are**: a run is without fuel in the end only if a run at one of its
calls is. -/
theorem exists_calls_of_outOfFuel {n : Nat} {x : Site} (h : x.run (n + 1) = .outOfFuel) :
    ∃ y, x.Calls y ∧ y.run n = .outOfFuel := by
  obtain ⟨e, m, s⟩ := x
  cases e with
  -- these end with any fuel: they call nothing
  | nothing => simp only [run, Grammar.run] at h; cases h
  | atEnd => simp only [run, Grammar.run] at h; split at h <;> cases h
  | text t => simp only [run, Grammar.run, State.consume] at h; split at h <;> cases h
  | anyCase t => simp only [run, Grammar.run, State.consume] at h; split at h <;> cases h
  | char k =>
    simp only [run, Grammar.run] at h
    split at h
    · split at h <;> cases h
    · cases h
  | rule r =>
    -- a rule fails to end where its body does
    simp only [run, Grammar.run] at h
    split at h
    · rename_i hm
      split at h
      · cases h
      · cases h
      · rename_i hrun; exact ⟨_, .node hm, hrun⟩
    · rename_i hm
      exact ⟨_, .bare (by simpa using hm), h⟩
  | seq a b =>
    -- the part that was entered last is the one without fuel
    simp only [run, Grammar.run] at h
    split at h
    · rename_i hrun; exact ⟨_, .seq_right hrun, h⟩
    · cases h
    · rename_i hrun; exact ⟨_, .seq_left, hrun⟩
  | choice a b =>
    simp only [run, Grammar.run] at h
    split at h
    · cases h
    · rename_i hrun; exact ⟨_, .choice_right hrun, h⟩
    · rename_i hrun; exact ⟨_, .choice_left, hrun⟩
  | optional a =>
    simp only [run, Grammar.run] at h
    split at h
    · cases h
    · cases h
    · rename_i hrun; exact ⟨_, .optional, hrun⟩
  | many a =>
    -- either the first repetition has not ended, or those behind it
    simp only [run, Grammar.run] at h
    split at h
    · rename_i hrun; exact ⟨_, .many_more hrun, h⟩
    · cases h
    · rename_i hrun; exact ⟨_, .many, hrun⟩
  | more a =>
    simp only [run, Grammar.run] at h
    split at h
    · rename_i hrun; exact ⟨_, .more_more hrun, h⟩
    · cases h
    · rename_i hrun; exact ⟨_, .more, hrun⟩
  | absent a =>
    simp only [run, Grammar.run] at h
    split at h
    · cases h
    · cases h
    · rename_i hrun; exact ⟨_, .absent, hrun⟩

end Site

/-! ### Bytes -/

/-- What is passed over has bytes, unless it is nothing. -/
theorem Cursor.Before.rest_eq_or_lt {c c' : Cursor} (h : c.Before c') :
    c'.rest = c.rest ∨ byteLength c'.rest < byteLength c.rest := by
  obtain ⟨w, hw, -⟩ := h
  cases w with
  | nil => exact .inl hw.symm
  | cons x w =>
    -- one character has at least one byte
    have hx := x.utf8Size_pos
    rw [hw, List.cons_append, Source.byteLength_cons, Source.byteLength_append]
    omega

theorem Cursor.Before.byteLength_le {c c' : Cursor} (h : c.Before c') :
    byteLength c'.rest ≤ byteLength c.rest := by
  rcases h.rest_eq_or_lt with heq | hlt
  · exact Nat.le_of_eq (congrArg byteLength heq)
  · exact Nat.le_of_lt hlt

theorem State.before_skip (s : State) (m : Mode) : s.cursor.Before (s.skip m).cursor := by
  rw [State.cursor_skip]
  exact s.cursor.before_skip m

theorem run_before {n : Nat} {e : Expr} {m : Mode} {s after : State}
    (h : run n e m s = .matched after) : s.cursor.Before after.cursor := by
  have hshow := run_shows n e m s
  rw [h] at hshow
  obtain ⟨ts, hts, -⟩ := hshow
  exact hts.before

/-- Every match of the expression takes at least one byte. -/
def Expr.Consumes (e : Expr) : Prop :=
  ∀ (n : Nat) (m : Mode) (s after : State), run n e m s = .matched after →
    byteLength after.rest < byteLength s.rest

theorem consumes_of_not_nullable {e : Expr} (he : e.nullable = false) : e.Consumes := by
  intro n m s after h
  rcases (run_before h).rest_eq_or_lt with heq | hlt
  · have hlt := (run_matched h).2 he
    change after.rest = s.rest at heq
    rw [heq] at hlt
    exact absurd hlt (Nat.lt_irrefl _)
  · exact hlt

/-- The parts of an expression that may be matched any number of times, or once or not at all. -/
def Expr.repeated : Expr → List Expr
  | .nothing | .atEnd | .text _ | .anyCase _ | .char _ | .rule _ => []
  | .seq a b | .choice a b => a.repeated ++ b.repeated
  | .optional a | .many a | .more a => a :: a.repeated
  | .absent a => a.repeated

/-- **What is repeated in a rule consumes something each time.** -/
theorem consumes_of_mem_repeated {r : Rule} : ∀ a ∈ r.body.repeated, a.Consumes := by
  have hall : (r.body.repeated.all fun a => !a.nullable) = true := by
    cases r <;> decide
  intro a ha
  exact consumes_of_not_nullable (by simpa using List.all_eq_true.mp hall a ha)

/-! ### Chains of calls -/

namespace Site

/-- There is less to match at the second site: fewer bytes are left, or as many and the expression
is not as high. -/
def Less (x y : Site) : Prop :=
  y.left < x.left ∨ y.state.rest = x.state.rest ∧ y.expr.height < x.expr.height

theorem Less.trans {x y z : Site} (h : x.Less y) (h' : y.Less z) : x.Less z := by
  rcases h with h | ⟨heq, h⟩ <;> rcases h' with h' | ⟨heq', h'⟩
  · exact .inl (Nat.lt_trans h' h)
  · exact .inl (by rw [left, heq']; exact h)
  · exact .inl (by rw [left, left, heq] at h'; exact h')
  · exact .inr ⟨heq'.trans heq, Nat.lt_trans h' h⟩

/-- A later place, which is passed over to with something consumed or leads to a lower part. -/
theorem less_of_before {a b : Expr} {m m' : Mode} {s s' : State} (h : s.cursor.Before s'.cursor)
    (hless : byteLength s'.rest < byteLength s.rest ∨ b.height < a.height) :
    Less ⟨a, m, s⟩ ⟨b, m', s'⟩ := by
  rcases h.rest_eq_or_lt with heq | hlt
  · refine hless.imp id fun hheight => ⟨heq, hheight⟩
  · exact .inl hlt

/-- **One call leaves less to match**, where repeated parts consume something. -/
theorem Calls.descends {x y : Site} (h : x.Calls y) (hx : x.expr.steady = true) :
    y.expr.steady = true ∧ x.Less y := by
  cases h with
  | @node r | @bare r =>
    have hbody := height_body_le_rank r
    exact ⟨steady_body r, .inr ⟨rfl, by simp only [Expr.height]; omega⟩⟩
  | seq_left =>
    simp only [Expr.steady, Bool.and_eq_true] at hx
    exact ⟨hx.1.1, .inr ⟨rfl, by simp only [Expr.height]; omega⟩⟩
  | @seq_right n a b m s after h =>
    simp only [Expr.steady, Bool.and_eq_true] at hx
    have hskip := after.before_skip m
    refine ⟨hx.1.2, less_of_before ((run_before h).trans hskip) ?_⟩
    cases ha : a.nullable with
    | true => exact .inr (by simp only [Expr.height, ha, if_true]; omega)
    | false =>
      -- what stands behind a part that consumes something may be as high as it likes
      have hlt := consumes_of_not_nullable ha n m s after h
      exact .inl (Nat.lt_of_le_of_lt hskip.byteLength_le hlt)
  | choice_left =>
    simp only [Expr.steady, Bool.and_eq_true] at hx
    exact ⟨hx.1, .inr ⟨rfl, by simp only [Expr.height]; omega⟩⟩
  | choice_right =>
    simp only [Expr.steady, Bool.and_eq_true] at hx
    exact ⟨hx.2, .inr ⟨rfl, by simp only [Expr.height]; omega⟩⟩
  | optional | absent => exact ⟨hx, .inr ⟨rfl, Nat.lt_succ_self _⟩⟩
  | many =>
    simp only [Expr.steady, Bool.and_eq_true] at hx
    exact ⟨hx.1, .inr ⟨rfl, Nat.lt_succ_self _⟩⟩
  | @many_more n a m s after h =>
    have hnull : a.nullable = false := by simpa [Expr.steady] using (Bool.and_eq_true_iff.mp hx).2
    exact ⟨hx, .inl (consumes_of_not_nullable hnull n m s after h)⟩
  | @more a m s =>
    simp only [Expr.steady, Bool.and_eq_true] at hx
    exact ⟨hx.1, less_of_before (s.before_skip m) (.inr (Nat.lt_succ_self _))⟩
  | @more_more n a m s after h =>
    have hnull : a.nullable = false := by simpa [Expr.steady] using (Bool.and_eq_true_iff.mp hx).2
    have hlt := consumes_of_not_nullable hnull n m _ after h
    exact ⟨hx, .inl (Nat.lt_of_lt_of_le hlt (s.before_skip m).byteLength_le)⟩

/-- Each chain of calls leaves less to match. By induction on the chain. -/
theorem descends_of_chain {x y : Site} (h : Relation.TransGen Calls x y)
    (hx : x.expr.steady = true) : y.expr.steady = true ∧ x.Less y := by
  induction h with
  | single h => exact h.descends hx
  | tail _ h ih =>
    -- steadiness is handed on, so that the last call descends, too
    obtain ⟨hsteady, hless⟩ := ih
    obtain ⟨hsteady', hless'⟩ := h.descends hsteady
    exact ⟨hsteady', hless.trans hless'⟩

/-- **Below a rule each chain of calls leaves less to match**, from wherever it begins. -/
theorem less_of_chain {r : Rule} {m : Mode} {s : State} {x y : Site}
    (hbelow : Relation.ReflTransGen Calls ⟨.rule r, m, s⟩ x) (h : Relation.TransGen Calls x y) :
    x.Less y := by
  refine (descends_of_chain h ?_).2
  rcases Relation.reflTransGen_iff_eq_or_transGen.mp hbelow with rfl | hchain
  · rfl
  · exact (descends_of_chain hchain rfl).1

/-- **No left recursion**: on each chain of calls from one rule to another fewer bytes are left, or
as many and the rank falls. -/
theorem rank_descends {r r' : Rule} {m m' : Mode} {s s' : State}
    (h : Relation.TransGen Calls ⟨.rule r, m, s⟩ ⟨.rule r', m', s'⟩) :
    byteLength s'.rest < byteLength s.rest ∨ s'.rest = s.rest ∧ r'.rank < r.rank := by
  obtain ⟨-, hless | ⟨heq, hheight⟩⟩ := descends_of_chain h rfl
  · exact .inl hless
  · exact .inr ⟨heq, Nat.lt_of_succ_lt_succ hheight⟩

end Site

/-! ### Whole sources -/

/-- The state at the beginning of a text. -/
def State.initial (cs : List Char) : State := ⟨cs, 0, [], .start⟩

/-- **Matching a text ends**, with a tree or with a failure, and with the same one for any fuel that
is enough. -/
theorem parse_settled (cs : List Char) :
    (∃ after tree, (∀ n, fuelFor cs ≤ n →
        run n (.rule .program) .spaced (.initial cs) = .matched after) ∧
      after.found = [tree] ∧ parse cs = .ok tree) ∨
    ∃ f, (∀ n, fuelFor cs ≤ n → run n (.rule .program) .spaced (.initial cs) = .failed f) ∧
      parse cs = .error f := by
  -- the fuel covers the rank of the first rule and every byte
  have hends : run (fuelFor cs) (.rule .program) .spaced (.initial cs) ≠ .outOfFuel := by
    refine run_ends _ _ _ _ (by decide) ?_
    show 54 + 400 * cs.length ≤ 400 * (cs.length + 1)
    omega
  have hmore : ∀ n, fuelFor cs ≤ n → run n (.rule .program) .spaced (.initial cs)
      = run (fuelFor cs) (.rule .program) .spaced (.initial cs) := fun n hn => run_of_le hn hends
  have hshow := run_shows (fuelFor cs) (.rule .program) .spaced (.initial cs)
  cases hrun : run (fuelFor cs) (.rule .program) .spaced (.initial cs) with
  | matched after =>
    rw [hrun] at hshow hmore
    obtain ⟨ts, hts, hfound⟩ := hshow
    -- a program is one node
    obtain ⟨tree, rfl, -⟩ := hts.finds rfl
    obtain ⟨rest, offset, found, furthest⟩ := after
    obtain rfl : found = [tree] := hfound
    exact .inl ⟨_, tree, hmore, rfl, by rw [State.initial] at hrun; rw [parse, hrun]⟩
  | failed f =>
    rw [hrun] at hmore
    exact .inr ⟨f, hmore, by rw [State.initial] at hrun; rw [parse, hrun]⟩
  | outOfFuel => exact absurd hrun hends

end CatalogQuery.Grammar
