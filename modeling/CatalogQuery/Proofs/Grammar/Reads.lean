import CatalogQuery.Grammar.Matcher
import Mathlib.Data.List.Forall2
import Mathlib.Tactic.Common

/-!
# What expressions read

`Reads m e c o` says what the parsing expression `e` reads at the place `c` of a text: nothing if
`o` is `none`, and otherwise the place reached and the nodes found. It is the meaning of `run`
without its bookkeeping: no fuel, no furthest failure, and only the nodes of the expression itself.

`run_reads` says that every run that ends, ends with what its expression reads, and `Reads.unique`
that an expression reads one thing only. So a derivation of `Reads`, however it was found, is what
`run` answers.
-/

namespace CatalogQuery.Grammar

/-- A place in a text: what is left of it, and the byte offset reached. -/
structure Cursor where
  rest : List Char
  offset : Nat

namespace Cursor

/-- The place after what may stand between parts. -/
def skip (c : Cursor) (m : Mode) : Cursor :=
  if m.skips then ⟨(skipFrom false c.offset c.rest).1, (skipFrom false c.offset c.rest).2⟩ else c

/-- The place after the given characters. -/
def advance (c : Cursor) (consumed rest : List Char) : Cursor :=
  ⟨rest, c.offset + Source.byteLength consumed⟩

/-- The text between two places. -/
def textTo (before after : Cursor) : List Char :=
  before.rest.take (before.rest.length - after.rest.length)

/-- The node for a rule that matched between two places. -/
def nodeTo (before after : Cursor) (r : Rule) (children : List ParseTree) : ParseTree :=
  .node r before.offset after.offset (before.textTo after) children

theorem skip_of_tight (c : Cursor) {m : Mode} (h : m.skips = false) : c.skip m = c := by
  simp [skip, h]

theorem textTo_eq {c c' : Cursor} {w : List Char} (h : c.rest = w ++ c'.rest) :
    c.textTo c' = w := by
  simp [textTo, h]

end Cursor

namespace State

def cursor (s : State) : Cursor := ⟨s.rest, s.offset⟩

theorem cursor_skip (s : State) (m : Mode) : (s.skip m).cursor = s.cursor.skip m := by
  unfold skip Cursor.skip
  split <;> rfl

theorem found_skip (s : State) (m : Mode) : (s.skip m).found = s.found := by
  unfold skip
  split <;> rfl

end State

/-- Without fuel a run ends at once. -/
theorem run_zero (e : Expr) (m : Mode) (s : State) : run 0 e m s = .outOfFuel := by
  rw [run]

/-- What an expression reads at a place: nothing, or the nodes found up to another place. -/
inductive Reads : Mode → Expr → Cursor → Option (Cursor × List ParseTree) → Prop where
  | nothing {m c} : Reads m .nothing c (some (c, []))
  | atEnd {m c} (h : c.rest = []) : Reads m .atEnd c (some (c, []))
  | atEnd_fails {m c} (h : c.rest ≠ []) : Reads m .atEnd c none
  | text {m c t rest} (h : c.rest = t ++ rest) :
      Reads m (.text t) c (some (c.advance t rest, []))
  | text_fails {m c t} (h : ¬ t <+: c.rest) : Reads m (.text t) c none
  | anyCase {m c t w rest} (h : c.rest = w ++ rest) (hw : w.map Char.toLower = t) :
      Reads m (.anyCase t) c (some (c.advance w rest, []))
  | anyCase_fails {m c t} (h : (c.rest.take t.length).map Char.toLower ≠ t) :
      Reads m (.anyCase t) c none
  | char {m c k a rest} (h : c.rest = a :: rest) (ha : k.holds a = true) :
      Reads m (.char k) c (some (c.advance [a] rest, []))
  | char_fails {m c k} (h : ∀ a ∈ c.rest.head?, k.holds a = false) : Reads m (.char k) c none
  | node {m c c' r ts} (hm : m.records = true)
      (h : Reads (m.inside r.flavor) r.body c (some (c', ts))) :
      Reads m (.rule r) c (some (c', [c.nodeTo c' r ts]))
  | bare {m c c' r ts} (hm : m.records = false)
      (h : Reads (m.inside r.flavor) r.body c (some (c', ts))) :
      Reads m (.rule r) c (some (c', ts))
  | rule_fails {m c r} (h : Reads (m.inside r.flavor) r.body c none) : Reads m (.rule r) c none
  | seq {m c c₁ c₂ a b ts us} (ha : Reads m a c (some (c₁, ts)))
      (hb : Reads m b (c₁.skip m) (some (c₂, us))) : Reads m (.seq a b) c (some (c₂, ts ++ us))
  | seq_fails_left {m c a b} (ha : Reads m a c none) : Reads m (.seq a b) c none
  | seq_fails_right {m c c₁ a b ts} (ha : Reads m a c (some (c₁, ts)))
      (hb : Reads m b (c₁.skip m) none) : Reads m (.seq a b) c none
  | choice_left {m c a b r} (ha : Reads m a c (some r)) : Reads m (.choice a b) c (some r)
  | choice_right {m c a b o} (ha : Reads m a c none) (hb : Reads m b c o) :
      Reads m (.choice a b) c o
  | optional_some {m c a r} (ha : Reads m a c (some r)) : Reads m (.optional a) c (some r)
  | optional_none {m c a} (ha : Reads m a c none) : Reads m (.optional a) c (some (c, []))
  | many_some {m c c₁ c₂ a ts us} (ha : Reads m a c (some (c₁, ts)))
      (hmore : Reads m (.more a) c₁ (some (c₂, us))) : Reads m (.many a) c (some (c₂, ts ++ us))
  | many_none {m c a} (ha : Reads m a c none) : Reads m (.many a) c (some (c, []))
  | more_some {m c c₁ c₂ a ts us} (ha : Reads m a (c.skip m) (some (c₁, ts)))
      (hmore : Reads m (.more a) c₁ (some (c₂, us))) : Reads m (.more a) c (some (c₂, ts ++ us))
  | more_none {m c a} (ha : Reads m a (c.skip m) none) : Reads m (.more a) c (some (c, []))
  | absent {m c a} (ha : Reads { m with records := false } a c none) :
      Reads m (.absent a) c (some (c, []))
  | absent_fails {m c a r} (ha : Reads { m with records := false } a c (some r)) :
      Reads m (.absent a) c none

/-! ### Runs read -/

/-- An outcome from a state shows what the expression reads there: the nodes that it reads are put
before those found earlier. -/
def Outcome.Shows (m : Mode) (e : Expr) (s : State) : Outcome → Prop
  | .matched after =>
    ∃ ts, Reads m e s.cursor (some (after.cursor, ts)) ∧ after.found = ts.reverse ++ s.found
  | .failed _ => Reads m e s.cursor none
  | .outOfFuel => True

theorem consume_shows (m : Mode) (s : State) (t : List Char) :
    (s.consume id t).Shows m (.text t) s := by
  unfold State.consume
  rw [List.map_id]
  split
  · rename_i h
    -- what was taken stands at the place
    have hrest : s.cursor.rest = t ++ s.rest.drop t.length := by
      calc s.rest = s.rest.take t.length ++ s.rest.drop t.length :=
            (List.take_append_drop t.length s.rest).symm
        _ = t ++ s.rest.drop t.length := by rw [h]
    rw [h]
    exact ⟨[], .text hrest, rfl⟩
  · rename_i h
    exact .text_fails fun hp => h (List.prefix_iff_eq_take.mp hp).symm

theorem consume_toLower_shows (m : Mode) (s : State) (t : List Char) :
    (s.consume Char.toLower t).Shows m (.anyCase t) s := by
  unfold State.consume
  split
  · rename_i h
    exact ⟨[], .anyCase (List.take_append_drop t.length s.rest).symm h, rfl⟩
  · rename_i h
    exact .anyCase_fails h

/-! ### Steps of a run

Each operator has a lemma about a run with one more unit of fuel, given what runs with less fuel
show. -/

section Steps

variable {n : Nat}

theorem run_char_shows (k : CharClass) (m : Mode) (s : State) :
    (run (n + 1) (.char k) m s).Shows m (.char k) s := by
  rw [run]
  split
  · rename_i a rest hs
    split
    · rename_i ha
      exact ⟨[], .char hs ha, rfl⟩
    · rename_i ha
      refine .char_fails fun b hb => ?_
      -- the character was there, and is not of the class
      rw [State.cursor, hs] at hb
      obtain rfl : a = b := Option.some.inj hb
      simpa using ha
  · rename_i hs
    refine .char_fails fun b hb => ?_
    rw [State.cursor, hs] at hb
    -- the text has ended
    cases hb

variable (ih : ∀ (e : Expr) (m : Mode) (s : State), (run n e m s).Shows m e s)

include ih

/-- The nodes found inside a rule are the parts of its node. -/
theorem run_rule_shows (r : Rule) (m : Mode) (s : State) :
    (run (n + 1) (.rule r) m s).Shows m (.rule r) s := by
  rw [run]
  split
  · rename_i hm
    have h := ih r.body (m.inside r.flavor) { s with found := [] }
    split
    · rename_i after hrun
      rw [hrun] at h
      obtain ⟨ts, hts, hfound⟩ := h
      refine ⟨_, .node hm hts, ?_⟩
      -- the body began with nothing found, so that all it found is its own
      rw [List.append_nil] at hfound
      simp only [State.nodeTo, hfound, List.reverse_reverse]
      rfl
    · rename_i f hrun
      rw [hrun] at h
      exact .rule_fails h
    · trivial
  · rename_i hm
    -- the body adds to what was found before
    have h := ih r.body (m.inside r.flavor) s
    cases hrun : run n r.body (m.inside r.flavor) s with
    | matched after =>
      rw [hrun] at h
      obtain ⟨ts, hts, hfound⟩ := h
      exact ⟨ts, .bare (by simpa using hm) hts, hfound⟩
    | failed f => rw [hrun] at h; exact .rule_fails h
    | outOfFuel => trivial

theorem run_seq_shows (a b : Expr) (m : Mode) (s : State) :
    (run (n + 1) (.seq a b) m s).Shows m (.seq a b) s := by
  rw [run]
  have ha := ih a m s
  split
  · rename_i after hrun
    rw [hrun] at ha
    obtain ⟨ts, hts, hfound⟩ := ha
    have hb := ih b m (after.skip m)
    cases hrun' : run n b m (after.skip m) with
    | matched last =>
      rw [hrun'] at hb
      obtain ⟨us, hus, hfound'⟩ := hb
      rw [State.cursor_skip] at hus
      -- what the second part found was put upon what the first one did
      refine ⟨ts ++ us, .seq hts hus, ?_⟩
      rw [hfound', State.found_skip, hfound, List.reverse_append, List.append_assoc]
    | failed f =>
      rw [hrun'] at hb
      exact .seq_fails_right hts (State.cursor_skip after m ▸ hb)
    | outOfFuel => trivial
  · rename_i f hrun
    rw [hrun] at ha
    exact .seq_fails_left ha
  · trivial

theorem run_choice_shows (a b : Expr) (m : Mode) (s : State) :
    (run (n + 1) (.choice a b) m s).Shows m (.choice a b) s := by
  rw [run]
  have ha := ih a m s
  split
  · rename_i after hrun
    rw [hrun] at ha
    obtain ⟨ts, hts, hfound⟩ := ha
    exact ⟨ts, .choice_left hts, hfound⟩
  · rename_i f hrun
    rw [hrun] at ha
    -- the failure of the first part only leaves its mark in `furthest`
    have hb := ih b m { s with furthest := f }
    cases hrun' : run n b m { s with furthest := f } with
    | matched after =>
      rw [hrun'] at hb
      obtain ⟨ts, hts, hfound⟩ := hb
      exact ⟨ts, .choice_right ha hts, hfound⟩
    | failed f' => rw [hrun'] at hb; exact .choice_right ha hb
    | outOfFuel => trivial
  · trivial

theorem run_optional_shows (a : Expr) (m : Mode) (s : State) :
    (run (n + 1) (.optional a) m s).Shows m (.optional a) s := by
  rw [run]
  have ha := ih a m s
  split
  · rename_i after hrun
    rw [hrun] at ha
    obtain ⟨ts, hts, hfound⟩ := ha
    exact ⟨ts, .optional_some hts, hfound⟩
  · rename_i f hrun
    rw [hrun] at ha
    exact ⟨[], .optional_none ha, rfl⟩
  · trivial

theorem run_many_shows (a : Expr) (m : Mode) (s : State) :
    (run (n + 1) (.many a) m s).Shows m (.many a) s := by
  rw [run]
  have ha := ih a m s
  split
  · rename_i after hrun
    rw [hrun] at ha
    obtain ⟨ts, hts, hfound⟩ := ha
    have hmore := ih (.more a) m after
    cases hrun' : run n (.more a) m after with
    | matched last =>
      rw [hrun'] at hmore
      obtain ⟨us, hus, hfound'⟩ := hmore
      refine ⟨ts ++ us, .many_some hts hus, ?_⟩
      rw [hfound', hfound, List.reverse_append, List.append_assoc]
    | failed f =>
      -- a repetition never fails
      rw [hrun'] at hmore
      cases hmore
    | outOfFuel => trivial
  · rename_i f hrun
    rw [hrun] at ha
    exact ⟨[], .many_none ha, rfl⟩
  · trivial

theorem run_more_shows (a : Expr) (m : Mode) (s : State) :
    (run (n + 1) (.more a) m s).Shows m (.more a) s := by
  rw [run]
  have ha := ih a m (s.skip m)
  split
  · rename_i after hrun
    rw [hrun] at ha
    obtain ⟨ts, hts, hfound⟩ := ha
    rw [State.cursor_skip] at hts
    have hmore := ih (.more a) m after
    cases hrun' : run n (.more a) m after with
    | matched last =>
      rw [hrun'] at hmore
      obtain ⟨us, hus, hfound'⟩ := hmore
      refine ⟨ts ++ us, .more_some hts hus, ?_⟩
      rw [hfound', hfound, State.found_skip, List.reverse_append, List.append_assoc]
    | failed f =>
      rw [hrun'] at hmore
      -- a repetition does not fail
      cases hmore
    | outOfFuel => trivial
  · rename_i f hrun
    rw [hrun] at ha
    exact ⟨[], .more_none (State.cursor_skip s m ▸ ha), rfl⟩
  · trivial

theorem run_absent_shows (a : Expr) (m : Mode) (s : State) :
    (run (n + 1) (.absent a) m s).Shows m (.absent a) s := by
  rw [run]
  have ha := ih a { m with records := false } s
  split
  · rename_i after hrun
    rw [hrun] at ha
    obtain ⟨ts, hts, -⟩ := ha
    -- the match is forgotten, with all it found
    exact .absent_fails hts
  · rename_i f hrun
    rw [hrun] at ha
    exact ⟨[], .absent ha, rfl⟩
  · trivial

end Steps

/-- **A run that ends shows what its expression reads.** By induction on the fuel; every outcome of
a part is one rule of `Reads`. -/
theorem run_shows : ∀ (n : Nat) (e : Expr) (m : Mode) (s : State), (run n e m s).Shows m e s := by
  intro n
  induction n with
  | zero =>
    intro e m s
    rw [run_zero]
    trivial
  | succ n ih =>
    intro e m s
    cases e with
    | nothing => rw [run]; exact ⟨[], .nothing, rfl⟩
    | atEnd =>
      rw [run]
      split
      · rename_i hs
        exact ⟨[], .atEnd (List.isEmpty_iff.mp hs), rfl⟩
      · rename_i hs
        exact .atEnd_fails fun h => hs (List.isEmpty_iff.mpr h)
    | text t => rw [run]; exact consume_shows m s t
    | anyCase t => rw [run]; exact consume_toLower_shows m s t
    | char k => exact run_char_shows k m s
    | rule r => exact run_rule_shows ih r m s
    | seq a b => exact run_seq_shows ih a b m s
    | choice a b => exact run_choice_shows ih a b m s
    | optional a => exact run_optional_shows ih a m s
    | many a => exact run_many_shows ih a m s
    | more a => exact run_more_shows ih a m s
    | absent a => exact run_absent_shows ih a m s

/-! ### One reading only -/

/-- An expression reads one thing only at a place. By induction on one of two readings: what it
found first, the other one finds, so both go on by the same rule. -/
theorem Reads.unique {m : Mode} {e : Expr} {c : Cursor} {o o' : Option (Cursor × List ParseTree)}
    (h : Reads m e c o) (h' : Reads m e c o') : o = o' := by
  induction h generalizing o' with
  | nothing => cases h'; rfl
  | atEnd h => cases h' with
    | atEnd => rfl
    | atEnd_fails h' => exact absurd h h'
  | atEnd_fails h => cases h' with
    | atEnd h' => exact absurd h' h
    | atEnd_fails => rfl
  -- what is left behind a text is the same
  | text h => cases h' with
    | text h' => rw [h] at h'; cases List.append_cancel_left h'; rfl
    | text_fails h' => exact absurd (h ▸ List.prefix_append _ _) h'
  | text_fails h => cases h' with
    | text h' => exact absurd (h' ▸ List.prefix_append _ _) h
    | text_fails => rfl
  | anyCase h hw => cases h' with
    | anyCase h' hw' =>
      -- both spellings are as long as the word, so they end at the same place
      rw [h] at h'
      have hlen := congrArg List.length (hw.trans hw'.symm)
      rw [List.length_map, List.length_map] at hlen
      obtain ⟨rfl, rfl⟩ := List.append_inj h' hlen
      rfl
    | anyCase_fails h' =>
      refine absurd ?_ h'
      rw [h, ← hw, List.length_map, List.take_left']
      rfl
  | anyCase_fails h => cases h' with
    | anyCase h' hw' =>
      refine absurd ?_ h
      rw [h', ← hw', List.length_map, List.take_left']
      rfl
    | anyCase_fails => rfl
  -- the first character is of the class or it is not
  | char h ha => cases h' with
    | char h' => rw [h] at h'; cases h'; rfl
    | char_fails h' => rw [h' _ (by rw [h]; rfl)] at ha; cases ha
  | char_fails h => cases h' with
    | char h' ha' => rw [h _ (by rw [h']; rfl)] at ha'; cases ha'
    | char_fails => rfl
  -- nodes are recorded or not by the mode
  | node hm h ih => cases h' with
    | node hm' h' => cases ih h'; rfl
    | bare hm' h' => exact absurd (hm.symm.trans hm') (by simp)
    | rule_fails h' => cases ih h'
  | bare hm h ih => cases h' with
    | node hm' h' => exact absurd (hm'.symm.trans hm) (by simp)
    | bare hm' h' => cases ih h'; rfl
    | rule_fails h' => cases ih h'
  | rule_fails h ih => cases h' with
    | node hm' h' => cases ih h'
    | bare hm' h' => cases ih h'
    | rule_fails h' => rfl
  -- the second part begins where the first one ended in both readings
  | seq ha hb iha ihb => cases h' with
    | seq ha' hb' => cases iha ha'; cases ihb hb'; rfl
    | seq_fails_left ha' => cases iha ha'
    | seq_fails_right ha' hb' => cases iha ha'; cases ihb hb'
  | seq_fails_left ha iha => cases h' with
    | seq ha' hb' => cases iha ha'
    | seq_fails_left ha' => rfl
    | seq_fails_right ha' hb' => cases iha ha'
  | seq_fails_right ha hb iha ihb => cases h' with
    | seq ha' hb' => cases iha ha'; cases ihb hb'
    | seq_fails_left ha' => rfl
    | seq_fails_right ha' hb' => rfl
  | choice_left ha iha => cases h' with
    | choice_left ha' => cases iha ha'; rfl
    | choice_right ha' hb' => cases iha ha'
  | choice_right ha hb iha ihb => cases h' with
    | choice_left ha' => cases iha ha'
    | choice_right ha' hb' => exact ihb hb'
  | optional_some ha iha => cases h' with
    | optional_some ha' => cases iha ha'; rfl
    | optional_none ha' => cases iha ha'
  | optional_none ha iha => cases h' with
    | optional_some ha' => cases iha ha'
    | optional_none ha' => rfl
  -- as many repetitions in both
  | many_some ha hmore iha ihmore => cases h' with
    | many_some ha' hmore' => cases iha ha'; cases ihmore hmore'; rfl
    | many_none ha' => cases iha ha'
  | many_none ha iha => cases h' with
    | many_some ha' hmore' => cases iha ha'
    | many_none ha' => rfl
  | more_some ha hmore iha ihmore => cases h' with
    | more_some ha' hmore' => cases iha ha'; cases ihmore hmore'; rfl
    | more_none ha' => cases iha ha'
  | more_none ha iha => cases h' with
    | more_some ha' hmore' => cases iha ha'
    | more_none ha' => rfl
  | absent ha iha => cases h' with
    | absent ha' => rfl
    | absent_fails ha' => cases iha ha'
  | absent_fails ha iha => cases h' with
    | absent ha' => cases iha ha'
    | absent_fails ha' => rfl

end CatalogQuery.Grammar
