import CatalogQuery.Proofs.Grammar.Filler

/-!
# Separated statements

The statements of a program are `Separated` by fillers from each other and from both ends of the
text (`Statements.separated`), and the texts without statements are the fillers
(`statements_nil_iff`). `Cursor.Holds` is what is known where some of the statements are left: it is
carried from the end of the program back over each statement and over the filler in front of it.
-/

namespace CatalogQuery.Grammar

open Source (byteLength)

/-! ### Separated statements -/

/-- Spans that stand one after another in a text that begins at an offset. Only fillers stand before,
between and after them, and none of them is a filler. -/
inductive Separated : Nat → List Char → List (Nat × Nat) → Prop where
  | nil {offset : Nat} {v : List Char} (h : Filler v) : Separated offset v []
  | cons {offset start stop : Nat} {gap w rest : List Char} {spans : List (Nat × Nat)}
      (hgap : Filler gap) (hstart : start = offset + byteLength gap)
      (hstop : stop = start + byteLength w) (hw : ¬ Filler w) (h : Separated stop rest spans) :
      Separated offset (gap ++ (w ++ rest)) ((start, stop) :: spans)

namespace Separated

variable {offset : Nat} {cs : List Char} {spans : List (Nat × Nat)}

/-- No span is empty, and each ends before the next begins. -/
theorem pairwise (h : Separated offset cs spans) :
    (∀ s ∈ spans, offset ≤ s.1 ∧ s.1 < s.2) ∧ spans.Pairwise fun s s' => s.2 ≤ s'.1 := by
  induction h with
  | nil => exact ⟨List.forall_mem_nil _, .nil⟩
  | @cons offset start stop gap w _ _ _ hstart hstop hw _ ih =>
    obtain ⟨hspans, hpairwise⟩ := ih
    -- what is empty would be a filler
    have hpos : 0 < byteLength w := by
      cases w with
      | nil => exact absurd .nil hw
      | cons x w =>
        have hx := x.utf8Size_pos
        rw [Source.byteLength_cons]
        omega
    refine ⟨List.forall_mem_cons.mpr ⟨by dsimp only; omega, fun s hs => ?_⟩,
      .cons (fun s hs => (hspans s hs).1) hpairwise⟩
    have := hspans s hs
    omega

end Separated

/-- The offsets of a node. -/
def ParseTree.span (t : ParseTree) : Nat × Nat := (t.start, t.stop)

variable {c c' c₁ c₂ : Cursor} {t : ParseTree} {ts : List ParseTree}

/-- What is left at a place has the nodes with fillers before, between and after them. -/
def Cursor.Holds (c : Cursor) (ts : List ParseTree) : Prop :=
  Separated c.offset c.rest (ts.map ParseTree.span)

namespace Cursor.Holds

/-- What has been passed over belongs to the first gap. -/
theorem of_passes (h : c₁.Holds ts) (hc : c.Passes c₁) : c.Holds ts := by
  obtain ⟨v, hv, hrest, hoffset⟩ := hc
  unfold Holds at *
  rw [hrest]
  -- only the rest and the offset of the later place matter
  generalize c₁.offset = o at *
  generalize c₁.rest = cs at *
  generalize ts.map ParseTree.span = spans at *
  cases h with
  | nil h => exact .nil (hv.append h)
  | cons hgap hstart hstop hw h =>
    -- what was passed over is put before the first gap
    rw [← List.append_assoc]
    refine .cons (hv.append hgap) ?_ hstop hw h
    rw [hstart, hoffset, Source.byteLength_append, Nat.add_assoc]

/-- A node that is read where no filler begins. -/
theorem of_reads {r : Rule} (hr : r.nullable = false) (hskip : skipped c.rest = c.rest)
    (hseparator : Reads .spaced separator c none)
    (ht : Reads .spaced (.rule r) c (some (c₁, [t]))) (h : c₁.Holds ts) : c.Holds (t :: ts) := by
  obtain ⟨w, hw, hoffset⟩ := ht.before
  -- the rule consumes something
  have hne : w ≠ [] := by
    rintro rfl
    have hlt := ht.progress hr
    rw [hw, List.nil_append] at hlt
    exact absurd hlt (Nat.lt_irrefl _)
  -- the node has its span where it was read
  have hspan : t.span = (c.offset, c₁.offset) := by
    generalize ho : some (c₁, [t]) = o at ht
    cases ht with
    | node =>
      cases ho
      rfl
    | bare hm => cases hm
    | rule_fails => cases ho
  unfold Holds
  rw [List.map_cons, hspan, hw, ← List.nil_append (w ++ c₁.rest)]
  exact .cons .nil rfl hoffset (not_filler hskip hseparator hw hne) h

end Cursor.Holds

/-- The rules of statements. -/
def statementRules : List Rule := [.importStmt, .assignStmt, .exprStmt]

theorem Reads.statement_rule (h : Reads .spaced statement c (some (c₁, ts))) :
    ∃ r t, ts = [t] ∧ r ∈ statementRules ∧ Reads .spaced (.rule r) c (some (c₁, [t])) := by
  obtain ⟨t, rfl, -⟩ := finds_statement (h.finds rfl)
  cases h with
  | choice_left h => exact ⟨_, t, rfl, by decide, h⟩
  | choice_right _ h =>
    cases h with
    | choice_left h => exact ⟨_, t, rfl, by decide, h⟩
    | choice_right _ h => exact ⟨_, t, rfl, by decide, h⟩

theorem finds_someSeparators {ts : List ParseTree} (h : (Expr.manyOne separator).Finds ts) :
    ts = [] := by
  obtain ⟨us, vs, rfl, hfirst, hothers⟩ := h
  obtain rfl : us = [] := by rcases hfirst with (h | h | h) | h <;> exact h
  exact finds_separators hothers

/-- Of separators and a statement only the statement is found. -/
theorem finds_further {ts : List ParseTree}
    (h : (Expr.seq (Expr.manyOne separator) statement).Finds ts) :
    ∃ t, ts = [t] ∧ t.rule ∈ statementRules := by
  obtain ⟨_, us, rfl, hseparators, hstatement⟩ := h
  obtain rfl := finds_someSeparators hseparators
  exact finds_statement hstatement

/-- A statement behind separators, or in front of all others. -/
theorem Cursor.Holds.of_statement {us : List ParseTree}
    (hbefore : Reads .spaced (.many separator) (c.skip .spaced) (some (c', us)))
    (ht : Reads .spaced statement (c'.skip .spaced) (some (c₁, [t])))
    (h : c₁.Holds ts) : c.Holds (t :: ts) := by
  obtain ⟨r, u, hu, hr, ht⟩ := ht.statement_rule
  obtain rfl := List.singleton_inj.mp hu
  have hnullable : ∀ r ∈ statementRules, r.nullable = false := by decide
  have hskip : skipped (c'.skip .spaced).rest = (c'.skip .spaced).rest := by
    rw [Cursor.skip_rest]
    exact skipped_skipped _
  -- all separators have been read, so that no filler begins here
  have hend := hbefore.many_end (Cursor.skip_skip c .spaced)
  exact (of_reads (hnullable r hr) hskip hend ht h).of_passes
    ((c.passes_skip _).trans (hbefore.passes_many.trans (c'.passes_skip _)))

/-- One more statement. -/
theorem Cursor.Holds.of_further {us : List ParseTree}
    (ht : Reads .spaced (.seq (Expr.manyOne separator) statement) c (some (c₁, us)))
    (h : c₁.Holds ts) : c.Holds (us ++ ts) := by
  cases ht with
  | @seq _ _ c₃ _ _ _ vs ws hseparators ht =>
  obtain ⟨t, rfl, -⟩ := finds_statement (ht.finds rfl)
  obtain rfl := finds_someSeparators (hseparators.finds rfl)
  show c.Holds (t :: ts)
  generalize hvs : [] = vs at hseparators
  cases hseparators with
  | seq hfirst hothers => exact (of_statement hothers ht h).of_passes hfirst.passes_separator

theorem Cursor.Holds.of_more {us : List ParseTree}
    (ht : Reads .spaced (.more (.seq (Expr.manyOne separator) statement)) c (some (c₁, us)))
    (h : c₁.Holds ts) : c.Holds (us ++ ts) := by
  generalize he : Expr.more _ = e at ht
  generalize hm : Mode.spaced = m at ht
  generalize ho : some (c₁, us) = o at ht
  induction ht generalizing c₁ us with
  | more_some ha _ _ ih =>
    cases he
    cases hm
    cases ho
    -- one statement behind separators, and then the others
    rw [List.append_assoc]
    exact (of_further ha (ih h rfl rfl rfl)).of_passes (Cursor.passes_skip _ _)
  | more_none =>
    cases ho
    exact h
  | _ => cases he

/-- **The statements of a program are separated** from each other and from both ends of the text. -/
theorem Reads.separated (h : Reads .spaced Rule.program.body c (some (c', ts))) :
    ∃ us final, ts = us ++ [final] ∧ final.rule = .endOfInput ∧
      (∀ t ∈ us, t.rule ∈ statementRules) ∧ c.Holds us := by
  obtain ⟨c₁, c₂, c₃, us, final, rfl, hrule, hbefore, hstatements, hafter, hrest⟩ :=
    h.program_frame
  -- behind the last statement there is a filler
  have hend : c₂.Holds [] := .nil <| Cursor.Passes.filler
    (((c₂.passes_skip _).trans hafter.passes_many).trans (c₃.passes_skip _)) hrest
  cases hstatements with
  | optional_none =>
    -- no statement at all
    refine ⟨[], final, rfl, hrule, List.forall_mem_nil _, hend.of_passes ?_⟩
    exact (c.passes_skip _).trans (hbefore.passes_many.trans (c₁.passes_skip _))
  | optional_some h =>
  cases h with
  | @seq _ _ c₄ _ _ _ first others hfirst hothers =>
  obtain ⟨t, rfl, ht⟩ := finds_statement (hfirst.finds rfl)
  have hrules : ∀ u ∈ others, u.rule ∈ statementRules := by
    obtain ⟨parts, rfl, hparts⟩ := hothers.finds rfl
    intro u hu
    obtain ⟨part, hpart, hu⟩ := List.mem_flatten.mp hu
    obtain ⟨t, rfl, ht⟩ := finds_further (hparts part hpart)
    rwa [List.mem_singleton.mp hu]
  -- the statements behind the first one
  have hmore : c₄.Holds others := by
    refine Cursor.Holds.of_passes ?_ (c₄.passes_skip .spaced)
    cases hothers with
    | many_none => exact hend
    | many_some hnext hmore =>
      exact .of_further hnext (by simpa using Cursor.Holds.of_more hmore hend)
  exact ⟨t :: others, final, rfl, hrule, List.forall_mem_cons.mpr ⟨ht, hrules⟩,
    .of_statement hbefore hfirst hmore⟩

/-! ### Whole texts -/

/-- The grammar accepts the text, with these statements. -/
def Statements (cs : List Char) (ts : List ParseTree) : Prop :=
  ∃ tree, parse cs = .ok tree ∧ tree.children.filter (·.rule != .endOfInput) = ts

namespace Statements

variable {cs : List Char}

/-- **The statements of a text are separated** by fillers, from each other and from both ends. -/
theorem separated (h : Statements cs ts) :
    Separated 0 cs (ts.map ParseTree.span) ∧ ∀ t ∈ ts, t.rule ∈ statementRules := by
  obtain ⟨tree, htree, rfl⟩ := h
  obtain ⟨c, hc⟩ := parse_eq_ok_iff.mp htree
  generalize ho : some (c, [tree]) = o at hc
  cases hc with
  | @node _ _ _ _ us _ h =>
    cases ho
    obtain ⟨us, final, rfl, hfinal, hrules, hseparated⟩ := Reads.separated h
    -- the end of the input is the only node that is left out
    have hkept : (us ++ [final]).filter (·.rule != .endOfInput) = us := by
      have hall : ∀ r ∈ statementRules, (r != .endOfInput) = true := by decide
      rw [List.filter_append, List.filter_eq_self.mpr fun t ht => hall _ (hrules t ht)]
      simp [hfinal]
    rw [← hkept] at hrules hseparated
    exact ⟨hseparated, hrules⟩
  | bare hm => cases hm
  | rule_fails => cases ho

end Statements

/-- **The texts without statements are the fillers.** -/
theorem statements_nil_iff {cs : List Char} : Statements cs [] ↔ Filler cs := by
  constructor
  · intro h
    obtain ⟨hseparated, -⟩ := h.separated
    cases hseparated with
    | nil h => exact h
  · intro h
    obtain ⟨o, _, hreads, final, rfl, hfinal⟩ := h.program_matches 0
    refine ⟨_, parse_eq_ok_iff.mpr ⟨_, .node rfl hreads⟩, ?_⟩
    simp [Cursor.nodeTo, ParseTree.children, hfinal]

end CatalogQuery.Grammar
