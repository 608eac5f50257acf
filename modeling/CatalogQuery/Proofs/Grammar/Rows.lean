import CatalogQuery.Proofs.Grammar.Shape

/-!
# Nodes stand one after another

The nodes that a match finds stand in a `Row` between the offsets where it begins and where it ends:
each ends before the next begins. A tree is `Laid` if the children of each of its nodes stand in a
row within the node, and nodes of rules that are not nullable have some width. Reading lays out its
trees (`Reads.laid`), so all trees of `parse` are laid (`parse_laid`).
-/

namespace CatalogQuery.Grammar

/-! ### Rows -/

/-- Nodes that stand one after another between two offsets. -/
inductive Row : Nat → Nat → List ParseTree → Prop where
  | nil {lo hi : Nat} (h : lo ≤ hi) : Row lo hi []
  | cons {lo hi : Nat} {t : ParseTree} {ts : List ParseTree} (hlo : lo ≤ t.start)
      (ht : t.start ≤ t.stop) (h : Row t.stop hi ts) : Row lo hi (t :: ts)

namespace Row

variable {lo mid hi lo' hi' : Nat} {t : ParseTree} {ts us : List ParseTree}

theorem le (h : Row lo hi ts) : lo ≤ hi := by
  induction h with
  | nil h => exact h
  | cons hlo ht _ ih => exact Nat.le_trans (Nat.le_trans hlo ht) ih

theorem mono (h : Row lo hi ts) (hlo : lo' ≤ lo) (hhi : hi ≤ hi') : Row lo' hi' ts := by
  induction h generalizing lo' with
  | nil h => exact .nil (Nat.le_trans (Nat.le_trans hlo h) hhi)
  | cons ht hwidth _ ih => exact .cons (Nat.le_trans hlo ht) hwidth (ih (Nat.le_refl _) hhi)

theorem append (h : Row lo mid ts) (h' : Row mid hi us) : Row lo hi (ts ++ us) := by
  induction h with
  | nil hle => exact h'.mono hle (Nat.le_refl _)
  | cons hlo ht _ ih => exact .cons hlo ht (ih h')

theorem singleton (hlo : lo ≤ t.start) (ht : t.start ≤ t.stop) (hhi : t.stop ≤ hi) :
    Row lo hi [t] :=
  .cons hlo ht (.nil hhi)

/-- Nodes may be left out. -/
theorem filter (h : Row lo hi ts) (p : ParseTree → Bool) : Row lo hi (ts.filter p) := by
  induction h with
  | nil h => exact .nil h
  | @cons lo hi t ts hlo ht _ ih =>
    rw [List.filter_cons]
    split
    · exact .cons hlo ht ih
    · exact ih.mono (Nat.le_trans hlo ht) (Nat.le_refl _)

/-- A node of a row stands within its bounds. -/
theorem of_mem (h : Row lo hi ts) (hmem : t ∈ ts) : lo ≤ t.start ∧ t.stop ≤ hi := by
  induction h with
  | nil => cases hmem
  | cons hlo ht hrest ih =>
    rcases List.mem_cons.mp hmem with rfl | hmem
    · exact ⟨hlo, hrest.le⟩
    · obtain ⟨hstart, hstop⟩ := ih hmem
      exact ⟨Nat.le_trans (Nat.le_trans hlo ht) hstart, hstop⟩

end Row

/-! ### Trees laid out -/

/-- The children of each node stand in a row within it. -/
inductive ParseTree.Laid : ParseTree → Prop where
  | node {r : Rule} {start stop : Nat} {text : List Char} {ts : List ParseTree}
      (hwide : r.nullable = false → start < stop) (hrow : Row start stop ts)
      (hts : ∀ t ∈ ts, t.Laid) : Laid (.node r start stop text ts)

theorem Cursor.Before.offset_le {c c' : Cursor} (h : c.Before c') : c.offset ≤ c'.offset := by
  obtain ⟨w, -, hoffset⟩ := h
  omega

/-- Characters take bytes. -/
theorem Cursor.Before.offset_lt {c c' : Cursor} (h : c.Before c')
    (hlen : c'.rest.length < c.rest.length) : c.offset < c'.offset := by
  obtain ⟨w, hw, hoffset⟩ := h
  cases w with
  | nil =>
    rw [hw] at hlen
    exact absurd hlen (Nat.lt_irrefl _)
  | cons x w =>
    have hx := x.utf8Size_pos
    simp only [Source.byteLength, List.map_cons, List.sum_cons] at hoffset
    omega

/-- **Reading lays out what it finds** between the places where it begins and ends. -/
theorem Reads.laid {m : Mode} {e : Expr} {c c' : Cursor} {ts : List ParseTree}
    (h : Reads m e c (some (c', ts))) :
    Row c.offset c'.offset ts ∧ ∀ t ∈ ts, t.Laid := by
  generalize ho : some (c', ts) = o at h
  induction h generalizing c' ts with
  | nothing | atEnd | optional_none | many_none | more_none | absent =>
    cases ho
    exact ⟨.nil (Nat.le_refl _), by simp⟩
  | text h | anyCase h | char h =>
    cases ho
    exact ⟨.nil (Cursor.before_advance h).offset_le, by simp⟩
  | @node m c c' r ts _ h ih =>
    cases ho
    obtain ⟨hrow, hts⟩ := ih rfl
    -- a rule that is not nullable takes at least one byte
    have hwide : r.nullable = false → c.offset < c'.offset := fun hr =>
      h.before.offset_lt (h.progress (nullable_body r hr))
    exact ⟨.singleton (Nat.le_refl _) hrow.le (Nat.le_refl _),
      List.forall_mem_singleton.mpr (.node hwide hrow hts)⟩
  | bare _ _ ih => exact ih ho
  | @seq m _ c₁ _ _ _ _ _ _ _ iha ihb =>
    cases ho
    obtain ⟨hrow, hts⟩ := iha rfl
    obtain ⟨hrow', hus⟩ := ihb rfl
    -- what is skipped lies between the rows of the two parts
    have hskip := (c₁.before_skip m).offset_le
    exact ⟨hrow.append (hrow'.mono hskip (Nat.le_refl _)), List.forall_mem_append.mpr ⟨hts, hus⟩⟩
  | choice_left _ iha | optional_some _ iha => exact iha ho
  | choice_right _ _ _ ihb => exact ihb ho
  | many_some _ _ iha ihmore =>
    cases ho
    obtain ⟨hrow, hts⟩ := iha rfl
    obtain ⟨hrow', hus⟩ := ihmore rfl
    exact ⟨hrow.append hrow', List.forall_mem_append.mpr ⟨hts, hus⟩⟩
  | @more_some m c _ _ _ _ _ _ _ iha ihmore =>
    cases ho
    obtain ⟨hrow, hts⟩ := iha rfl
    obtain ⟨hrow', hus⟩ := ihmore rfl
    have hskip := (c.before_skip m).offset_le
    exact ⟨(hrow.mono hskip (Nat.le_refl _)).append hrow', List.forall_mem_append.mpr ⟨hts, hus⟩⟩
  | atEnd_fails | text_fails | anyCase_fails | char_fails | rule_fails | seq_fails_left
  | seq_fails_right | absent_fails => cases ho

/-- **Each tree of a text is laid out.** -/
theorem parse_laid {cs : List Char} {tree : ParseTree} (h : parse cs = .ok tree) : tree.Laid := by
  obtain ⟨c, hc⟩ := parse_eq_ok_iff.mp h
  exact hc.laid.2 tree (List.mem_singleton_self tree)

/-! ### Nodes with some width -/

/-- No rule that may match nothing stands in the expression. -/
def Expr.solid : Expr → Bool
  | .nothing | .atEnd | .text _ | .anyCase _ | .char _ | .absent _ => true
  | .rule r => !r.nullable
  | .seq a b | .choice a b => a.solid && b.solid
  | .optional a | .many a | .more a => a.solid

/-- A solid expression finds nodes of rules that are not nullable. -/
theorem Expr.Finds.not_nullable {e : Expr} {ts : List ParseTree} (h : e.Finds ts)
    (he : e.solid = true) : ∀ t ∈ ts, t.rule.nullable = false := by
  induction e generalizing ts with
  | nothing | atEnd | text | anyCase | char | absent =>
    cases h
    simp
  | rule r =>
    obtain ⟨t, rfl, rfl⟩ := h
    exact List.forall_mem_singleton.mpr (by simpa [solid] using he)
  | seq a b iha ihb =>
    obtain ⟨us, vs, rfl, ha, hb⟩ := h
    obtain ⟨hea, heb⟩ := Bool.and_eq_true_iff.mp he
    exact List.forall_mem_append.mpr ⟨iha ha hea, ihb hb heb⟩
  | choice a b iha ihb =>
    obtain ⟨hea, heb⟩ := Bool.and_eq_true_iff.mp he
    exact h.elim (fun ha => iha ha hea) fun hb => ihb hb heb
  | optional a ih =>
    rcases h with rfl | h
    · simp
    · exact ih h he
  | many a ih | more a ih =>
    -- each node is found by one of the repetitions
    obtain ⟨parts, rfl, hparts⟩ := h
    intro t ht
    obtain ⟨us, hus, ht⟩ := List.mem_flatten.mp ht
    exact ih (hparts us hus) he t ht

end CatalogQuery.Grammar
