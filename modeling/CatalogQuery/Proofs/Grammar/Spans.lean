import CatalogQuery.Proofs.Grammar.Quotes
import CatalogQuery.Proofs.Grammar.Shape
import CatalogQuery.Proofs.Source.Offsets

/-!
# Nodes stand between characters

Offsets of nodes are counted in the normal form, where a character may have become several blanks. A
place is `Aligned` with a source if it is a place between two characters of the source, too. Reading
keeps places aligned (`Reads.aligned`), for one of three reasons: what was read holds no blank, the
blanks at the place have all been skipped, or the text read is one between quotation marks, which
no blank stops. So every node of a parse tree is cut out of the source (`parse_cut`).
-/

namespace CatalogQuery.Grammar

open Source (InPlace byteLength piece?)

/-! ### Aligned places -/

namespace Cursor

/-- The place is between two characters of a source over which the text is written. -/
def Aligned (source : List Char) (c : Cursor) : Prop :=
  ∃ u v, source = u ++ v ∧ c.offset = byteLength u ∧ InPlace v c.rest

namespace Aligned

variable {source : List Char} {c c' : Cursor}

/-- The place after some characters, if these hold no blank. -/
theorem advance {w rest : List Char} (h : c.Aligned source) (hw : c.rest = w ++ rest)
    (hblank : ∀ x ∈ w, x ≠ ' ') : (c.advance w rest).Aligned source := by
  obtain ⟨u, v, rfl, hoffset, hv⟩ := h
  rw [hw] at hv
  obtain ⟨u', v', rfl, hlen, hv'⟩ := hv.pass hblank
  refine ⟨u ++ u', v', (List.append_assoc ..).symm, ?_, hv'⟩
  rw [Source.byteLength_append, ← hoffset, hlen]
  rfl

/-- A later place, if no blank stands there. -/
theorem of_before (h : c.Aligned source) (hc : c.Before c') (hblank : c'.rest.head? ≠ some ' ') :
    c'.Aligned source := by
  obtain ⟨u, v, rfl, hoffset, hv⟩ := h
  obtain ⟨w, hw, hoffset'⟩ := hc
  rw [hw] at hv
  obtain ⟨u', v', rfl, hlen, hv'⟩ := hv.split hblank
  refine ⟨u ++ u', v', (List.append_assoc ..).symm, ?_, hv'⟩
  rw [Source.byteLength_append, ← hoffset, hlen, hoffset']

/-- What stands between two aligned places is cut out of the source. -/
theorem piece (h : c.Aligned source) (h' : c'.Aligned source) (hle : c.offset ≤ c'.offset) :
    ∃ w, piece? c.offset c'.offset source = some w := by
  obtain ⟨u, v, rfl, hoffset, -⟩ := h
  obtain ⟨u', v', heq, hoffset', -⟩ := h'
  rw [hoffset, hoffset'] at hle ⊢
  rcases List.append_eq_append_iff.mp heq with ⟨w, rfl, rfl⟩ | ⟨w, rfl, rfl⟩
  · exact ⟨w, Source.piece?_eq_some_iff.mpr ⟨u, v', by rw [List.append_assoc], rfl, rfl⟩⟩
  · -- the earlier place does not lie behind the later one
    rw [Source.byteLength_append] at hle ⊢
    have hw : byteLength w = 0 := by omega
    refine ⟨[], Source.piece?_eq_some_iff.mpr ⟨u' ++ w, v, by rw [List.append_nil], ?_, ?_⟩⟩
    · rw [Source.byteLength_append]
    · rw [List.append_nil, Source.byteLength_append, hw, Nat.add_zero]

end Aligned

/-- Skipping ends at something else than a blank. -/
theorem head?_skipFrom (inComment : Bool) (offset : Nat) (cs : List Char) :
    (skipFrom inComment offset cs).1.head? ≠ some ' ' := by
  fun_induction skipFrom inComment offset cs with
  | case1 => simp
  | case2 => simp
  | case3 _ _ _ ih | case4 _ _ _ _ _ ih | case5 _ _ _ _ _ _ ih | case6 _ _ _ _ _ ih
  | case7 _ _ _ _ _ _ ih | case8 _ _ _ _ _ _ ih | case9 _ _ _ _ _ _ _ ih => exact ih
  | case10 => simp
  | case11 inComment offset c cs hblank =>
    -- blanks are what was skipped
    intro h
    cases h
    simp_all

theorem head?_skip (c : Cursor) {m : Mode} (hm : m.skips = true) :
    (c.skip m).rest.head? ≠ some ' ' := by
  rw [skip, if_pos hm]
  exact head?_skipFrom false c.offset c.rest

theorem Aligned.skip {source : List Char} {c : Cursor} (h : c.Aligned source) (m : Mode) :
    (c.skip m).Aligned source := by
  cases hm : m.skips with
  | true => exact h.of_before (c.before_skip m) (c.head?_skip hm)
  | false => rwa [c.skip_of_tight hm]

end Cursor

/-! ### Expressions that read no blanks -/

/-- The expression reads no blank, in a mode that skips or not, at a place where blanks have just
been skipped or not. Only the class of all characters has the blank, and only in some rules. -/
def Expr.sparing (skips fresh : Bool) : Expr → Bool
  | .nothing | .atEnd | .absent _ => true
  | .text t | .anyCase t => t.all (· != ' ')
  | .char k => k != .any || fresh
  | .rule r => (r != .program && r != .importStmt) || skips
  | .seq a b => a.sparing skips fresh && b.sparing skips skips
  | .choice a b => a.sparing skips fresh && b.sparing skips fresh
  | .optional a => a.sparing skips fresh
  | .many a => a.sparing skips fresh && a.sparing skips skips
  | .more a => a.sparing skips skips

theorem Mode.skips_inside (m : Mode) (f : Flavor) :
    (m.inside f).skips = (m.skips && f == .spaced) := by
  cases f <;> simp [Mode.inside]

/-- What stands between quotation marks may hold blanks, and nothing else may. -/
theorem sparing_body {r : Rule} (hdouble : r ≠ .doubleBody) (hsingle : r ≠ .singleBody) {m : Mode}
    (h : (r != .program && r != .importStmt || m.skips) = true) :
    r.body.sparing (m.inside r.flavor).skips false = true := by
  rw [m.skips_inside]
  generalize m.skips = skips at h
  cases r <;> first
    | exact absurd rfl hdouble
    | exact absurd rfl hsingle
    | (cases skips <;> first | decide | cases h)

/-! ### Reading keeps places aligned -/

/-- Each node of the tree is cut out of a source. -/
inductive ParseTree.Cut (source : List Char) : ParseTree → Prop where
  | node {r : Rule} {start stop : Nat} {text : List Char} {ts : List ParseTree}
      (hpiece : ∃ w, piece? start stop source = some w) (hts : ∀ t ∈ ts, t.Cut source) :
      Cut source (.node r start stop text ts)

theorem ne_blank_of_holds {k : CharClass} {c : Char} (hk : k ≠ .any) (hc : k.holds c = true) :
    c ≠ ' ' := by
  rintro rfl
  cases k with
  | any => exact hk rfl
  | digit | letter | alphanumeric => cases hc

section Aligned

variable {source : List Char} {m : Mode} {c c' : Cursor} {ts : List ParseTree}

/-- The body of a rule keeps places aligned if it does where it is sparing: between quotation marks
it ends at a mark, a backslash or a line break, or with the text. -/
theorem Reads.aligned_body {r : Rule} (h : Reads (m.inside r.flavor) r.body c (some (c', ts)))
    (ih : r.body.sparing (m.inside r.flavor).skips false = true →
      c'.Aligned source ∧ ∀ t ∈ ts, t.Cut source)
    (hr : (r != .program && r != .importStmt || m.skips) = true) (hc : c.Aligned source) :
    c'.Aligned source ∧ ∀ t ∈ ts, t.Cut source := by
  -- a quoted body ends at a stop, which no blank is
  have hquoted : ∀ (s : String) (mark : Char), s.toList = [mark] → ' ' ∉ quoteStops mark →
      r.flavor = .token → r.body = quotedBody s →
      c'.Aligned source ∧ ∀ t ∈ ts, t.Cut source := by
    intro s mark hs hblank hflavor hbody
    rw [hflavor, hbody] at h
    obtain ⟨-, -, -, hstop⟩ := h.of_quotedBody hs rfl
    rw [h.eq_nil rfl]
    exact ⟨hc.of_before h.before fun hx => hblank (hstop _ hx), by simp⟩
  by_cases hdouble : r = .doubleBody
  · subst hdouble
    exact hquoted "\"" '"' rfl (by decide) rfl rfl
  by_cases hsingle : r = .singleBody
  · subst hsingle
    exact hquoted "'" '\'' rfl (by decide) rfl rfl
  exact ih (sparing_body hdouble hsingle hr)

/-- **Reading keeps places aligned**, and what it finds is cut out of the source. -/
theorem Reads.aligned {e : Expr} (h : Reads m e c (some (c', ts))) {fresh : Bool}
    (he : e.sparing m.skips fresh = true) (hfresh : fresh = true → c.rest.head? ≠ some ' ')
    (hc : c.Aligned source) : c'.Aligned source ∧ ∀ t ∈ ts, t.Cut source := by
  generalize ho : some (c', ts) = o at h
  induction h generalizing c' ts fresh with
  | nothing | atEnd | optional_none | many_none | more_none | absent =>
    cases ho
    exact ⟨hc, by simp⟩
  | text h =>
    cases ho
    have hblank := List.all_eq_true.mp he
    exact ⟨hc.advance h fun x hx => by simpa using hblank x hx, by simp⟩
  | @anyCase _ _ t w rest h hw =>
    -- a blank in the spelling would be a blank of the word
    cases ho
    have hblank := List.all_eq_true.mp he
    refine ⟨hc.advance h ?_, by simp⟩
    rintro x hx rfl
    have hmem : ' ' ∈ t := hw ▸ List.mem_map.mpr ⟨' ', hx, rfl⟩
    exact absurd (hblank _ hmem) (by decide)
  | @char _ _ k x rest h hx =>
    -- a class without blanks, or any character behind what was skipped
    cases ho
    refine ⟨hc.advance h (List.forall_mem_singleton.mpr ?_), by simp⟩
    rcases Bool.or_eq_true_iff.mp he with hk | hk
    · exact ne_blank_of_holds (by simpa using hk) hx
    · rintro rfl
      exact hfresh hk (by rw [h]; rfl)
  | @node m c c' r ts hm h ih =>
    -- the node is cut out from where the rule begins to where it ends
    cases ho
    obtain ⟨hc', hts⟩ := h.aligned_body (fun hbody => ih hbody (by simp) hc rfl) he hc
    obtain ⟨w, -, hoffset⟩ := h.before
    exact ⟨hc', List.forall_mem_singleton.mpr (.node (hc.piece hc' (by omega)) hts)⟩
  | bare hm h ih =>
    cases ho
    exact h.aligned_body (fun hbody => ih hbody (by simp) hc rfl) he hc
  | @seq m c c₁ _ _ _ _ _ _ _ iha ihb =>
    cases ho
    obtain ⟨ha, hb⟩ := Bool.and_eq_true_iff.mp he
    obtain ⟨hc₁, hts⟩ := iha ha hfresh hc rfl
    -- the second part begins where skipping has ended
    obtain ⟨hc₂, hus⟩ := ihb hb (fun hm => c₁.head?_skip hm) (hc₁.skip m) rfl
    exact ⟨hc₂, List.forall_mem_append.mpr ⟨hts, hus⟩⟩
  | choice_left _ iha => exact iha (Bool.and_eq_true_iff.mp he).1 hfresh hc ho
  | choice_right _ _ _ ihb => exact ihb (Bool.and_eq_true_iff.mp he).2 hfresh hc ho
  | optional_some _ iha => exact iha he hfresh hc ho
  | @many_some _ _ c₁ _ _ _ _ _ _ iha ihmore =>
    cases ho
    obtain ⟨ha, hmore⟩ := Bool.and_eq_true_iff.mp he
    obtain ⟨hc₁, hts⟩ := iha ha hfresh hc rfl
    -- a repetition is not fresh, as no skipping comes right before it
    have hlater : (false = true) → c₁.rest.head? ≠ some ' ' := by rintro ⟨⟩
    obtain ⟨hc₂, hus⟩ := ihmore hmore hlater hc₁ rfl
    exact ⟨hc₂, List.forall_mem_append.mpr ⟨hts, hus⟩⟩
  | @more_some m c c₁ _ a _ _ _ _ iha ihmore =>
    cases ho
    obtain ⟨hc₁, hts⟩ := iha he (fun hm => c.head?_skip hm) (hc.skip m) rfl
    have hlater : (false = true) → c₁.rest.head? ≠ some ' ' := by rintro ⟨⟩
    have hmore : (Expr.more a).sparing m.skips false = true := he
    obtain ⟨hc₂, hus⟩ := ihmore hmore hlater hc₁ rfl
    exact ⟨hc₂, List.forall_mem_append.mpr ⟨hts, hus⟩⟩
  | atEnd_fails | text_fails | anyCase_fails | char_fails | rule_fails | seq_fails_left
  | seq_fails_right | absent_fails => cases ho

end Aligned

/-- **Each node of the tree of a normal form is cut out of the source.** -/
theorem parse_cut {source : List Char} {tree : ParseTree}
    (h : parse (Source.normalizeChars source) = .ok tree) : tree.Cut source := by
  obtain ⟨c, hc⟩ := parse_eq_ok_iff.mp h
  have hstart : Cursor.Aligned source ⟨Source.normalizeChars source, 0⟩ :=
    ⟨[], source, rfl, rfl, Source.normalizeChars_inPlace source⟩
  have hsparing : (Expr.rule .program).sparing true false = true := rfl
  obtain ⟨-, htree⟩ := hc.aligned hsparing (by simp) hstart
  exact htree tree (List.mem_singleton_self tree)

end CatalogQuery.Grammar
