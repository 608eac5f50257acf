import CatalogQuery.Proofs.Grammar.Carried
import CatalogQuery.Proofs.Draft.Narrow
import CatalogQuery.Proofs.Source.Passed

/-!
# Reading across a change

Two texts are `Across` a change if the same text, one that leads to code (`Source.Passed`), stands
in front of it. Reading comes to the change in both or in none, because it begins with a character
that no expression reads and that is skipped, if at all, after what stands in front
(`Source.Passed.skipped`). So there are two cases. If the same is left after skipping either side of
the change, the texts are read alike (`carries_changed`). If nothing can be skipped, neither text is
read to its end (`carries_stuck`).

A program of one expression is read alike if its text is (`Source.statement_carried`).
-/

namespace CatalogQuery

namespace Grammar

open Source (Passed codeEnds lineEnds)

/-! ### Skipping in front of a change -/

/-- A blank or a backslash stands first. -/
def Breaks (y : List Char) : Prop := ∃ c cs, y = c :: cs ∧ c ∈ [' ', '\\']

theorem skipped_return_feed (cs : List Char) :
    skipped ('\\' :: '\r' :: '\n' :: cs) = skipped cs := by
  unfold skipped
  conv_lhs => unfold skipFrom
  exact skipFrom_rest false 3 0 cs

theorem skipped_return {cs : List Char} (h : cs.head? ≠ some '\n') :
    skipped ('\\' :: '\r' :: cs) = skipped cs := by
  unfold skipped
  conv_lhs => unfold skipFrom
  rw [if_neg (by decide), if_neg (by decide), if_neg (by decide), if_pos rfl]
  cases cs with
  | nil => rfl
  | cons c cs =>
    have hc : c ≠ '\n' := by simpa using h
    split
    · rename_i heq
      exact absurd (List.cons.inj heq).1 (by decide)
    · rename_i heq
      -- the two characters of a line end
      exact absurd (List.cons.inj (List.cons.inj heq).2).1 hc
    · rename_i heq
      rw [← (List.cons.inj heq).2]
      exact skipFrom_rest false 2 0 _
    · rename_i hreturn
      exact absurd rfl (hreturn _)

/-- A backslash is not skipped by itself. -/
theorem skipped_backslash_alone {cs : List Char} (h : ∀ c ∈ cs.head?, c ∉ lineEnds) :
    skipped ('\\' :: cs) = '\\' :: cs := by
  unfold skipped
  conv_lhs => unfold skipFrom
  rw [if_neg (by decide), if_neg (by decide), if_neg (by decide), if_pos rfl]
  split
  · exact absurd (by decide) (h '\n' rfl)
  · exact absurd (by decide) (h '\r' rfl)
  · exact absurd (by decide) (h '\r' rfl)
  · rfl

/-- A comment is skipped up to the end of its line. -/
theorem skipped_comment {w : List Char} (hw : ∀ x ∈ w, x ∉ lineEnds) {c : Char} (hc : c ∈ lineEnds)
    (cs : List Char) : skipped ('#' :: (w ++ c :: cs)) = skipped (c :: cs) := by
  -- the offset grows inside the comment, so that the induction is over all of them
  have hcomment : ∀ o, (skipFrom true o (w ++ c :: cs)).1 = skipped (c :: cs) := by
    induction w with
    | nil =>
      intro o
      rw [List.nil_append]
      simp only [lineEnds, List.mem_cons, List.not_mem_nil, or_false] at hc
      rcases hc with rfl | rfl
      · rw [skipped_cons (by decide)]
        unfold skipFrom
        rfl
      · rw [skipped_of_blank (by decide)]
        unfold skipFrom
        exact skipFrom_rest false _ 0 cs
    | cons x w ih =>
      intro o
      obtain ⟨hx, hw⟩ := List.forall_mem_cons.mp hw
      simp only [lineEnds, List.mem_cons, List.not_mem_nil, or_false, not_or] at hx
      rw [List.cons_append]
      unfold skipFrom
      rw [if_pos rfl, if_neg hx.1, if_neg hx.2]
      exact ih hw _
  unfold skipped
  conv_lhs => unfold skipFrom
  exact hcomment 1

/-- A backslash of code stays, or what is skipped with it belongs to the text in front of the
change. -/
theorem skipped_backslash_passed {v : List Char} (h : Passed v) :
    (∀ y, Breaks y → skipped ('\\' :: (v ++ y)) = '\\' :: (v ++ y)) ∨
      ∃ u, Passed u ∧ u.length ≤ v.length ∧
        ∀ y, Breaks y → skipped ('\\' :: (v ++ y)) = skipped (u ++ y) := by
  -- the change begins with no end of a line, so that nothing is skipped together with it
  have hhead : ∀ {y}, Breaks y → ∀ c ∈ y.head?, c ∉ lineEnds := by
    rintro _ ⟨c, cs, rfl, hc⟩ _ ⟨⟩
    exact (by decide : ∀ x ∈ [' ', '\\'], x ∉ lineEnds) c hc
  have hfeed : ∀ {y : List Char}, (∀ c ∈ y.head?, c ∉ lineEnds) → y.head? ≠ some '\n' :=
    fun hy h => hy '\n' h (by decide)
  cases v with
  | nil => exact .inl fun y hy => skipped_backslash_alone (hhead hy)
  | cons x u =>
    by_cases hx : x ∈ lineEnds
    · have hu : Passed u := h.of_code ((by decide : ∀ x ∈ lineEnds, x ∉ codeEnds) x hx)
      simp only [lineEnds, List.mem_cons, List.not_mem_nil, or_false] at hx
      rcases hx with rfl | rfl
      · exact .inr ⟨u, hu, by simp, fun y _ => skipped_feed (u ++ y)⟩
      · cases u with
        | nil => exact .inr ⟨[], .nil, by simp, fun y hy => skipped_return (hfeed (hhead hy))⟩
        | cons z w =>
          by_cases hz : z = '\n'
          · subst hz
            exact .inr ⟨w, hu.of_code (by decide), by simp; omega,
              fun y _ => skipped_return_feed (w ++ y)⟩
          · exact .inr ⟨z :: w, hu, by simp, fun y _ => skipped_return (by simpa using hz)⟩
    · refine .inl fun y _ => skipped_backslash_alone ?_
      rintro _ ⟨⟩
      exact hx

end Grammar

namespace Source

open Grammar

/-- **Skipping in front of a change** stays there, or passes all that is there and goes on with the
change. -/
theorem Passed.skipped {v : List Char} (h : Passed v) :
    (∃ u, Passed u ∧ ∀ y, Breaks y → Grammar.skipped (v ++ y) = u ++ y) ∨
      ∀ y, Breaks y → Grammar.skipped (v ++ y) = Grammar.skipped y := by
  induction hn : v.length using Nat.strong_induction_on generalizing v with
  | _ n ih =>
  have hv := h
  -- what begins with a character that is not skipped stays as it is
  have hstays : ∀ {c w}, v = c :: w → Solid c →
      ∃ u, Passed u ∧ ∀ y, Breaks y → Grammar.skipped (v ++ y) = u ++ y := by
    rintro c w rfl hc
    exact ⟨_, hv, fun y _ => skipped_cons hc _⟩
  cases h with
  | nil => exact .inr fun y _ => rfl
  | quoted hmark =>
    exact .inl (hstays rfl ((by decide : ∀ x ∈ quoteMarks, Solid x) _ hmark))
  | cut hmark =>
    exact .inl (hstays rfl ((by decide : ∀ x ∈ quoteMarks, Solid x) _ hmark))
  | @comment c w u hw hc hu =>
    have hsame : ∀ y, Grammar.skipped ('#' :: (w ++ c :: u) ++ y) = Grammar.skipped (c :: u ++ y) := by
      intro y
      rw [List.cons_append, List.append_assoc]
      exact skipped_comment hw hc (u ++ y)
    have hlt : (c :: u).length < n := by
      rw [← hn]
      simp only [List.length_cons, List.length_append]
      omega
    simp only [hsame]
    exact ih (c :: u).length hlt hu rfl
  | @code c u hc hu =>
    by_cases hblank : c ∈ [' ', '\t', '\r']
    · have hsame : ∀ y, Grammar.skipped (c :: u ++ y) = Grammar.skipped (u ++ y) := fun y =>
        skipped_of_blank hblank (u ++ y)
      simp only [hsame]
      exact ih u.length (by rw [← hn]; simp) hu rfl
    by_cases hbackslash : c = '\\'
    · subst hbackslash
      rcases skipped_backslash_passed hu with hsame | ⟨r, hr, hlength, hsame⟩
      · exact .inl ⟨_, hv, hsame⟩
      · have hlt : r.length < n := by
          rw [← hn, List.length_cons]
          omega
        refine (ih r.length hlt hr rfl).imp ?_ ?_
        · rintro ⟨u', hu', hskipped⟩
          exact ⟨u', hu', fun y hy => (hsame y hy).trans (hskipped y hy)⟩
        · intro hskipped y hy
          exact (hsame y hy).trans (hskipped y hy)
    · refine .inl (hstays rfl ?_)
      have hhash : c ≠ '#' := fun h => hc (by simp [codeEnds, h])
      simp only [List.mem_cons, List.not_mem_nil, or_false, not_or] at hblank
      simp [Solid, hblank, hhash, hbackslash]

end Source

namespace Grammar

open Source (Passed codeEnds lineEnds)

/-! ### Relations across a change -/

/-- The same text that leads to code stands in front of what was changed. -/
def Across (y y' s t : List Char) : Prop := ∃ v, Passed v ∧ s = v ++ y ∧ t = v ++ y'

/-- The texts are `Across` the change, or behind it. -/
def Changed (y y' s t : List Char) : Prop := s = t ∨ Across y y' s t

/-- A stop in quoted text is at one place only, unless it is a backslash. -/
theorem QuotedText.unique {mark : Char} {w w' : List Char} (hw : QuotedText mark w)
    (hw' : QuotedText mark w') {c c' : Char} (hc : c ∈ quoteStops mark) (hc' : c' ∈ quoteStops mark)
    (hbackslash : c ≠ '\\') (hbackslash' : c' ≠ '\\') {r r' : List Char}
    (h : w ++ c :: r = w' ++ c' :: r') : w = w' ∧ c = c' ∧ r = r' := by
  have hstop : '\\' ∈ quoteStops mark := by simp [quoteStops]
  induction hw generalizing w' with
  | nil =>
    cases hw' with
    | nil => exact ⟨rfl, List.cons.inj h⟩
    -- one text ends where the other goes on
    | escaped => exact absurd (List.cons.inj h).1 hbackslash
    | plain hx => exact absurd ((List.cons.inj h).1 ▸ hc) hx
  | escaped x hw ih =>
    cases hw' with
    | nil => exact absurd (List.cons.inj h).1.symm hbackslash'
    | escaped x' hw' =>
      -- both escape the same character
      obtain ⟨rfl, htail⟩ := List.cons.inj (List.cons.inj h).2
      obtain ⟨rfl, hrest⟩ := ih hw' htail
      exact ⟨rfl, hrest⟩
    | plain hx => exact absurd ((List.cons.inj h).1 ▸ hstop) hx
  | plain hx hw ih =>
    cases hw' with
    | nil => exact absurd ((List.cons.inj h).1 ▸ hc') hx
    | escaped => exact absurd ((List.cons.inj h).1 ▸ hstop) hx
    | plain hx' hw' =>
      obtain ⟨rfl, htail⟩ := List.cons.inj h
      obtain ⟨rfl, hrest⟩ := ih hw' htail
      exact ⟨rfl, hrest⟩

section Across

variable {y y' s t w : List Char} {c mark : Char}

theorem across_flip : flip (Across y y') = Across y' y := by
  funext s t
  exact propext ⟨fun ⟨v, hv, hs, ht⟩ => ⟨v, hv, ht, hs⟩, fun ⟨v, hv, hs, ht⟩ => ⟨v, hv, ht, hs⟩⟩

theorem changed_flip : flip (Changed y y') = Changed y' y := by
  funext s t
  show (t = s ∨ flip (Across y y') s t) = (s = t ∨ Across y' y s t)
  rw [across_flip, @eq_comm _ t s]

theorem Across.ne_nil (hy : Breaks y) : ¬ Across y y' [] t := by
  rintro ⟨v, -, hs, -⟩
  obtain ⟨c, cs, rfl, -⟩ := hy
  simp at hs

/-- Code in front of the change is passed. -/
theorem Across.cons (hy : Breaks y) (hc : Ordinary c) (h : Across y y' (c :: s) t) :
    ∃ t', t = c :: t' ∧ Across y y' s t' := by
  obtain ⟨v, hv, hs, rfl⟩ := h
  cases v with
  | nil =>
    -- the change begins with no character of code
    obtain ⟨x, cs, rfl, hx⟩ := hy
    obtain rfl := (List.cons.inj hs).1
    exact absurd hc ((by decide : ∀ x ∈ [' ', '\\'], ¬ Ordinary x) c hx)
  | cons x v =>
    obtain ⟨rfl, rfl⟩ := List.cons.inj hs
    have hcode : c ∉ codeEnds := fun h => (by decide : ∀ x ∈ codeEnds, ¬ Ordinary x) c h hc
    exact ⟨v ++ y', rfl, v, hv.of_code hcode, rfl, rfl⟩

/-- Quoted text in front of the change is passed as a whole. -/
theorem Across.quote (hy : Breaks y) (hmark : mark ∈ quoteMarks) (hw : QuotedText mark w)
    (h : Across y y' (mark :: (w ++ mark :: s)) t) :
    ∃ t', t = mark :: (w ++ mark :: t') ∧ Across y y' s t' := by
  obtain ⟨v, hv, hs, rfl⟩ := h
  cases v with
  | nil =>
    obtain ⟨x, cs, rfl, hx⟩ := hy
    obtain rfl := (List.cons.inj hs).1
    exact absurd hmark ((by decide : ∀ x ∈ [' ', '\\'], x ∉ quoteMarks) mark hx)
  | cons x v =>
    obtain ⟨rfl, htail⟩ := List.cons.inj hs
    have hstop : mark ∈ quoteStops mark := by simp [quoteStops]
    have hbackslash : mark ≠ '\\' := (by decide : ∀ x ∈ quoteMarks, x ≠ '\\') mark hmark
    obtain ⟨w', u, rfl, hw', hu⟩ | ⟨w', c, u, rfl, hw', hc⟩ := hv.of_mark hmark
    · have htail : w ++ mark :: s = w' ++ mark :: (u ++ y) := by simpa using htail
      obtain ⟨rfl, -, rfl⟩ := hw.unique hw' hstop hstop hbackslash hbackslash htail
      exact ⟨u ++ y', by simp, u, hu, rfl, rfl⟩
    · -- the quoted text would have been cut off
      have htail : w ++ mark :: s = w' ++ c :: (u ++ y) := by simpa using htail
      have hbreak : c ∈ quoteStops mark ∧ c ≠ '\\' ∧ c ∉ quoteMarks := by
        simp only [lineEnds, List.mem_cons, List.not_mem_nil, or_false] at hc
        rcases hc with rfl | rfl <;> simp [quoteStops, quoteMarks]
      obtain ⟨-, rfl, -⟩ := hw.unique hw' hstop hbreak.1 hbackslash hbreak.2.1 htail
      exact absurd hmark hbreak.2.2

/-- Skipping stays in front of the change in both texts, or goes on with the change in both. -/
theorem Across.skip (hy : Breaks y) (hy' : Breaks y') (h : Across y y' s t) :
    Across y y' (skipped s) (skipped t) ∨ (skipped s = skipped y ∧ skipped t = skipped y') := by
  obtain ⟨v, hv, rfl, rfl⟩ := h
  obtain ⟨u, hu, hsame⟩ | hsame := hv.skipped
  · exact .inl ⟨u, hu, hsame y hy, hsame y' hy'⟩
  · exact .inr ⟨hsame y hy, hsame y' hy'⟩

/-- **Where both sides of the change are skipped to the same text**, the texts are read alike. -/
theorem carries_changed (hy : Breaks y) (hy' : Breaks y') (hskip : skipped y = skipped y') :
    Carries (Changed y y') where
  nil h := by
    rcases h with rfl | h
    · rfl
    · -- the place of the change is not the end of the text
      exact absurd h (Across.ne_nil hy)
  skip h := by
    rcases h with rfl | h
    · exact .inl rfl
    · rcases h.skip hy hy' with h | ⟨hs, ht⟩
      · exact .inr h
      · -- the change itself is skipped
        exact .inl (by rw [hs, ht, hskip])
  cons hc h := by
    rcases h with rfl | h
    · exact ⟨_, rfl, .inl rfl⟩
    · obtain ⟨t', ht, h⟩ := h.cons hy hc
      exact ⟨t', ht, .inr h⟩
  quote hmark hw h := by
    rcases h with rfl | h
    · exact ⟨_, rfl, .inl rfl⟩
    · obtain ⟨t', ht, h⟩ := h.quote hy hmark hw
      exact ⟨t', ht, .inr h⟩

/-- **Where nothing of the change is skipped**, reading stays in front of it. -/
theorem carries_stuck (hy : Breaks y) (hskip : skipped y = y) : Carries (Across y y) where
  nil h := absurd h (Across.ne_nil hy)
  skip h := by
    rcases h.skip hy hy with h | ⟨hs, ht⟩
    · exact h
    · exact ⟨[], .nil, by rw [hs, hskip]; rfl, by rw [ht, hskip]; rfl⟩
  cons hc h := h.cons hy hc
  quote hmark hw h := h.quote hy hmark hw

end Across

/-! ### Programs -/

section Programs

variable {R : List Char → List Char → Prop} {m : Mode} {c c' : Cursor} {t : List Char}
  {ts : List ParseTree}

/-- Any character is read but the end. -/
theorem Reads.rest_of_any (h : Reads m (.char .any) c none) : c.rest = [] := by
  cases h with
  | char_fails h =>
    cases hrest : c.rest with
    | nil => rfl
    | cons x cs =>
      rw [hrest] at h
      exact absurd (h x rfl) (by simp [CharClass.holds])

section Refused

variable (hR : Carries R) (hR' : Carries (flip R))

include hR hR'

/-- What stands for one character of an import is refused at the end of its line. -/
theorem Reads.import_character_refused
    (h : Reads m (.sequence [.absent separator, .char .any]) c none) (hc : R c.rest t) :
    Refuses m (.sequence [.absent separator, .char .any]) t := by
  cases h with
  | seq_fails_left h => exact .seq_left (Reads.carried hR hR' h (by decide) hc)
  | seq_fails_right hseparator h =>
    obtain ⟨t₁, ht₁, hseparator, -⟩ := Reads.carried hR hR' hseparator (by decide) hc
    -- the first text is at its end, and so is the second one
    have hnext := hR.next m ht₁
    rw [h.rest_of_any] at hnext
    refine .seq_right hseparator fun o => .char_fails ?_
    rw [hR.nil hnext]
    rintro _ ⟨⟩

/-- No import begins in a text if none begins in a related one. -/
theorem Reads.import_refused (h : Reads m (.rule .importStmt) c none) (hc : R c.rest t) :
    Refuses m (.rule .importStmt) t := by
  cases h with
  | rule_fails h =>
  refine .rule ?_
  cases h with
  -- there is no word to begin with
  | seq_fails_left h => exact .seq_left (Reads.carried hR hR' h (by decide) hc)
  | @seq_fails_right _ _ c₁ _ _ _ hword h =>
    -- or nothing behind the word
    obtain ⟨t₁, ht₁, hword, -⟩ := Reads.carried hR hR' hword (by decide) hc
    refine .seq_right hword ?_
    have hnext := hR.next (m.inside Rule.importStmt.flavor) ht₁
    cases h with
    | seq_fails_left h => exact .seq_left (h.import_character_refused hR hR' hnext)
    | seq_fails_right _ h => cases h

/-- No statement begins in a text if none begins in a related one. -/
theorem Reads.statement_refused (h : Reads m statement c none) (hc : R c.rest t) :
    Refuses m statement t := by
  cases h with
  | choice_right himport h =>
    exact .choice (himport.import_refused hR hR' hc) (Reads.carried hR hR' h (by decide) hc)

/-- No further statement follows in a text if none follows in a related one. -/
theorem Reads.further_refused (h : Reads m (.seq (Expr.manyOne separator) statement) c none)
    (hc : R c.rest t) : Refuses m (.seq (Expr.manyOne separator) statement) t := by
  cases h with
  | seq_fails_left h => exact .seq_left (Reads.carried hR hR' h (by decide) hc)
  | seq_fails_right hseparators h =>
    obtain ⟨t₁, ht₁, hseparators, -⟩ := Reads.carried hR hR' hseparators (by decide) hc
    have hnext := hR.next m ht₁
    exact .seq_right hseparators (h.statement_refused hR hR' hnext)

/-- **A program of one expression is read of related texts alike.** It ends where both texts do. -/
theorem Reads.program_carried (h : Reads .spaced Rule.program.body c (some (c', ts)))
    {tree : ParseTree} (hts : ts.filter (·.rule != .endOfInput) = [tree])
    (htree : tree.rule = .exprStmt) (hc : R c.rest t) :
    R [] [] ∧ Matches .spaced Rule.program.body t [] fun us => ∃ tree' final, us = [tree', final] ∧
      tree'.rule = .exprStmt ∧ final.rule = .endOfInput ∧ tree'.bare = tree.bare := by
  -- `c₁`, `c₂` and `c₃` are where the expression begins, where it ends and where the program ends
  obtain ⟨c₁, c₂, c₃, hbefore, himport, hassign, hexpr, hfurther, hafter, hend⟩ :=
    h.program_parts hts htree
  have hnext : ∀ {d : Cursor} {u : List Char}, R d.rest u →
      R (d.skip .spaced).rest (Mode.spaced.next u) := hR.next .spaced
  obtain ⟨t₁, ht₁, hbefore, -⟩ := Reads.carried hR hR' hbefore (by decide) (hnext hc)
  -- the parts that were not read: no import and no assignment begins, no further statement follows
  have himport := himport.import_refused hR hR' (hnext ht₁)
  have hassign : Refuses _ _ _ := Reads.carried hR hR' hassign (by decide) (hnext ht₁)
  obtain ⟨t₂, ht₂, hexpr, -⟩ := Reads.carried hR hR' hexpr (by decide) (hnext ht₁)
  have hfurther := hfurther.further_refused hR hR' (hnext ht₂)
  obtain ⟨t₃, ht₃, hafter, -⟩ := Reads.carried hR hR' hafter (by decide) (hnext (hnext ht₂))
  have hlast := hnext ht₃
  rw [hend] at hlast
  have hnil := hR.nil hlast
  rw [hnil] at hlast
  have hstatement : Matches .spaced statement (Mode.spaced.next t₁) t₂ _ :=
    .choice_right himport (.choice_right hassign hexpr)
  have hstatements := (hstatement.seq (.many_none hfurther)).optional_some
  have hrest := hafter.seq (by rw [hnil]; exact endOfInput_matches)
  refine ⟨hlast, (Matches.nothing.seq (hbefore.seq (hstatements.seq hrest))).imp ?_⟩
  rintro _ ⟨_, _, rfl, rfl, _, _, rfl, hseparators, _, _, rfl, ⟨us, _, rfl, hus, rfl⟩, _, _, rfl,
    hseparators', final, rfl, hfinal⟩
  obtain rfl := List.map_eq_nil_iff.mp hseparators
  obtain rfl := List.map_eq_nil_iff.mp hseparators'
  obtain ⟨tree', rfl, hbare⟩ : ∃ tree', us = [tree'] ∧ tree'.bare = tree.bare := by
    rw [List.map_singleton] at hus
    exact List.map_eq_singleton_iff.mp hus
  refine ⟨tree', final, rfl, ?_, hfinal, hbare⟩
  rw [← ParseTree.rule_bare, hbare, ParseTree.rule_bare, htree]

end Refused

end Programs

end Grammar

open Grammar

/-- **Related texts have the same statement**, up to texts that are spaced. -/
theorem Source.statement_carried {R : List Char → List Char → Prop} (hR : Carries R)
    (hR' : Carries (flip R)) {cs cs' : List Char} {source : String} {t : ParseTree}
    (h : Source.statement source cs = .ok t) (hc : R cs cs') (source' : String) :
    R [] [] ∧ ∃ t', Source.statement source' cs' = .ok t' ∧ t'.bare = t.bare := by
  obtain ⟨tree, htree, hts, hrule⟩ := Source.statement_ok h
  obtain ⟨c, hreads⟩ := parse_eq_ok_iff.mp htree
  cases hreads with
  | bare hm => cases hm
  | node _ hreads =>
    obtain ⟨hend, hmatches⟩ := hreads.program_carried hR hR' hts hrule hc
    -- the second program is the same statement and the end of the input
    obtain ⟨o, us, hus, t', final, rfl, ht', hfinal, hbare⟩ := hmatches 0
    exact ⟨hend, t', Source.statement_of_reads (.node rfl hus) rfl ht' hfinal source', hbare⟩

end CatalogQuery
