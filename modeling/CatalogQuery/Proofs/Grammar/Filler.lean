import CatalogQuery.Proofs.Grammar.Chains
import CatalogQuery.Proofs.Grammar.Shape
import CatalogQuery.Proofs.Source.Passed

/-!
# What stands between statements

A `Filler` is a text of blanks, comments, line breaks and semicolons. What skipping and separators
pass over is a filler (`Cursor.passes_skip`, `Reads.passes_many`), and where they end none begins
(`not_filler`). All of a filler is passed over in this way, so that it is a program without
statements (`Filler.program_matches`).
-/

namespace CatalogQuery.Grammar

open Source (byteLength lineEnds)

/-! ### Fillers -/

/-- The characters that stand between statements by themselves. -/
def fillers : List Char := [' ', '\t', '\r', '\n', ';']

/-- A text of blanks, comments, line breaks and semicolons. -/
inductive Filler : List Char → Prop where
  | nil : Filler []
  | plain {c : Char} {v : List Char} (hc : c ∈ fillers) (h : Filler v) : Filler (c :: v)
  /-- A line that goes on after a backslash. -/
  | continued {c : Char} {v : List Char} (hc : c ∈ lineEnds) (h : Filler v) : Filler ('\\' :: c :: v)
  /-- A comment, up to the end of its line or of the text. -/
  | comment {w v : List Char} (hw : ∀ c ∈ w, c ∉ lineEnds) (hv : ∀ c ∈ v.head?, c ∈ lineEnds)
      (h : Filler v) : Filler ('#' :: (w ++ v))

namespace Filler

variable {c : Char} {v w : List Char}

theorem mem_fillers_of_mem_lineEnds : ∀ c ∈ lineEnds, c ∈ fillers := by decide

/-! What follows the first character is told by the character. -/

theorem of_plain (h : Filler (c :: v)) (hc : c ∈ fillers) : Filler v := by
  cases h with
  | plain _ h => exact h
  | continued | comment => exact absurd hc (by decide)

theorem of_backslash (h : Filler ('\\' :: v)) : ∃ c u, v = c :: u ∧ c ∈ lineEnds ∧ Filler u := by
  cases h with
  | plain hc => exact absurd hc (by decide)
  | continued hc h => exact ⟨_, _, rfl, hc, h⟩

theorem of_hash (h : Filler ('#' :: v)) :
    ∃ w u, v = w ++ u ∧ (∀ c ∈ w, c ∉ lineEnds) ∧ (∀ c ∈ u.head?, c ∈ lineEnds) ∧ Filler u := by
  cases h with
  | plain hc => exact absurd hc (by decide)
  | comment hw hv h => exact ⟨_, _, rfl, hw, hv, h⟩

/-- Inside a comment a filler goes on with the next character. -/
theorem of_comment_cons (h : Filler ('#' :: c :: v)) (hc : c ∉ lineEnds) : Filler ('#' :: v) := by
  obtain ⟨w, u, heq, hw, hu, hend⟩ := h.of_hash
  cases w with
  | nil =>
    obtain rfl : c :: v = u := heq
    exact absurd (hu c rfl) hc
  | cons x w =>
    obtain ⟨rfl, rfl⟩ := List.cons.inj heq
    exact .comment (List.forall_mem_cons.mp hw).2 hu hend

/-- With its line a comment ends. -/
theorem of_comment_end (h : Filler ('#' :: c :: v)) (hc : c ∈ lineEnds) : Filler (c :: v) := by
  obtain ⟨w, u, heq, hw, -, h⟩ := h.of_hash
  cases w with
  | nil => exact heq ▸ h
  | cons x w =>
    obtain ⟨rfl, -⟩ := List.cons.inj heq
    exact absurd hc (hw c List.mem_cons_self)

/-- A character of a comment. -/
theorem comment_cons (hc : c ∉ lineEnds) (h : Filler ('#' :: v)) : Filler ('#' :: c :: v) := by
  obtain ⟨w, u, rfl, hw, hu, h⟩ := h.of_hash
  exact .comment (w := c :: w) (List.forall_mem_cons.mpr ⟨hc, hw⟩) hu h

/-- The end of the line of a comment. -/
theorem comment_end (hc : c ∈ lineEnds) (h : Filler v) : Filler ('#' :: c :: v) :=
  .comment (w := []) (List.forall_mem_nil _) (by rintro _ ⟨⟩; exact hc)
    (.plain (mem_fillers_of_mem_lineEnds c hc) h)

theorem of_forall (h : ∀ c ∈ v, c ∈ fillers) : Filler v := by
  induction v with
  | nil => exact .nil
  | cons c v ih =>
    obtain ⟨hc, hv⟩ := List.forall_mem_cons.mp h
    exact .plain hc (ih hv)

/-- A filler is one behind `#`, too: what ends the comment is the first line break. -/
theorem commented (h : Filler v) : Filler ('#' :: v) := by
  induction h with
  | nil => exact .comment (w := []) (List.forall_mem_nil _) (by rintro _ ⟨⟩) .nil
  | @plain c v hc h ih =>
    by_cases hend : c ∈ lineEnds
    · exact .comment_end hend h
    · exact ih.comment_cons hend
  | continued hc h _ => exact (comment_end hc h).comment_cons (by decide)
  | comment hw hv h _ => exact (comment hw hv h).comment_cons (by decide)

theorem append (hw : Filler w) (hv : Filler v) : Filler (w ++ v) := by
  induction hw with
  | nil => exact hv
  | plain hc _ ih => exact .plain hc ih
  | continued hc _ ih => exact .continued hc ih
  | @comment w u hw hu _ ih =>
    rw [List.cons_append, List.append_assoc]
    -- the line of a comment goes on in front of what was appended
    clear hu
    induction w with
    | nil => exact ih.commented
    | cons c w ihw =>
      obtain ⟨hc, hw⟩ := List.forall_mem_cons.mp hw
      exact (ihw hw).comment_cons hc

end Filler

/-! ### Passing over fillers -/

/-- The second place is reached from the first by passing over a filler. -/
def Cursor.Passes (c c' : Cursor) : Prop :=
  ∃ v, Filler v ∧ c.rest = v ++ c'.rest ∧ c'.offset = c.offset + byteLength v

namespace Cursor

variable {c c₁ c₂ c₃ : Cursor}

theorem Passes.refl (c : Cursor) : c.Passes c := ⟨[], .nil, rfl, rfl⟩

theorem Passes.trans (h : c₁.Passes c₂) (h' : c₂.Passes c₃) : c₁.Passes c₃ := by
  obtain ⟨u, hu, hrest, hoffset⟩ := h
  obtain ⟨v, hv, hrest', hoffset'⟩ := h'
  refine ⟨u ++ v, hu.append hv, by rw [hrest, hrest', List.append_assoc], ?_⟩
  rw [hoffset', hoffset, Source.byteLength_append, Nat.add_assoc]

/-- At the end only a filler has been passed over. -/
theorem Passes.filler (h : c.Passes c₁) (hend : c₁.rest = []) : Filler c.rest := by
  obtain ⟨v, hv, hrest, -⟩ := h
  rwa [hrest, hend, List.append_nil]

end Cursor

/-- **What is skipped is a filler**, or the rest of one from inside a comment. -/
theorem skipFrom_filler (inComment : Bool) (offset : Nat) (cs : List Char) :
    ∃ v, Filler (if inComment then '#' :: v else v) ∧ cs = v ++ (skipFrom inComment offset cs).1 := by
  fun_induction skipFrom inComment offset cs with
  | case1 inComment =>
    cases inComment with
    | true => exact ⟨[], Filler.nil.commented, rfl⟩
    | false => exact ⟨[], .nil, rfl⟩
  | case2 => exact ⟨[], Filler.nil.commented, rfl⟩
  | case3 offset cs _ ih =>
    -- inside a comment
    obtain ⟨v, hv, hcs⟩ := ih
    exact ⟨'\r' :: v, .comment_end (by decide) hv, congrArg ('\r' :: ·) hcs⟩
  | case4 offset c cs hfeed hreturn ih =>
    obtain ⟨v, hv, hcs⟩ := ih
    have hc : c ∉ lineEnds := by simp [lineEnds, hfeed, hreturn]
    exact ⟨c :: v, Filler.comment_cons hc hv, congrArg (c :: ·) hcs⟩
  | case5 inComment offset c cs hcode hc ih =>
    -- in code
    obtain ⟨v, hv, hcs⟩ := ih
    have hblank : c ∈ fillers := by rcases hc with rfl | rfl | rfl <;> decide
    refine ⟨c :: v, ?_, congrArg (c :: ·) hcs⟩
    rw [if_neg hcode]
    exact .plain hblank hv
  | case6 inComment offset cs hcode _ ih =>
    obtain ⟨v, hv, hcs⟩ := ih
    refine ⟨'#' :: v, ?_, congrArg ('#' :: ·) hcs⟩
    rw [if_neg hcode]
    exact hv
  | case7 inComment offset hcode rest _ _ ih =>
    obtain ⟨v, hv, hcs⟩ := ih
    refine ⟨'\\' :: '\n' :: v, ?_, congrArg ('\\' :: '\n' :: ·) hcs⟩
    rw [if_neg hcode]
    exact .continued (by decide) hv
  | case8 inComment offset hcode rest _ _ ih =>
    obtain ⟨v, hv, hcs⟩ := ih
    refine ⟨'\\' :: '\r' :: '\n' :: v, ?_, congrArg ('\\' :: '\r' :: '\n' :: ·) hcs⟩
    rw [if_neg hcode]
    exact .continued (by decide) (.plain (by decide) hv)
  | case9 inComment offset hcode rest _ _ _ ih =>
    obtain ⟨v, hv, hcs⟩ := ih
    refine ⟨'\\' :: '\r' :: v, ?_, congrArg ('\\' :: '\r' :: ·) hcs⟩
    rw [if_neg hcode]
    exact .continued (by decide) hv
  | case10 inComment _ _ hcode | case11 inComment _ _ _ hcode =>
    refine ⟨[], ?_, rfl⟩
    rw [if_neg hcode]
    exact .nil

theorem Cursor.passes_skip (c : Cursor) (m : Mode) : c.Passes (c.skip m) := by
  obtain ⟨w, hw, hoffset⟩ := c.before_skip m
  unfold skip at *
  split
  · rename_i hm
    rw [if_pos hm] at hw hoffset
    obtain ⟨v, hv, hrest⟩ := skipFrom_filler false c.offset c.rest
    obtain rfl : v = w := List.append_cancel_right (hrest.symm.trans hw)
    exact ⟨v, hv, hw, hoffset⟩
  · exact .refl c

section Separators

variable {m : Mode} {c c' : Cursor} {ts : List ParseTree}

/-- A separator is a line break or a semicolon. -/
theorem Reads.passes_separator (h : Reads m separator c (some (c', ts))) : c.Passes c' := by
  -- each of the alternatives is a text of fillers
  have htext : ∀ {t : List Char}, (∀ x ∈ t, x ∈ fillers) → Reads m (.text t) c (some (c', ts)) →
      c.Passes c' := by
    intro t ht h
    cases h with
    | text hrest => exact ⟨t, .of_forall ht, hrest, rfl⟩
  cases h with
  | choice_left h =>
    cases h with
    | choice_left h => exact htext (by decide) h
    | choice_right _ h =>
      cases h with
      | choice_left h => exact htext (by decide) h
      | choice_right _ h => exact htext (by decide) h
  | choice_right _ h => exact htext (by decide) h

theorem Reads.passes_more (h : Reads m (.more separator) c (some (c', ts))) : c.Passes c' := by
  generalize he : Expr.more separator = e at h
  generalize ho : some (c', ts) = o at h
  induction h generalizing c' ts with
  | more_some ha _ _ ih =>
    cases he
    cases ho
    -- what is skipped, a separator, and those behind it
    exact ((Cursor.passes_skip _ _).trans ha.passes_separator).trans (ih rfl rfl)
  | more_none =>
    cases ho
    exact .refl _
  | _ => cases he

theorem Reads.passes_many (h : Reads m (.many separator) c (some (c', ts))) : c.Passes c' := by
  cases h with
  | many_some ha hmore => exact ha.passes_separator.trans hmore.passes_more
  | many_none => exact .refl _

end Separators

/-! ### Where fillers end -/

theorem length_skipFrom_le (inComment : Bool) (offset : Nat) (cs : List Char) :
    (skipFrom inComment offset cs).1.length ≤ cs.length :=
  (Cursor.before_skipFrom inComment offset cs).length_le

/-- Skipping does not stop at a blank, at a comment, or at a line that goes on. -/
theorem not_mem_of_skipped {c : Char} {cs : List Char} (h : skipped (c :: cs) = c :: cs) :
    c ∉ [' ', '\t', '\r', '#'] ∧ (c = '\\' → ∀ x ∈ cs.head?, x ∉ lineEnds) := by
  -- where skipping goes on it leaves less
  have hmore : ∀ {inComment offset rest}, rest.length ≤ cs.length →
      (skipFrom inComment offset rest).1 ≠ c :: cs := by
    intro inComment offset rest hrest heq
    have hle := length_skipFrom_le inComment offset rest
    rw [heq, List.length_cons] at hle
    omega
  unfold skipped skipFrom at h
  rw [if_neg Bool.false_ne_true] at h
  split_ifs at h with hblank hhash hbackslash
  · exact absurd h (hmore (Nat.le_refl _))
  · exact absurd h (hmore (Nat.le_refl _))
  · subst hbackslash
    refine ⟨by decide, fun _ x hx hend => ?_⟩
    split at h
    · exact absurd h (hmore (by simp))
    · exact absurd h (hmore (by simp; omega))
    · exact absurd h (hmore (by simp))
    · rename_i hfeed _ hreturn
      obtain ⟨rest, rfl⟩ := List.head?_eq_some_iff.mp hx
      simp only [lineEnds, List.mem_cons, List.not_mem_nil, or_false] at hend
      rcases hend with rfl | rfl
      · exact absurd rfl (hfeed _)
      · exact absurd rfl (hreturn _)
  · simp only [not_or] at hblank
    exact ⟨by simp [hblank, hhash], fun h => absurd h hbackslash⟩

variable {m : Mode}

theorem Cursor.skip_skip (c : Cursor) (m : Mode) : (c.skip m).skip m = c.skip m := by
  obtain ⟨w, hw, hoffset⟩ := (c.skip m).before_skip m
  have hrest : ((c.skip m).skip m).rest = (c.skip m).rest := by
    rw [Cursor.skip_rest, Cursor.skip_rest]
    unfold Mode.next
    split
    · exact skipped_skipped c.rest
    · rfl
  rw [hrest] at hw
  -- nothing is passed over, so that the offset stays, too
  obtain rfl : w = [] := List.append_cancel_right hw.symm
  cases h : (c.skip m).skip m
  cases h' : c.skip m
  simp_all

/-- A repetition ends where its part cannot be read once more. -/
theorem Reads.more_end {a : Expr} {c c' : Cursor} {ts : List ParseTree}
    (h : Reads m (.more a) c (some (c', ts))) : Reads m a (c'.skip m) none := by
  generalize he : Expr.more a = e at h
  generalize ho : some (c', ts) = o at h
  induction h generalizing c' ts with
  | more_some _ _ _ ih =>
    cases he
    cases ho
    exact ih rfl rfl
  | more_none ha =>
    cases he
    cases ho
    exact ha
  | _ => cases he

theorem Reads.many_end {a : Expr} {c c' : Cursor} {ts : List ParseTree}
    (h : Reads m (.many a) c (some (c', ts))) (hc : c.skip m = c) : Reads m a (c'.skip m) none := by
  cases h with
  | many_some _ hmore => exact hmore.more_end
  | many_none ha => rwa [hc]

/-- A line feed and a semicolon separate by themselves. -/
theorem separator_matches {c : Char} (hc : c ∈ ['\n', ';']) (cs : List Char) :
    Matches m separator (c :: cs) cs (· = []) := by
  simp only [List.mem_cons, List.not_mem_nil, or_false] at hc
  rcases hc with rfl | rfl
  · exact .choice_left (.choice_left (.text (t := ['\n'])))
  · refine .choice_right (.choice ?_ (.choice ?_ ?_)) (.text (t := [';'])) <;>
      exact .text fun h => by simp at h

/-- **Where skipping and separators end no filler begins.** -/
theorem not_filler {c : Cursor} {w rest : List Char} (hskip : skipped c.rest = c.rest)
    (hseparator : Reads m separator c none) (hc : c.rest = w ++ rest) (hw : w ≠ []) :
    ¬ Filler w := by
  obtain ⟨x, w, rfl⟩ := List.exists_cons_of_ne_nil hw
  obtain ⟨cs, o⟩ := c
  obtain rfl : cs = x :: (w ++ rest) := hc
  obtain ⟨hx, hbackslash⟩ := not_mem_of_skipped hskip
  intro h
  cases h with
  | plain hfiller =>
    -- a filler that is not skipped is a separator, which would be read
    have hplain : x ∈ ['\n', ';'] := by
      have hall : ∀ y ∈ fillers, y ∉ [' ', '\t', '\r', '#'] → y ∈ ['\n', ';'] := by decide
      exact hall x hfiller hx
    obtain ⟨o', ts, hreads, -⟩ := separator_matches (m := m) hplain (w ++ rest) o
    cases hseparator.unique hreads
  | continued hend => exact hbackslash rfl _ rfl hend
  | comment => exact absurd (by decide) hx

/-- **Of a filler a filler is left**, which begins with a separator if there is something left. -/
theorem Filler.skipFrom {inComment : Bool} {offset : Nat} {cs : List Char}
    (h : Filler (if inComment then '#' :: cs else cs)) :
    Filler (skipFrom inComment offset cs).1 ∧
      ∀ c ∈ (skipFrom inComment offset cs).1.head?, c ∈ ['\n', ';'] := by
  fun_induction Grammar.skipFrom inComment offset cs with
  | case1 => exact ⟨.nil, by rintro _ ⟨⟩⟩
  | case2 => exact ⟨h.of_comment_end (by decide), by rintro _ ⟨⟩; decide⟩
  | case3 _ _ _ ih => exact ih ((h.of_comment_end (by decide)).of_plain (by decide))
  | case4 _ c _ hfeed hreturn ih => exact ih (h.of_comment_cons (by simp [lineEnds, hfeed, hreturn]))
  | case5 _ _ c _ hcode hc ih =>
    rw [if_neg hcode] at h
    exact ih (h.of_plain (by rcases hc with rfl | rfl | rfl <;> decide))
  | case6 _ _ _ hcode _ ih =>
    rw [if_neg hcode] at h
    exact ih h
  | case7 _ _ hcode rest _ _ ih =>
    -- a backslash in a filler continues a line
    rw [if_neg hcode] at h
    obtain ⟨_, u, heq, -, h⟩ := h.of_backslash
    cases heq
    exact ih h
  | case8 _ _ hcode rest _ _ ih =>
    rw [if_neg hcode] at h
    obtain ⟨_, u, heq, -, h⟩ := h.of_backslash
    cases heq
    exact ih (h.of_plain (by decide))
  | case9 _ _ hcode rest _ _ _ ih =>
    rw [if_neg hcode] at h
    obtain ⟨_, u, heq, -, h⟩ := h.of_backslash
    cases heq
    exact ih h
  | case10 _ _ cs hcode hfeed _ hreturn =>
    -- the remaining case is excluded: every end of a line is skipped
    rw [if_neg hcode] at h
    obtain ⟨c, u, rfl, hc, -⟩ := h.of_backslash
    simp only [lineEnds, List.mem_cons, List.not_mem_nil, or_false] at hc
    rcases hc with rfl | rfl
    · exact absurd rfl (hfeed u)
    · exact absurd rfl (hreturn u)
  | case11 _ _ c cs hcode hblank hhash hbackslash =>
    rw [if_neg hcode] at h
    refine ⟨h, ?_⟩
    rintro _ ⟨⟩
    cases h with
    | plain hc =>
      simp only [fillers, List.mem_cons, List.not_mem_nil, or_false] at hc ⊢
      simp only [not_or] at hblank
      tauto
    | continued => exact absurd rfl hbackslash
    | comment => exact absurd rfl hhash

theorem separator_refuses_nil : Refuses m separator [] :=
  refuses_of_head 0 (by decide) (by decide) (by rintro _ ⟨⟩)

/-- After skipping nothing is left of a filler, or a separator with a shorter filler behind it. -/
theorem Filler.skipped_cases {cs : List Char} (h : Filler cs) :
    skipped cs = [] ∨ ∃ c v, skipped cs = c :: v ∧ c ∈ ['\n', ';'] ∧ Filler v ∧
      v.length < cs.length := by
  obtain ⟨hskipped, hhead⟩ : Filler (skipped cs) ∧ ∀ c ∈ (skipped cs).head?, c ∈ ['\n', ';'] :=
    Filler.skipFrom h
  -- the separator itself is not skipped
  have hle : (skipped cs).length ≤ cs.length := length_skipFrom_le false 0 cs
  cases hrest : skipped cs with
  | nil => exact .inl rfl
  | cons c v =>
    rw [hrest] at hskipped hhead hle
    have hfiller : ∀ x ∈ ['\n', ';'], x ∈ fillers := by decide
    exact .inr ⟨c, v, rfl, hhead c rfl, hskipped.of_plain (hfiller c (hhead c rfl)), hle⟩

/-- **Separators are matched up to the end of a filler.** By induction on its length. -/
theorem Filler.more_matches {cs : List Char} (h : Filler cs) :
    ∃ cs', Matches .spaced (.more separator) cs cs' (· = []) ∧ skipped cs' = [] := by
  obtain ⟨n, hn⟩ : ∃ n, cs.length = n := ⟨_, rfl⟩
  induction n using Nat.strong_induction_on generalizing cs with
  | _ n ih =>
  -- either nothing is left, or one separator and a shorter filler
  rcases h.skipped_cases with hnil | ⟨c, v, hcons, hc, hv, hlt⟩
  · refine ⟨cs, .more_none ?_, hnil⟩
    rw [Mode.spaced_next, hnil]
    exact separator_refuses_nil
  · obtain ⟨cs', hmore, hend⟩ := ih v.length (hn ▸ hlt) hv rfl
    have hfirst := separator_matches (m := .spaced) hc v
    rw [← hcons, ← Mode.spaced_next] at hfirst
    refine ⟨cs', (hfirst.more_some hmore).imp ?_, hend⟩
    rintro _ ⟨_, _, rfl, rfl, rfl⟩
    rfl

theorem Filler.many_matches {cs : List Char} (h : Filler cs) :
    ∃ cs', Matches .spaced (.many separator) (skipped cs) cs' (· = []) ∧ skipped cs' = [] := by
  rcases h.skipped_cases with hnil | ⟨c, v, hcons, hc, hv, -⟩
  · rw [hnil]
    exact ⟨[], .many_none separator_refuses_nil, rfl⟩
  · obtain ⟨cs', hmore, hend⟩ := hv.more_matches
    rw [hcons]
    refine ⟨cs', ((separator_matches hc v).many_some hmore).imp ?_, hend⟩
    rintro _ ⟨_, _, rfl, rfl, rfl⟩
    rfl

/-- **A filler is a program without statements.** -/
theorem Filler.program_matches {cs : List Char} (h : Filler cs) :
    Matches .spaced Rule.program.body cs [] (Found fun t => t.rule = .endOfInput) := by
  obtain ⟨cs', hbefore, hend⟩ := h.many_matches
  -- at the end of the text no statement begins
  have hstatement : Refuses .spaced statement [] :=
    refuses_of_head 0 (by decide) (by decide) (by rintro _ ⟨⟩)
  have hstatements : Refuses .spaced
      (.seq statement (.many (.seq (Expr.manyOne separator) statement))) [] := .seq_left hstatement
  have hafter := (Matches.many_none separator_refuses_nil).seq endOfInput_matches
  have hnone := (Matches.optional_none hstatements).seq hafter
  have hall := Matches.nothing.seq (hbefore.seq (by rw [Mode.spaced_next, hend]; exact hnone))
  refine hall.imp ?_
  rintro _ ⟨_, _, rfl, rfl, _, _, rfl, rfl, _, _, rfl, rfl, _, _, rfl, rfl, hfinal⟩
  exact hfinal

end CatalogQuery.Grammar
