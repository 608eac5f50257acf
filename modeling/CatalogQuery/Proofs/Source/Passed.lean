import CatalogQuery.Proofs.Source.Brackets

/-!
# Texts that lead to code

`Passed v` says of a text in normal form what stands in front of a place in code: code, quoted texts
that end with their marks, and comments that end with their lines. A quoted text that a line break
cuts off belongs to it, too, because the grammar does not come past it, so that it does not matter
what follows.

If a part of a source leads to code, and its comments end with their lines, its normal form is such
a text (`normalizeChars_passed`).
-/

namespace CatalogQuery.Source

open Grammar (QuotedText quoteMarks quoteStops)

/-- The characters at which code ends. -/
def codeEnds : List Char := ['\'', '"', '#']

/-- The characters at which the grammar ends a comment or cuts off a quoted text. -/
def lineEnds : List Char := ['\n', '\r']

/-- A text in normal form that stands in front of a place in code. -/
inductive Passed : List Char → Prop where
  | nil : Passed []
  | code {c : Char} {v : List Char} (hc : c ∉ codeEnds) (h : Passed v) : Passed (c :: v)
  | quoted {mark : Char} {w v : List Char} (hmark : mark ∈ quoteMarks) (hw : QuotedText mark w)
      (h : Passed v) : Passed (mark :: (w ++ mark :: v))
  | cut {mark c : Char} {w v : List Char} (hmark : mark ∈ quoteMarks) (hw : QuotedText mark w)
      (hc : c ∈ lineEnds) : Passed (mark :: (w ++ c :: v))
  | comment {c : Char} {w v : List Char} (hw : ∀ x ∈ w, x ∉ lineEnds) (hc : c ∈ lineEnds)
      (h : Passed (c :: v)) : Passed ('#' :: (w ++ c :: v))

namespace Passed

variable {c mark : Char} {v w : List Char}

theorem append_code (hw : ∀ c ∈ w, c ∉ codeEnds) (h : Passed v) : Passed (w ++ v) := by
  induction w with
  | nil => exact h
  | cons c w ih =>
    obtain ⟨hc, hw⟩ := List.forall_mem_cons.mp hw
    exact .code hc (ih hw)

/-! What follows the first character is told by the character. -/

theorem of_code (h : Passed (c :: v)) (hc : c ∉ codeEnds) : Passed v := by
  have hmarks : ∀ x ∈ quoteMarks, x ∈ codeEnds := by decide
  cases h with
  | code _ h => exact h
  | quoted hmark | cut hmark => exact absurd (hmarks c hmark) hc
  | comment => exact absurd (by decide) hc

theorem of_mark (h : Passed (mark :: v)) (hmark : mark ∈ quoteMarks) :
    (∃ w u, v = w ++ mark :: u ∧ QuotedText mark w ∧ Passed u) ∨
      ∃ w c u, v = w ++ c :: u ∧ QuotedText mark w ∧ c ∈ lineEnds := by
  have hcode : ∀ x ∈ quoteMarks, x ∈ codeEnds := by decide
  cases h with
  | code hc => exact absurd (hcode mark hmark) hc
  | quoted _ hw h => exact .inl ⟨_, _, rfl, hw, h⟩
  | cut _ hw hc => exact .inr ⟨_, _, _, rfl, hw, hc⟩
  | comment => exact absurd hmark (by decide)

theorem of_hash (h : Passed ('#' :: v)) :
    ∃ w c u, v = w ++ c :: u ∧ (∀ x ∈ w, x ∉ lineEnds) ∧ c ∈ lineEnds ∧ Passed (c :: u) := by
  cases h with
  | code hc => exact absurd (by decide) hc
  | quoted hmark | cut hmark => exact absurd hmark (by decide)
  | comment hw hc h => exact ⟨_, _, _, rfl, hw, hc, h⟩

end Passed

/-! ### Normal forms -/

/-- What is left of a text that leads to code, after what brought reading into a zone. A comment
inside brackets has been blanked. -/
def PassedIn : Zone → List Char → Prop
  | .code _, v | .comment (_ + 1), v => Passed v
  | .comment 0, v => Passed ('#' :: v)
  | .quoted mark escaped _, v =>
    mark ∈ quoteMarks ∧ Passed (mark :: if escaped then '\\' :: v else v)

theorem not_mem_codeEnds {c : Char} (hc : Plain c) : c ∉ codeEnds := by
  have hends : ∀ x ∈ codeEnds, ¬ Plain x := by decide
  exact fun h => hends c h hc

/-- A character of quoted text leads on. -/
theorem PassedIn.quoted {mark c : Char} {escaped : Bool} {d : Nat} {v : List Char}
    (hmark : mark ∈ quoteMarks) (h : PassedIn (Zone.next (.quoted mark escaped d) c) v) :
    PassedIn (.quoted mark escaped d) (c :: v) := by
  refine ⟨hmark, ?_⟩
  cases escaped with
  | true =>
    -- the character is taken with the backslash
    obtain ⟨w, u, rfl, hw, hu⟩ | ⟨w, x, u, rfl, hw, hx⟩ := Passed.of_mark h.2 hmark
    · exact .quoted hmark (hw.escaped c) hu
    · exact .cut hmark (hw.escaped c) hx
  | false =>
    have hfalse : ¬ false = true := by decide
    rw [Zone.next, if_neg hfalse] at h
    rw [if_neg hfalse]
    by_cases hbackslash : c = '\\'
    · subst hbackslash
      exact h.2
    by_cases hend : c = mark ∨ c = '\n'
    · rw [if_neg hbackslash, if_pos hend] at h
      rcases hend with rfl | rfl
      · exact .quoted hmark .nil h
      · exact .cut hmark .nil (by decide)
    · rw [if_neg hbackslash, if_neg hend] at h
      by_cases hreturn : c = '\r'
      · subst hreturn
        exact .cut hmark .nil (by decide)
      · have hc : c ∉ quoteStops mark := by
          simp only [not_or] at hend
          simp [quoteStops, hbackslash, hend, hreturn]
        obtain ⟨w, u, rfl, hw, hu⟩ | ⟨w, x, u, rfl, hw, hx⟩ := Passed.of_mark h.2 hmark
        · exact .quoted hmark (hw.plain hc) hu
        · exact .cut hmark (hw.plain hc) hx

/-- A character of a comment outside brackets leads on, if a carriage return stands in front of a
line feed only. -/
theorem PassedIn.comment {c : Char} {v : List Char} (hreturn : c = '\r' → v.head? = some '\n')
    (h : PassedIn (Zone.next (.comment 0) c) v) : PassedIn (.comment 0) (c :: v) := by
  show Passed ('#' :: c :: v)
  by_cases hfeed : c = '\n'
  · subst hfeed
    exact .comment (w := []) (by simp) (by decide) (.code (by decide) h)
  · rw [Zone.next, if_neg hfeed] at h
    obtain ⟨w, x, u, rfl, hw, hx, hu⟩ := Passed.of_hash h
    by_cases hc : c = '\r'
    · subst hc
      refine .comment (w := []) (by simp) (by decide) (.code (by decide) ?_)
      -- nothing of the comment stands between the two
      cases w with
      | nil => exact hu
      | cons y w =>
        obtain rfl : y = '\n' := Option.some.inj (hreturn rfl)
        exact absurd (by decide) (hw '\n' (by simp))
    · refine .comment (w := c :: w) ?_ hx hu
      exact List.forall_mem_cons.mpr ⟨by simp [lineEnds, hfeed, hc], hw⟩

/-- A character of a comment leads on. Inside brackets it has been blanked. -/
theorem PassedIn.faded {k : Nat} {c : Char} {v : List Char}
    (hreturn : k = 0 → c = '\r' → v.head? = some '\n') (h : PassedIn (Zone.next (.comment k) c) v) :
    PassedIn (.comment k) (faded k c ++ v) := by
  cases k with
  -- outside brackets the comment is kept
  | zero => exact h.comment (hreturn rfl)
  | succ k =>
    -- inside brackets it is blanks, whether or not the comment ends here
    have hv : Passed v := by
      by_cases hfeed : c = '\n'
      · rwa [Zone.next, if_pos hfeed] at h
      · rwa [Zone.next, if_neg hfeed] at h
    refine hv.append_code fun b hb => ?_
    rw [List.eq_of_mem_replicate hb]
    decide

/-- A character of code that is no part of a word leads on. -/
theorem PassedIn.code {c : Char} {d : Nat} {v : List Char}
    (h : PassedIn (Zone.after d c) v) : Passed (settleChar d c ++ v) := by
  unfold settleChar
  split_ifs with hfeed hhash
  · -- a line feed stays or becomes a blank
    subst hfeed
    refine .code ?_ h
    unfold joined
    split_ifs <;> decide
  · -- a comment begins
    subst hhash
    cases d with
    | zero => exact h
    | succ d => exact .code (by decide) h
  · unfold Zone.after at h
    rw [if_neg hhash] at h
    -- any other character is kept; a mark opens a quote
    by_cases hmark : c = '\'' ∨ c = '"'
    · rw [if_pos hmark] at h
      exact h.2
    · rw [if_neg hmark] at h
      refine .code (by simpa [codeEnds, hhash] using hmark) ?_
      split_ifs at h <;> exact h

/-- Quotes are opened by their marks. -/
theorem Zone.next_quoted {zone : Zone}
    (h : ∀ mark escaped d, zone = .quoted mark escaped d → mark ∈ quoteMarks) (c : Char) :
    ∀ mark escaped d, zone.next c = .quoted mark escaped d → mark ∈ quoteMarks := by
  intro mark escaped d hnext
  cases zone with
  | code k =>
    rw [Zone.next] at hnext
    unfold Zone.after at hnext
    split_ifs at hnext with hc
    obtain rfl := (Zone.quoted.inj hnext).1
    simpa [quoteMarks] using hc
  | quoted mark' escaped' k =>
    rw [Zone.next] at hnext
    -- the mark of a quote does not change in it
    have hsame := h mark' escaped' k rfl
    split_ifs at hnext <;> exact (Zone.quoted.inj hnext).1 ▸ hsame
  | comment k =>
    rw [Zone.next] at hnext
    split_ifs at hnext

/-- Inside a comment a line break is changed like the other characters. -/
theorem normalizeFrom_comment_cons (k : Nat) (c : Char) (cs : List Char) :
    normalizeFrom (.comment k) [] (c :: cs)
      = faded k c ++ normalizeFrom (Zone.next (.comment k) c) [] cs := by
  rw [normalizeFrom, Zone.next]
  by_cases hfeed : c = '\n'
  · rw [if_pos hfeed, if_pos hfeed, hfeed]
    cases k <;> rfl
  · rw [if_neg hfeed, if_neg hfeed]

/-- **The normal form of what leads to code leads to code**, from any zone. -/
theorem normalizeFrom_passed {zone : Zone} {word before : List Char} {d : Nat}
    (hzone : before.foldl Zone.next zone = .code d) (hend : commentsEndLines zone before = true)
    (hword : word = [] ∨ ∃ d, zone = .code d) (hall : ∀ c ∈ word, isWordChar c = true)
    (hmark : ∀ mark escaped d, zone = .quoted mark escaped d → mark ∈ quoteMarks) :
    ∃ n, PassedIn zone n ∧ ∀ rest, (∀ c ∈ rest.head?, isWordChar c = false) →
      normalizeFrom zone word (before ++ rest) = n ++ normalizeFrom (.code d) [] rest := by
  have hsettled : ∀ {v : List Char}, Passed v → Passed (settle word ++ v) := fun hv =>
    hv.append_code fun c hc => not_mem_codeEnds (plain_settle hall c hc)
  induction before generalizing zone word with
  | nil =>
    obtain rfl : zone = .code d := hzone
    refine ⟨settle word, ?_, fun rest hrest => normalizeFrom_settle hrest d word⟩
    have h := hsettled .nil
    rwa [List.append_nil] at h
  | cons c cs ih =>
    rw [commentsEndLines, Bool.and_eq_true] at hend
    obtain ⟨hreturn, hend⟩ := hend
    have hnextmark := Zone.next_quoted hmark c
    cases zone with
    | code k =>
      by_cases hc : isWordChar c = true
      · -- the word goes on
        have hnext : Zone.next (.code k) c = .code k := Zone.after_of_isWordChar hc k
        have hall' : ∀ x ∈ word ++ [c], isWordChar x = true :=
          List.forall_mem_append.mpr ⟨hall, List.forall_mem_singleton.mpr hc⟩
        rw [List.foldl_cons, hnext] at hzone
        rw [hnext] at hend
        obtain ⟨n, hn, hrest⟩ := ih hzone hend (.inr ⟨k, rfl⟩) hall' (by rintro _ _ _ ⟨⟩) fun hv =>
          hv.append_code fun c hc => not_mem_codeEnds (plain_settle hall' c hc)
        refine ⟨n, hn, fun rest hhead => ?_⟩
        rw [List.cons_append, normalizeFrom, if_pos hc, hrest rest hhead]
      · obtain ⟨n, hn, hrest⟩ := ih hzone hend (.inl rfl) (by simp) hnextmark fun hv => hv
        refine ⟨settle word ++ (settleChar k c ++ n), hsettled hn.code, fun rest hhead => ?_⟩
        rw [List.cons_append, normalizeFrom, if_neg hc]
        have h := hrest rest hhead
        rw [Zone.next] at h
        rw [h]
        simp
    | quoted mark escaped k =>
      obtain rfl : word = [] := by simpa using hword
      obtain ⟨n, hn, hrest⟩ := ih hzone hend (.inl rfl) hall hnextmark fun hv => hv
      refine ⟨c :: n, .quoted (hmark mark escaped k rfl) hn, fun rest hhead => ?_⟩
      exact congrArg (c :: ·) (hrest rest hhead)
    | comment k =>
      obtain rfl : word = [] := by simpa using hword
      obtain ⟨n, hn, hrest⟩ := ih hzone hend (.inl rfl) hall hnextmark fun hv => hv
      refine ⟨faded k c ++ n, .faded ?_ hn, fun rest hhead => ?_⟩
      · rintro rfl rfl
        -- a line feed follows in the source, and so in the normal form
        cases cs with
        | nil => cases hzone
        | cons y cs =>
          obtain rfl : y = '\n' := by simpa using hreturn
          have hhead := congrArg List.head? (hrest [] (by simp))
          obtain ⟨w, x, u, rfl, -⟩ := Passed.of_hash (v := n) hn
          cases w <;> exact hhead.symm
      · rw [List.cons_append, normalizeFrom_comment_cons, hrest rest hhead, List.append_assoc]

/-- **The first part of a source**, if it leads to code, has a normal form that leads to code,
whatever follows. -/
theorem normalizeChars_passed {before : List Char} {d : Nat}
    (hzone : before.foldl Zone.next (.code 0) = .code d)
    (hend : commentsEndLines (.code 0) before = true) :
    ∃ n, Passed n ∧ ∀ rest, (∀ c ∈ rest.head?, isWordChar c = false) →
      normalizeChars (before ++ rest) = n ++ normalizeFrom (.code d) [] rest :=
  normalizeFrom_passed hzone hend (.inl rfl) (by simp) (by rintro _ _ _ ⟨⟩)

end CatalogQuery.Source
