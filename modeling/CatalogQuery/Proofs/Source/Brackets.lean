import CatalogQuery.Proofs.Source.Zones

/-!
# Texts that close their brackets

`Closing k v` says that `v` stands on one line, inside `k` brackets, and ends where the last of them
is closed: brackets count outside quoted texts only, and outside of these there is neither a comment
nor a line feed. Normalization counts brackets in the same way, whichever they are, so that the
normal form of such a text closes its brackets, too, and depends neither on what stands around it
nor on how many brackets that is inside of (`Closing.normalized`).
-/

namespace CatalogQuery.Source

open Grammar (continues Ends QuotedText quoteMarks quoteStops)

/-! ### Brackets -/

/-- The brackets that normalization counts. -/
def openBrackets : List Char := ['(', '[', '\x7b']

def closeBrackets : List Char := [')', ']', '\x7d']

/-- A character of code that neither ends a line nor begins or ends anything. -/
def Plain (c : Char) : Prop := c ∉ openBrackets ++ closeBrackets ++ ['\'', '"', '#', '\n']

instance (c : Char) : Decidable (Plain c) := inferInstanceAs (Decidable (c ∉ _))

/-- The text is on one line, closes `k` brackets that were opened before it, and ends with the last
of them. -/
inductive Closing : Nat → List Char → Prop where
  | nil : Closing 0 []
  | closed {k : Nat} {c : Char} {v : List Char} (hc : c ∈ closeBrackets) (h : Closing k v) :
      Closing (k + 1) (c :: v)
  | opened {k : Nat} {c : Char} {v : List Char} (hc : c ∈ openBrackets) (h : Closing (k + 2) v) :
      Closing (k + 1) (c :: v)
  | quoted {k : Nat} {mark : Char} {w v : List Char} (hmark : mark ∈ quoteMarks)
      (hw : QuotedText mark w) (h : Closing (k + 1) v) :
      Closing (k + 1) (mark :: (w ++ mark :: v))
  | plain {k : Nat} {c : Char} {v : List Char} (hc : Plain c) (h : Closing (k + 1) v) :
      Closing (k + 1) (c :: v)

theorem plain_of_isWordChar {c : Char} (hc : isWordChar c = true) : Plain c := by
  have hall : ∀ x ∈ openBrackets ++ closeBrackets ++ ['\'', '"', '#', '\n'],
      isWordChar x = false := by decide
  intro h
  rw [hall c h] at hc
  cases hc

theorem plain_of_continues {c : Char} (hc : continues c = true) : Plain c :=
  plain_of_isWordChar (isWordChar_of_continues hc)

namespace Closing

variable {k : Nat} {c : Char} {v w : List Char}

theorem eq_nil (h : Closing 0 v) : v = [] := by
  cases h
  rfl

theorem exists_cons (h : Closing (k + 1) v) : ∃ x u, v = x :: u := by
  cases h with
  | closed | opened | quoted | plain => exact ⟨_, _, rfl⟩

/-! What follows the first character is told by the character. -/

theorem of_close (h : Closing (k + 1) (c :: v)) (hc : c ∈ closeBrackets) : Closing k v := by
  have hopen : ∀ x ∈ closeBrackets, x ∉ openBrackets := by decide
  have hmarks : ∀ x ∈ closeBrackets, x ∉ quoteMarks := by decide
  have hplain : ∀ x ∈ closeBrackets, ¬ Plain x := by decide
  cases h with
  | closed _ h => exact h
  | opened hc' => exact absurd hc' (hopen c hc)
  | quoted hmark => exact absurd hmark (hmarks c hc)
  | plain hc' => exact absurd hc' (hplain c hc)

theorem of_open (h : Closing (k + 1) (c :: v)) (hc : c ∈ openBrackets) : Closing (k + 2) v := by
  have hclose : ∀ x ∈ openBrackets, x ∉ closeBrackets := by decide
  have hmarks : ∀ x ∈ openBrackets, x ∉ quoteMarks := by decide
  have hplain : ∀ x ∈ openBrackets, ¬ Plain x := by decide
  cases h with
  | closed hc' => exact absurd hc' (hclose c hc)
  | opened _ h => exact h
  | quoted hmark => exact absurd hmark (hmarks c hc)
  | plain hc' => exact absurd hc' (hplain c hc)

theorem of_mark (h : Closing (k + 1) (c :: v)) (hc : c ∈ quoteMarks) :
    ∃ w u, v = w ++ c :: u ∧ QuotedText c w ∧ Closing (k + 1) u := by
  have hclose : ∀ x ∈ quoteMarks, x ∉ closeBrackets := by decide
  have hopen : ∀ x ∈ quoteMarks, x ∉ openBrackets := by decide
  have hplain : ∀ x ∈ quoteMarks, ¬ Plain x := by decide
  cases h with
  | closed hc' => exact absurd hc' (hclose c hc)
  | opened hc' => exact absurd hc' (hopen c hc)
  | quoted _ hw h => exact ⟨_, _, rfl, hw, h⟩
  | plain hc' => exact absurd hc' (hplain c hc)

theorem of_plain (h : Closing (k + 1) (c :: v)) (hc : Plain c) : Closing (k + 1) v := by
  cases h with
  | closed hc' => exact absurd (by simp [hc']) hc
  | opened hc' => exact absurd (by simp [hc']) hc
  | quoted hmark =>
    have hplain : ∀ x ∈ quoteMarks, ¬ Plain x := by decide
    exact absurd hc (hplain c hmark)
  | plain _ h => exact h

/-- Neither a comment nor a line feed begins outside quoted texts. -/
theorem head_ne (h : Closing k (c :: v)) : c ≠ '#' ∧ c ≠ '\n' := by
  have hclose : ∀ x ∈ closeBrackets, x ≠ '#' ∧ x ≠ '\n' := by decide
  have hopen : ∀ x ∈ openBrackets, x ≠ '#' ∧ x ≠ '\n' := by decide
  have hmarks : ∀ x ∈ quoteMarks, x ≠ '#' ∧ x ≠ '\n' := by decide
  cases h with
  | closed hc => exact hclose c hc
  | opened hc => exact hopen c hc
  | quoted hmark => exact hmarks c hmark
  | plain hc =>
    -- both characters are among those that plain text leaves out
    constructor
    · rintro rfl
      exact absurd hc (by decide)
    · rintro rfl
      exact absurd hc (by decide)

theorem append_plain (hw : ∀ c ∈ w, Plain c) (h : Closing (k + 1) v) : Closing (k + 1) (w ++ v) := by
  induction w with
  | nil => exact h
  | cons c w ih =>
    obtain ⟨hc, hw⟩ := List.forall_mem_cons.mp hw
    exact .plain hc (ih hw)

end Closing

/-! ### Normal forms -/

section Normal

variable {cs : List Char}

theorem settle_cases (word : List Char) : settle word = word ∨ settle word ∈ lowered := by
  unfold settle
  dsimp only
  split_ifs with h
  · exact .inr h
  · exact .inl rfl

/-- A word is normalized as a whole. -/
theorem normalizeFrom_wordChars {w : List Char} (hw : ∀ c ∈ w, isWordChar c = true) (d : Nat)
    (word : List Char) :
    normalizeFrom (.code d) word (w ++ cs) = normalizeFrom (.code d) (word ++ w) cs := by
  induction w generalizing word with
  | nil => rw [List.nil_append, List.append_nil]
  | cons c w ih =>
    obtain ⟨hc, hw⟩ := List.forall_mem_cons.mp hw
    rw [List.cons_append, normalizeFrom, if_pos hc, ih hw, List.append_assoc]
    rfl

/-- A word of the grammar is one of the source. -/
theorem normalizeFrom_word {w : List Char} (hw : ∀ c ∈ w, continues c = true) (d : Nat)
    (word : List Char) :
    normalizeFrom (.code d) word (w ++ cs) = normalizeFrom (.code d) (word ++ w) cs :=
  normalizeFrom_wordChars (fun c hc => isWordChar_of_continues (hw c hc)) d word

/-- What was begun as a word is settled where no word goes on. -/
theorem normalizeFrom_settle (hcs : ∀ c ∈ cs.head?, isWordChar c = false) (d : Nat)
    (word : List Char) :
    normalizeFrom (.code d) word cs = settle word ++ normalizeFrom (.code d) [] cs := by
  have hempty : settle [] = [] := rfl
  cases cs with
  | nil => rw [normalizeFrom, normalizeFrom, hempty, List.append_nil]
  | cons c cs =>
    have hc : isWordChar c = false := hcs c rfl
    rw [normalizeFrom, normalizeFrom, if_neg (by simp [hc]), if_neg (by simp [hc]), hempty,
      List.append_assoc]
    rfl

/-- A character that is no part of a word and not changed. -/
theorem normalizeFrom_code {c : Char} (hc : isWordChar c = false) (hbreak : c ≠ '\n') (hhash : c ≠ '#')
    (d : Nat) (word : List Char) :
    normalizeFrom (.code d) word (c :: cs)
      = settle word ++ c :: normalizeFrom (Zone.after d c) [] cs := by
  rw [normalizeFrom, if_neg (by simp [hc]), settleChar, if_neg hbreak, if_neg hhash,
    List.append_assoc]
  rfl

/-- Quoted text is kept up to its mark, and code follows. -/
theorem normalizeFrom_quoted {mark : Char} {w : List Char} (hmark : mark ≠ '\\')
    (hw : QuotedText mark w) (d : Nat) :
    normalizeFrom (.quoted mark false d) [] (w ++ mark :: cs)
      = w ++ mark :: normalizeFrom (.code d) [] cs := by
  induction hw with
  | nil => rw [List.nil_append, List.nil_append, normalizeFrom, if_neg (by decide), if_neg hmark,
      if_pos (.inl rfl)]
  | escaped c _ ih =>
    -- the backslash and the character behind it are read in two steps
    rw [List.cons_append, List.cons_append, normalizeFrom, if_neg (by decide), if_pos rfl,
      normalizeFrom, if_pos rfl, ih]
    rfl
  | @plain c _ hc _ ih =>
    -- neither the backslash nor the mark: the quote goes on
    simp only [quoteStops, List.mem_cons, List.not_mem_nil, or_false, not_or] at hc
    rw [List.cons_append, normalizeFrom, if_neg (by decide), if_neg hc.2.1,
      if_neg (by simp [hc.1, hc.2.2.1]), ih]
    rfl

theorem plain_settle {word : List Char} (hword : ∀ c ∈ word, isWordChar c = true) :
    ∀ c ∈ settle word, Plain c := by
  rcases settle_cases word with h | h
  · rw [h]
    exact fun c hc => plain_of_isWordChar (hword c hc)
  · exact fun c hc => plain_of_continues (continues_of_mem_lowered _ h c hc)

theorem after_close {c : Char} (hc : c ∈ closeBrackets) (d : Nat) :
    Zone.after (d + 1) c = .code d := by
  simp only [closeBrackets, List.mem_cons, List.not_mem_nil, or_false] at hc
  rcases hc with rfl | rfl | rfl <;> rfl

theorem after_open {c : Char} (hc : c ∈ openBrackets) (d : Nat) :
    Zone.after d c = .code (d + 1) := by
  simp only [openBrackets, List.mem_cons, List.not_mem_nil, or_false] at hc
  rcases hc with rfl | rfl | rfl <;> rfl

theorem after_mark {c : Char} (hc : c ∈ quoteMarks) (d : Nat) :
    Zone.after d c = .quoted c false d := by
  simp only [quoteMarks, List.mem_cons, List.not_mem_nil, or_false] at hc
  rw [Zone.after, if_pos hc]

theorem after_plain {c : Char} (hc : Plain c) (d : Nat) : Zone.after d c = .code d := by
  simp only [Plain, openBrackets, closeBrackets, List.mem_append, List.mem_cons, List.not_mem_nil,
    or_false, not_or] at hc
  unfold Zone.after
  simp [hc]

/-- **The normal form of a text that closes its brackets** does so, too, and is the same in front of
every text and inside any number of other brackets. -/
theorem Closing.normalized {k : Nat} {v word : List Char} (h : Closing (k + 1) v)
    (hword : ∀ c ∈ word, isWordChar c = true) :
    ∃ n, Closing (k + 1) n ∧ ∀ d rest, normalizeFrom (.code (d + (k + 1))) word (v ++ rest)
      = n ++ normalizeFrom (.code d) [] rest := by
  generalize hj : k + 1 = j at h
  -- the induction is over the text, with any word begun before it
  induction h generalizing k word with
  | nil => cases hj
  | @closed j c v hc h ih =>
    obtain rfl : k = j := Nat.succ.inj hj
    obtain ⟨hclosing, hbreak, hhash⟩ : isWordChar c = false ∧ c ≠ '\n' ∧ c ≠ '#' := by
      have hall : ∀ x ∈ closeBrackets, isWordChar x = false ∧ x ≠ '\n' ∧ x ≠ '#' := by decide
      exact hall c hc
    have hafter : ∀ d rest, normalizeFrom (.code (d + (k + 1))) word (c :: v ++ rest)
        = settle word ++ c :: normalizeFrom (.code (d + k)) [] (v ++ rest) := by
      intro d rest
      rw [List.cons_append, normalizeFrom_code hclosing hbreak hhash, ← Nat.add_assoc, after_close hc]
    cases k with
    | zero =>
      obtain rfl := h.eq_nil
      refine ⟨settle word ++ [c], .append_plain (plain_settle hword) (.closed hc .nil), fun d rest => ?_⟩
      rw [hafter, List.append_assoc]
      rfl
    | succ k =>
      obtain ⟨n, hn, hnormal⟩ := ih (List.forall_mem_nil _) rfl
      refine ⟨settle word ++ c :: n, .append_plain (plain_settle hword) (.closed hc hn), fun d rest => ?_⟩
      rw [hafter, hnormal, List.append_assoc]
      rfl
  | @opened j c v hc h ih =>
    obtain rfl : k = j := Nat.succ.inj hj
    obtain ⟨hopening, hbreak, hhash⟩ : isWordChar c = false ∧ c ≠ '\n' ∧ c ≠ '#' := by
      have hall : ∀ x ∈ openBrackets, isWordChar x = false ∧ x ≠ '\n' ∧ x ≠ '#' := by decide
      exact hall c hc
    obtain ⟨n, hn, hnormal⟩ := ih (List.forall_mem_nil _) rfl
    refine ⟨settle word ++ c :: n, .append_plain (plain_settle hword) (.opened hc hn), fun d rest => ?_⟩
    rw [List.cons_append, normalizeFrom_code hopening hbreak hhash, after_open hc]
    show _ ++ c :: normalizeFrom (.code (d + (k + 1 + 1))) [] (v ++ rest) = _
    rw [hnormal, List.append_assoc]
    rfl
  | @quoted j mark w v hmark hw h ih =>
    obtain rfl : k = j := Nat.succ.inj hj
    obtain ⟨hquote, hbreak, hhash, hbackslash⟩ :
        isWordChar mark = false ∧ mark ≠ '\n' ∧ mark ≠ '#' ∧ mark ≠ '\\' := by
      have hall : ∀ x ∈ quoteMarks,
          isWordChar x = false ∧ x ≠ '\n' ∧ x ≠ '#' ∧ x ≠ '\\' := by decide
      exact hall mark hmark
    obtain ⟨n, hn, hnormal⟩ := ih (List.forall_mem_nil _) rfl
    refine ⟨settle word ++ mark :: (w ++ mark :: n),
      .append_plain (plain_settle hword) (.quoted hmark hw hn), fun d rest => ?_⟩
    have htext : mark :: (w ++ mark :: v) ++ rest = mark :: (w ++ mark :: (v ++ rest)) := by simp
    rw [htext, normalizeFrom_code hquote hbreak hhash, after_mark hmark,
      normalizeFrom_quoted hbackslash hw, hnormal]
    simp
  | @plain j c v hc h ih =>
    obtain rfl : k = j := Nat.succ.inj hj
    by_cases hcontinues : isWordChar c = true
    · -- the word goes on
      obtain ⟨n, hn, hnormal⟩ := ih (List.forall_mem_append.mpr
        ⟨hword, List.forall_mem_singleton.mpr hcontinues⟩) rfl
      refine ⟨n, hn, fun d rest => ?_⟩
      rw [List.cons_append, normalizeFrom, if_pos hcontinues, hnormal]
    · obtain ⟨hhash, hbreak⟩ := (Closing.plain hc h).head_ne
      obtain ⟨n, hn, hnormal⟩ := ih (List.forall_mem_nil _) rfl
      refine ⟨settle word ++ c :: n, .append_plain (plain_settle hword) (.plain hc hn), fun d rest => ?_⟩
      rw [List.cons_append, normalizeFrom_code (by simpa using hcontinues) hbreak hhash,
        after_plain hc, hnormal, List.append_assoc]
      rfl

end Normal

end CatalogQuery.Source
