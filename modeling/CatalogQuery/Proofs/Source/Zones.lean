import CatalogQuery.Proofs.Grammar.Quotes
import CatalogQuery.Proofs.Source.Offsets

/-!
# Zones of a source and of its normal form

Normalization goes from zone to zone (`Zone.next`). `NormalForm zone cs ds` says how a source `cs`
and its normal form `ds` correspond where the normal form is in some zone: only in code is anything
changed, and there only whole words and single characters that become blanks.

The zones of the normal form are told by its own characters, since a comment inside brackets is
blanked and other comments stay. A lone carriage return is where a reader of the normal form might
take a comment to end although the zone goes on; `commentsEndLines` says that there is none
(`normalizeFrom_normalForm`).

The other lemmas cut normal forms: after quoted text (`NormalForm.quoted`) and after characters of
code that do not break off inside a word (`NormalForm.pass`).
-/

namespace CatalogQuery.Source

open Grammar (continues Ends QuotedText Quotation quoteMarks quoteStops)

/-! ### Zones -/

/-- The zone after a character. -/
def Zone.next : Zone → Char → Zone
  | .code depth, c => Zone.after depth c
  | .quoted mark escaped depth, c =>
    if escaped then .quoted mark false depth
    else if c = '\\' then .quoted mark true depth
    else if c = mark ∨ c = '\n' then .code depth
    else .quoted mark false depth
  | .comment depth, c => if c = '\n' then .code depth else .comment depth

/-- The zone that the normal form is in: a comment inside brackets is blanked. -/
def Zone.shown : Zone → Zone
  | .comment (depth + 1) => .code (depth + 1)
  | zone => zone

/-- Every carriage return in a comment outside brackets ends the line of the comment, with a line
feed or with the text. -/
def commentsEndLines : Zone → List Char → Bool
  | _, [] => true
  | zone, c :: cs =>
    (zone != .comment 0 || c != '\r' || cs.head?.all (· == '\n')) && commentsEndLines (zone.next c) cs

/-- The blank, and the characters that code ends at. -/
def codeStops : List Char := [' ', '\'', '"', '#']

theorem isWordChar_of_continues {c : Char} (hc : continues c = true) : isWordChar c = true := by
  rw [continues, Bool.or_eq_true] at hc
  rw [isWordChar, Bool.or_eq_true]
  exact hc.imp (fun h => Text.isAlphanumeric_of_isAlphanum h) id

/-- A word leaves code as it is. -/
theorem Zone.after_of_isWordChar {c : Char} (hc : isWordChar c = true) (d : Nat) :
    Zone.after d c = .code d := by
  have hall : ∀ x ∈ ['\'', '"', '#', '(', '[', '\x7b', ')', ']', '\x7d'],
      isWordChar x = false := by decide
  have hne : ∀ x ∈ ['\'', '"', '#', '(', '[', '\x7b', ')', ']', '\x7d'], c ≠ x := by
    rintro x hx rfl
    rw [hall c hx] at hc
    cases hc
  simp only [List.mem_cons, List.not_mem_nil, or_false, forall_eq_or_imp, forall_eq] at hne
  unfold Zone.after
  simp [hne]

/-- Only quotes and comments leave code. -/
theorem Zone.exists_after {c : Char} (hsingle : c ≠ '\'') (hdouble : c ≠ '"') (hhash : c ≠ '#')
    (d : Nat) : ∃ d', Zone.after d c = .code d' := by
  unfold Zone.after
  rw [if_neg (by simp [hsingle, hdouble]), if_neg hhash]
  split_ifs
  · exact ⟨_, rfl⟩
  · exact ⟨_, rfl⟩
  · exact ⟨_, rfl⟩

/-- Only comments are shown as another zone. -/
theorem Zone.shown_after {c : Char} (hc : c ≠ '#') (d : Nat) :
    (Zone.after d c).shown = Zone.after d c := by
  unfold Zone.after
  rw [if_neg hc]
  split_ifs <;> rfl

/-- A quoted character is followed by a quoted one or by code. -/
theorem Zone.shown_next_quoted (mark : Char) (escaped : Bool) (d : Nat) (c : Char) :
    (Zone.next (.quoted mark escaped d) c).shown = Zone.next (.quoted mark escaped d) c := by
  simp only [Zone.next]
  split_ifs <;> rfl

/-! ### Normal forms -/

/-- How a source and its normal form correspond, from a zone of the normal form on. -/
inductive NormalForm : Zone → List Char → List Char → Prop where
  | nil (zone : Zone) : NormalForm zone [] []
  | same {zone : Zone} {c : Char} {cs ds : List Char}
      (hreturn : ∀ d, zone = .comment d → c = '\r' → ∀ x ∈ ds.head?, x = '\n')
      (h : NormalForm (zone.next c) cs ds) : NormalForm zone (c :: cs) (c :: ds)
  /-- A whole word that is lowered. -/
  | word {d : Nat} {w l cs ds : List Char} (hl : l ∈ lowered) (hw : w.map Char.toLower = l)
      (hends : Ends ds) (h : NormalForm (.code d) cs ds) :
      NormalForm (.code d) (w ++ cs) (l ++ ds)
  /-- A character of a comment or a line break, inside brackets. -/
  | blanked {d : Nat} (c : Char) {cs ds : List Char} (h : NormalForm (.code d) cs ds) :
      NormalForm (.code d) (c :: cs) (List.replicate c.utf8Size ' ' ++ ds)

theorem continues_of_mem_lowered : ∀ w ∈ lowered, ∀ c ∈ w, continues c = true := by decide

theorem two_le_length_of_mem_lowered : ∀ w ∈ lowered, 2 ≤ w.length := by decide

namespace NormalForm

variable {cs ds w : List Char}

/-- A character of code that is kept. -/
theorem code {d : Nat} {c : Char} (h : NormalForm (Zone.after d c) cs ds) :
    NormalForm (.code d) (c :: cs) (c :: ds) :=
  .same (by rintro _ ⟨⟩) h

/-- A word that is kept. -/
theorem words {d : Nat} (hw : ∀ c ∈ w, isWordChar c = true) (h : NormalForm (.code d) cs ds) :
    NormalForm (.code d) (w ++ cs) (w ++ ds) := by
  induction w with
  | nil => exact h
  | cons c w ih =>
    obtain ⟨hc, hw⟩ := List.forall_mem_cons.mp hw
    refine .code ?_
    rw [Zone.after_of_isWordChar hc]
    exact ih hw

/-- A word in front of something else than a word. -/
theorem settled {d : Nat} (hw : ∀ c ∈ w, isWordChar c = true) (hends : Ends ds)
    (h : NormalForm (.code d) cs ds) : NormalForm (.code d) (w ++ cs) (settle w ++ ds) := by
  unfold settle
  dsimp only
  split_ifs with hl
  · exact .word hl rfl hends h
  · exact h.words hw

/-- A character of code that is no part of a word. -/
theorem settledChar {d : Nat} (c : Char) (h : NormalForm (Zone.after d c).shown cs ds) :
    NormalForm (.code d) (c :: cs) (settleChar d c ++ ds) := by
  unfold settleChar
  split_ifs with hnewline hhash
  · -- a line break is kept outside brackets
    obtain rfl := hnewline
    cases d with
    | zero => exact .code h
    | succ d => exact .blanked '\n' h
  · -- and so is the mark of a comment
    obtain rfl := hhash
    cases d with
    | zero => exact .code h
    | succ d => exact .blanked '#' h
  · refine .code ?_
    rwa [Zone.shown_after hhash] at h

end NormalForm

theorem ends_of_isWordChar {cs : List Char} (h : ∀ c ∈ cs.head?, isWordChar c = false) :
    Ends cs := by
  intro c hc
  by_contra hcontinues
  have hword := isWordChar_of_continues (eq_true_of_ne_false hcontinues)
  rw [h c hc] at hword
  cases hword

/-- No word goes on into the normal form of a character that is no part of a word. -/
theorem head_settleChar {c : Char} (hc : isWordChar c = false) (d : Nat) (ds : List Char) :
    ∀ x ∈ (settleChar d c ++ ds).head?, isWordChar x = false := by
  obtain ⟨n, hn⟩ := Nat.exists_eq_add_one.mpr c.utf8Size_pos
  unfold settleChar joined faded
  rw [hn, List.replicate_succ]
  split_ifs <;> (rintro x ⟨⟩; first | rfl | exact hc)

/-- **The normal form of a source** whose comments end with their lines. A word is only begun in
code. -/
theorem normalizeFrom_normalForm {zone : Zone} {word cs : List Char}
    (hend : commentsEndLines zone cs = true) (hword : word = [] ∨ ∃ d, zone = .code d)
    (hall : ∀ c ∈ word, isWordChar c = true) :
    NormalForm zone.shown (word ++ cs) (normalizeFrom zone word cs) := by
  fun_induction normalizeFrom zone word cs with
  | case1 zone word =>
    rcases hword with rfl | ⟨d, rfl⟩
    · exact .nil _
    · rw [← List.append_nil (settle word)]
      exact (NormalForm.nil _).settled hall (by rintro _ ⟨⟩)
  | case2 mark escaped d word c cs ih =>
    -- in a quote every character is kept
    obtain rfl : word = [] := by simpa using hword
    rw [commentsEndLines, Bool.and_eq_true] at hend
    refine .same (by rintro _ ⟨⟩) ?_
    have hnext := ih hend.2 (.inl rfl) hall
    show NormalForm (Zone.next (.quoted mark escaped d) c) cs _
    rw [← Zone.shown_next_quoted]
    exact hnext
  | case3 d word cs ih =>
    obtain rfl : word = [] := by simpa using hword
    rw [commentsEndLines, Bool.and_eq_true] at hend
    have hnext := ih hend.2 (.inl rfl) hall
    cases d with
    -- the line feed ends a comment, outside brackets or within them
    | zero => exact .same (by rintro _ _ ⟨⟩) hnext
    | succ d => exact .blanked '\n' hnext
  | case4 d word c cs hc ih =>
    obtain rfl : word = [] := by simpa using hword
    rw [commentsEndLines, Bool.and_eq_true, Zone.next, if_neg hc] at hend
    obtain ⟨hreturn, hend⟩ := hend
    have hnext := ih hend (.inl rfl) hall
    cases d with
    | zero =>
      -- outside brackets the comment is kept, and a carriage return in it stands before a line feed
      refine .same ?_ (show NormalForm (Zone.next (.comment 0) c) _ _ from ?_)
      · rintro _ ⟨⟩ rfl x hx
        cases cs with
        | nil => cases hx
        | cons y cs =>
          obtain rfl : y = '\n' := by simpa using hreturn
          rw [normalizeFrom, if_pos rfl] at hx
          cases hx
          rfl
      · rw [Zone.next, if_neg hc]
        exact hnext
    -- within brackets it is blanked
    | succ d => exact .blanked c hnext
  | case5 d word c cs hc ih =>
    -- the word goes on
    rw [commentsEndLines, Bool.and_eq_true, Zone.next, Zone.after_of_isWordChar hc] at hend
    rw [List.append_cons]
    refine ih hend.2 (.inr ⟨d, rfl⟩) fun x hx => ?_
    rcases List.mem_append.mp hx with hx | hx
    · exact hall x hx
    · rw [List.mem_singleton.mp hx]
      exact hc
  | case6 d word c cs hc ih =>
    -- the word is settled, and the character after it
    rw [commentsEndLines, Bool.and_eq_true] at hend
    rw [List.append_assoc]
    exact (NormalForm.settledChar c (ih hend.2 (.inl rfl) (by simp))).settled hall
      (ends_of_isWordChar (head_settleChar (by simpa using hc) d _))

/-! ### Cutting normal forms -/

namespace NormalForm

variable {cs ds w r : List Char} {d : Nat} {c mark : Char}

/-- Outside code nothing is changed. -/
theorem of_not_code {zone : Zone} (hzone : ∀ d, zone ≠ .code d) (h : NormalForm zone cs (c :: ds)) :
    ∃ cs', cs = c :: cs' ∧ NormalForm (zone.next c) cs' ds ∧
      ∀ d, zone = .comment d → c = '\r' → ∀ x ∈ ds.head?, x = '\n' := by
  generalize hn : c :: ds = n at h
  cases h with
  | nil => cases hn
  | same hreturn h =>
    cases hn
    exact ⟨_, rfl, h, hreturn⟩
  | word => exact absurd rfl (hzone _)
  | blanked => exact absurd rfl (hzone _)

/-- A character of code that is no blank and belongs to no word is kept. -/
theorem of_mark (h : NormalForm (.code d) cs (c :: ds)) (hblank : c ≠ ' ')
    (hc : continues c = false) : ∃ cs', cs = c :: cs' ∧ NormalForm (Zone.after d c) cs' ds := by
  generalize hn : c :: ds = n at h
  cases h with
  | nil => cases hn
  | same _ h =>
    cases hn
    exact ⟨_, rfl, h⟩
  | @word _ _ l _ _ hl =>
    -- a keyword does not begin with a mark
    cases l with
    | nil => exact absurd (two_le_length_of_mem_lowered [] hl) (by decide)
    | cons x l =>
      cases hn
      rw [continues_of_mem_lowered _ hl c List.mem_cons_self] at hc
      cases hc
  | blanked b =>
    -- a mark is no blank
    obtain ⟨n, hn'⟩ := Nat.exists_eq_add_one.mpr b.utf8Size_pos
    rw [hn', List.replicate_succ] at hn
    exact absurd (List.cons.inj hn).1 hblank

/-- A letter between other things than words is kept. -/
theorem of_letter (h : NormalForm (.code d) cs (c :: ds)) (hc : continues c = true)
    (hends : Ends ds) : ∃ cs', cs = c :: cs' ∧ NormalForm (.code d) cs' ds := by
  generalize hn : c :: ds = n at h
  cases h with
  | nil => cases hn
  | same _ h =>
    cases hn
    refine ⟨_, rfl, ?_⟩
    rwa [Zone.next, Zone.after_of_isWordChar (isWordChar_of_continues hc)] at h
  | @word _ _ l _ ds' hl _ hends' =>
    -- the keyword would be a single letter
    have hlen : l = [c] :=
      Grammar.word_unique (continues_of_mem_lowered l hl) (by simpa using hc) hends' hends hn.symm
    have htwo := two_le_length_of_mem_lowered l hl
    rw [hlen] at htwo
    exact absurd htwo (by simp)
  | blanked b =>
    -- a letter is no blank
    obtain ⟨n, hn'⟩ := Nat.exists_eq_add_one.mpr b.utf8Size_pos
    rw [hn', List.replicate_succ] at hn
    rw [(List.cons.inj hn).1] at hc
    cases hc

/-- **Quoted text is kept**, up to the mark that ends it. -/
theorem quoted (hmark : mark ≠ '\\') (hw : QuotedText mark w)
    (h : NormalForm (.quoted mark false d) cs (w ++ mark :: ds)) :
    ∃ cs', cs = w ++ mark :: cs' ∧ NormalForm (.code d) cs' ds := by
  induction hw generalizing cs with
  | nil =>
    obtain ⟨cs', rfl, h, -⟩ := h.of_not_code (by rintro _ ⟨⟩)
    have hnext : Zone.next (.quoted mark false d) mark = .code d := by simp [Zone.next, hmark]
    exact ⟨cs', rfl, hnext ▸ h⟩
  | escaped c _ ih =>
    -- the backslash, and the character that it escapes
    obtain ⟨cs₁, rfl, h, -⟩ := h.of_not_code (by rintro _ ⟨⟩)
    have hnext : Zone.next (.quoted mark false d) '\\' = .quoted mark true d := rfl
    obtain ⟨cs₂, rfl, h, -⟩ := (hnext ▸ h).of_not_code (by rintro _ ⟨⟩)
    obtain ⟨cs', rfl, h'⟩ := ih h
    exact ⟨cs', rfl, h'⟩
  | @plain c _ hc _ ih =>
    -- the zone does not change
    obtain ⟨cs₁, rfl, h, -⟩ := h.of_not_code (by rintro _ ⟨⟩)
    have hnext : Zone.next (.quoted mark false d) c = .quoted mark false d := by
      simp only [quoteStops, List.mem_cons, not_or] at hc
      simp [Zone.next, hc]
    obtain ⟨cs', rfl, h'⟩ := ih (hnext ▸ h)
    exact ⟨cs', rfl, h'⟩

/-- A quoted part is kept. -/
theorem marked (hmark : mark ∈ quoteMarks) (hw : QuotedText mark w)
    (h : NormalForm (.code d) cs (mark :: (w ++ [mark]) ++ ds)) :
    ∃ cs', cs = mark :: (w ++ [mark]) ++ cs' ∧ NormalForm (.code d) cs' ds := by
  obtain ⟨hblank, hcontinues, hbackslash⟩ :
      mark ≠ ' ' ∧ continues mark = false ∧ mark ≠ '\\' := by
    have hall : ∀ x ∈ quoteMarks, x ≠ ' ' ∧ continues x = false ∧ x ≠ '\\' := by decide
    exact hall mark hmark
  have hafter : Zone.after d mark = .quoted mark false d := by
    simp only [quoteMarks, List.mem_cons, List.not_mem_nil, or_false] at hmark
    rw [Zone.after, if_pos hmark]
  -- the mark in front is kept, and then the text of the quote
  rw [List.cons_append, List.append_assoc] at h
  obtain ⟨cs₁, rfl, h₁⟩ := h.of_mark hblank hcontinues
  obtain ⟨cs', rfl, h'⟩ := (hafter ▸ h₁).quoted hbackslash hw
  exact ⟨cs', by simp, h'⟩

/-- **A string literal is kept**, with the letter before it. -/
theorem quotation {ts : List Grammar.ParseTree} (hw : Quotation w ts)
    (h : NormalForm (.code d) cs (w ++ ds)) :
    ∃ cs', cs = w ++ cs' ∧ NormalForm (.code d) cs' ds := by
  cases hw with
  | bare hmark hw => exact h.marked hmark hw
  | @marked x mark w _ _ hx _ hmark hw =>
    -- the letter before the mark is kept, as no word goes on behind it
    have hletter : continues x = true := by
      have hall : ∀ y ∈ ['r', 'u'], y.isAlpha = true := by decide
      exact Grammar.continues_of_toLower (hall _ hx)
    have hends : Ends (mark :: (w ++ [mark]) ++ ds) := by
      have hall : ∀ x ∈ quoteMarks, continues x = false := by decide
      rintro y ⟨⟩
      exact hall mark hmark
    obtain ⟨cs₁, rfl, h₁⟩ := h.of_letter hletter hends
    obtain ⟨cs', rfl, h'⟩ := h₁.marked hmark hw
    exact ⟨cs', rfl, h'⟩

/-- **Code is cut** where no word goes on: the pieces are as long as each other. -/
theorem pass (hw : ∀ c ∈ w, c ∉ codeStops)
    (hends : Ends r ∨ ∀ c ∈ w, continues c = false) (h : NormalForm (.code d) cs (w ++ r)) :
    ∃ v cs' d', cs = v ++ cs' ∧ byteLength v = byteLength w ∧ NormalForm (.code d') cs' r := by
  generalize hn : w ++ r = n at h
  generalize hz : Zone.code d = zone at h
  induction h generalizing w d with
  | nil zone =>
    obtain ⟨rfl, rfl⟩ := List.append_eq_nil_iff.mp hn
    exact ⟨[], [], d, rfl, rfl, .nil _⟩
  | @same zone c cs ds hreturn h ih =>
    cases hz
    cases w with
    | nil =>
      obtain rfl : r = c :: ds := hn
      exact ⟨[], c :: cs, d, rfl, rfl, .same hreturn h⟩
    | cons x w =>
      obtain ⟨rfl, rfl⟩ := List.cons.inj hn
      obtain ⟨hx, hw⟩ := List.forall_mem_cons.mp hw
      simp only [codeStops, List.mem_cons, List.not_mem_nil, or_false, not_or] at hx
      obtain ⟨d₁, hd₁⟩ := Zone.exists_after hx.2.1 hx.2.2.1 hx.2.2.2 d
      have hends' := hends.imp_right fun h c hc => h c (List.mem_cons_of_mem x hc)
      obtain ⟨v, cs', d', rfl, hlen, h'⟩ := ih hw hends' rfl hd₁.symm
      exact ⟨x :: v, cs', d', rfl, by rw [byteLength_cons, byteLength_cons, hlen], h'⟩
  | @word d₁ v l cs ds hl hv hends' h ih =>
    cases hz
    have hlen : byteLength v = byteLength l := by
      rw [← hv, byteLength, byteLength, List.map_map]
      congr 1
      exact List.map_congr_left fun c _ => (utf8Size_toLower c).symm
    rcases List.append_eq_append_iff.mp hn with ⟨t, rfl, rfl⟩ | ⟨t, rfl, rfl⟩
    · have hall := continues_of_mem_lowered _ hl
      cases w with
      | nil => exact ⟨[], v ++ cs, d₁, rfl, rfl, .word hl hv hends' h⟩
      | cons x w =>
        rcases hends with hends | hmarks
        · cases t with
          | nil =>
            rw [List.append_nil] at hlen
            exact ⟨v, cs, d₁, rfl, hlen, h⟩
          | cons y t =>
            -- the cut is not inside the word
            have hy := hall y (List.mem_append_right _ List.mem_cons_self)
            rw [hends y rfl] at hy
            cases hy
        · have hx := hall x List.mem_cons_self
          rw [hmarks x List.mem_cons_self] at hx
          cases hx
    · obtain ⟨v', cs', d', rfl, hlen', h'⟩ := ih (fun c hc => hw c (List.mem_append_right l hc))
        (hends.imp_right fun h c hc => h c (List.mem_append_right l hc)) rfl rfl
      refine ⟨v ++ v', cs', d', (List.append_assoc ..).symm, ?_, h'⟩
      rw [byteLength_append, byteLength_append, hlen, hlen']
  | @blanked d₁ b cs ds h ih =>
    cases hz
    cases w with
    | nil =>
      obtain rfl : r = _ := hn
      exact ⟨[], b :: cs, d₁, rfl, rfl, .blanked b h⟩
    | cons x w =>
      obtain ⟨n, hsize⟩ := Nat.exists_eq_add_one.mpr b.utf8Size_pos
      rw [hsize, List.replicate_succ] at hn
      exact absurd (List.cons.inj hn).1 (by
        rintro rfl
        exact hw ' ' List.mem_cons_self (by decide))

end NormalForm

end CatalogQuery.Source
