import CatalogQuery.Proofs.Source.Brackets
import Mathlib.Data.List.DropRight
import Mathlib.Data.List.Induction

/-!
# Normal forms character by character

A first part of a source is normalized in one way, whatever follows, except for a word that it ends
with (`begun`), which is held back until it is whole (`normalizeChars_append`). So what normalization
writes for a character is told by the zone that the character is in and by the word that it stands in:
`Written before c after` gives the three cases. Byte for byte it is written where the character
stands in the source (`normalize_offsets`).
-/

namespace CatalogQuery.Source

open Grammar (quoteMarks)

/-! ### First parts -/

/-- The zone that a first part of a source leads to. -/
def zoneAfter (before : List Char) : Zone := before.foldl Zone.next (.code 0)

theorem zoneAfter_concat (before : List Char) (c : Char) :
    zoneAfter (before ++ [c]) = (zoneAfter before).next c := by
  rw [zoneAfter, List.foldl_append]
  rfl

/-- The word that a first part of a source ends with. -/
def begun (before : List Char) : List Char :=
  match zoneAfter before with
  | .code _ => before.rtakeWhile isWordChar
  | _ => []

theorem begun_of_code {before : List Char} {d : Nat} (h : zoneAfter before = .code d) :
    begun before = before.rtakeWhile isWordChar := by
  rw [begun, h]

theorem begun_of_not_code {before : List Char} (h : ∀ d, zoneAfter before ≠ .code d) :
    begun before = [] := by
  unfold begun
  split
  · exact absurd ‹_› (h _)
  · rfl

theorem begun_eq_nil {before : List Char} (h : ∀ c ∈ before.getLast?, isWordChar c = false) :
    begun before = [] := by
  unfold begun
  split
  · refine List.rtakeWhile_eq_nil_iff.mpr fun hne => ?_
    rw [h _ (List.getLast?_eq_getLast_of_ne_nil hne)]
    decide
  · rfl

/-- Only a mark begins a quote. -/
theorem mem_quoteMarks_of_zoneAfter {before : List Char} {mark : Char} {escaped : Bool} {d : Nat}
    (h : zoneAfter before = .quoted mark escaped d) : mark ∈ quoteMarks := by
  induction before using List.reverseRecOn generalizing escaped d with
  | nil => cases h
  | append_singleton before c ih =>
    rw [zoneAfter_concat] at h
    cases hzone : zoneAfter before with
    | code e =>
      -- from code a quote is only entered at a mark
      rw [hzone, Zone.next, Zone.after] at h
      split_ifs at h with hmark
      cases h
      simpa [quoteMarks] using hmark
    | quoted m b e =>
      -- within a quote the mark stays the same
      rw [hzone, Zone.next] at h
      split_ifs at h <;> (cases h; exact ih hzone)
    | comment e =>
      rw [hzone, Zone.next] at h
      split_ifs at h

/-- After a character that is no part of a word no word has begun. Words do not go on in quotes and
comments. -/
theorem begun_concat {before : List Char} {c : Char}
    (h : isWordChar c = false ∨ ∀ d, zoneAfter before ≠ .code d) : begun (before ++ [c]) = [] := by
  unfold begun
  split
  · rename_i d hzone
    refine List.rtakeWhile_concat_neg _ _ _ ?_
    rcases h with h | h
    · simp [h]
    -- a quote ends with its mark or with a line feed, and a comment with a line feed
    rw [zoneAfter_concat] at hzone
    cases hbefore : zoneAfter before with
    | code e => exact absurd hbefore (h e)
    | quoted mark escaped e =>
      rw [hbefore, Zone.next] at hzone
      split_ifs at hzone with _ _ hend
      have hall : ∀ x ∈ quoteMarks, isWordChar x ≠ true := by decide
      rcases hend with rfl | rfl
      · exact hall _ (mem_quoteMarks_of_zoneAfter hbefore)
      · decide
    | comment e =>
      rw [hbefore, Zone.next] at hzone
      split_ifs at hzone with hend
      rw [hend]
      decide
  · rfl

theorem byteLength_settle (word : List Char) : byteLength (settle word) = byteLength word :=
  (settle_inPlace word).byteLength_eq

/-- What a character becomes in a zone, and the word that has begun with it. -/
theorem normalizeFrom_next (before : List Char) (c : Char) :
    ∃ w, ∀ rest, normalizeFrom (zoneAfter before) (begun before) (c :: rest)
      = w ++ normalizeFrom (zoneAfter (before ++ [c])) (begun (before ++ [c])) rest := by
  have hnext := zoneAfter_concat before c
  cases hzone : zoneAfter before with
  | code d =>
    rw [hzone, Zone.next] at hnext
    by_cases hc : isWordChar c = true
    · -- the word goes on
      rw [Zone.after_of_isWordChar hc] at hnext
      have hbegun : begun (before ++ [c]) = begun before ++ [c] := by
        rw [begun_of_code hnext, begun_of_code hzone, List.rtakeWhile_concat_pos _ _ _ hc]
      refine ⟨[], fun rest => ?_⟩
      rw [normalizeFrom, if_pos hc, hnext, hbegun, List.nil_append]
    · refine ⟨settle (begun before) ++ settleChar d c, fun rest => ?_⟩
      rw [begun_concat (.inl (by simpa using hc)), normalizeFrom, if_neg hc, hnext]
  | quoted mark escaped d =>
    rw [hzone, Zone.next] at hnext
    have hcode : ∀ d, zoneAfter before ≠ .code d := by simp [hzone]
    refine ⟨[c], fun rest => ?_⟩
    rw [begun_concat (.inr hcode), begun_of_not_code hcode, normalizeFrom, hnext]
    rfl
  | comment d =>
    rw [hzone, Zone.next] at hnext
    have hcode : ∀ d, zoneAfter before ≠ .code d := by simp [hzone]
    rw [begun_concat (.inr hcode), begun_of_not_code hcode]
    by_cases hc : c = '\n'
    · rw [if_pos hc] at hnext
      refine ⟨[joined d], fun rest => ?_⟩
      rw [normalizeFrom, if_pos hc, hnext]
      rfl
    · rw [if_neg hc] at hnext
      refine ⟨faded d c, fun rest => ?_⟩
      rw [normalizeFrom, if_neg hc, hnext]

/-- **The first part of a source** is normalized in one way, whatever follows, up to the word that it
ends with. By induction on this part from its last character. -/
theorem normalizeChars_append (before : List Char) :
    ∃ out, byteLength out + byteLength (begun before) = byteLength before ∧
      ∀ rest, normalizeChars (before ++ rest)
        = out ++ normalizeFrom (zoneAfter before) (begun before) rest := by
  obtain ⟨out, hrest⟩ : ∃ out, ∀ rest, normalizeChars (before ++ rest)
      = out ++ normalizeFrom (zoneAfter before) (begun before) rest := by
    induction before using List.reverseRecOn with
    | nil => exact ⟨[], fun _ => rfl⟩
    | append_singleton before c ih =>
      obtain ⟨out, hrest⟩ := ih
      obtain ⟨w, hw⟩ := normalizeFrom_next before c
      exact ⟨out ++ w, fun rest => by
        rw [List.append_assoc, List.singleton_append, hrest, hw, List.append_assoc]⟩
  refine ⟨out, ?_, hrest⟩
  -- at the end of the source the word is whole
  have hlength := (normalizeChars_inPlace before).byteLength_eq
  have hend := hrest []
  rw [List.append_nil, normalizeFrom] at hend
  rwa [hend, byteLength_append, byteLength_settle] at hlength

/-! ### What is written for a character -/

/-- How many brackets a character stands inside of. -/
def Zone.depth : Zone → Nat
  | .code d | .quoted _ _ d | .comment d => d

/-- The whole word that a character stands in, if it is part of a word. -/
def wordAround (before : List Char) (c : Char) (after : List Char) : List Char :=
  before.rtakeWhile isWordChar ++ c :: after.takeWhile isWordChar

/-- Outside quotes and comments, the character belongs to a word that is a keyword in any case. -/
def InKeyword (before : List Char) (c : Char) (after : List Char) : Prop :=
  zoneAfter before = .code (zoneAfter before).depth ∧
    (wordAround before c after).map Char.toLower ∈ lowered

/-- Inside brackets, the character belongs to a comment or is a line break outside quotes. -/
def Blanked (zone : Zone) (c : Char) : Prop :=
  0 < zone.depth ∧ (zone = .comment zone.depth ∨ zone = .code zone.depth ∧ (c = '\n' ∨ c = '#'))

instance (before : List Char) (c : Char) (after : List Char) : Decidable (InKeyword before c after) :=
  inferInstanceAs (Decidable (_ ∧ _))

instance (zone : Zone) (c : Char) : Decidable (Blanked zone c) :=
  inferInstanceAs (Decidable (_ ∧ _))

/-- What normalization writes for a character of a source. -/
inductive Written (before : List Char) (c : Char) (after : List Char) : List Char → Prop where
  | lowered (h : InKeyword before c after) : Written before c after [c.toLower]
  | blanked (h : Blanked (zoneAfter before) c) :
      Written before c after (List.replicate c.utf8Size ' ')
  | kept (hword : ¬ InKeyword before c after) (hblank : ¬ Blanked (zoneAfter before) c) :
      Written before c after [c]

variable {before after piece : List Char} {c : Char} {d : Nat}

theorem isWordChar_of_toLower_mem {l : List Char} (hl : l ∈ lowered) (hc : c.toLower ∈ l) :
    isWordChar c = true := by
  have hall : ∀ l ∈ lowered, ∀ x ∈ l, x.isAlpha = true := by decide
  exact isWordChar_of_continues (Grammar.continues_of_toLower (hall l hl _ hc))

theorem InKeyword.isWordChar (h : InKeyword before c after) : isWordChar c = true :=
  isWordChar_of_toLower_mem h.2 (List.mem_map_of_mem (by simp [wordAround]))

namespace Written

theorem byteLength_eq (h : Written before c after piece) : byteLength piece = c.utf8Size := by
  cases h with
  | lowered => rw [byteLength_cons, utf8Size_toLower, byteLength_nil, Nat.add_zero]
  | blanked => exact byteLength_replicate_blank _
  | kept => rfl

/-- Quotes are kept. -/
theorem of_quoted {mark : Char} {escaped : Bool} (h : Written before c after piece)
    (hzone : zoneAfter before = .quoted mark escaped d) : piece = [c] := by
  cases h with
  | lowered h =>
    -- only code is lowered
    have hcode := h.1
    rw [hzone] at hcode
    cases hcode
  | blanked h =>
    -- only comments, and line feeds and hashes of code, are blanked
    rw [hzone] at h
    rcases h.2 with hcomment | ⟨hcode, -⟩
    · cases hcomment
    · cases hcode
  | kept => rfl

/-- Line breaks outside brackets are kept. -/
theorem of_break (h : Written before '\n' after piece) (hdepth : (zoneAfter before).depth = 0) :
    piece = ['\n'] := by
  cases h with
  | lowered h => exact absurd h.isWordChar (by decide)
  | blanked h => exact absurd h.1 (by rw [hdepth]; exact Nat.lt_irrefl 0)
  | kept => rfl

/-- A character that is in no word is blanked or kept. -/
theorem of_not_word (hc : isWordChar c = false ∨ ∀ d, zoneAfter before ≠ .code d) :
    Written before c after
      (if Blanked (zoneAfter before) c then List.replicate c.utf8Size ' ' else [c]) := by
  split_ifs with hblank
  · exact .blanked hblank
  · refine .kept (fun h => ?_) hblank
    rcases hc with hc | hc
    · rw [h.isWordChar] at hc
      cases hc
    · exact hc _ h.1

end Written

/-! ### Byte for byte -/

theorem faded_eq (d : Nat) (c : Char) :
    faded d c = if Blanked (.comment d) c then List.replicate c.utf8Size ' ' else [c] := by
  have hblanked : Blanked (.comment d) c ↔ 0 < d := by simp [Blanked, Zone.depth]
  simp only [faded, hblanked]

theorem joined_eq (d : Nat) : [joined d] = faded d '\n' := by
  unfold joined faded
  split_ifs <;> rfl

theorem settleChar_eq (d : Nat) (c : Char) :
    settleChar d c = if Blanked (.code d) c then List.replicate c.utf8Size ' ' else [c] := by
  have hblanked : Blanked (.code d) c ↔ 0 < d ∧ (c = '\n' ∨ c = '#') := by
    simp [Blanked, Zone.depth]
  simp only [hblanked, settleChar]
  by_cases hbreak : c = '\n'
  · subst hbreak
    simp [joined_eq, faded]
  by_cases hhash : c = '#'
  · subst hhash
    simp [faded]
  · simp [hbreak, hhash]

/-- **A character of a word** is lowered with its whole word, or kept. The word is whole where what
comes after it goes on without it. -/
theorem normalizeFrom_written_word (hzone : zoneAfter before = .code d) (hc : isWordChar c = true) :
    ∃ w piece after', normalizeFrom (.code d) (begun before) (c :: after) = w ++ piece ++ after' ∧
      byteLength w = byteLength (begun before) ∧ Written before c after piece := by
  rw [begun_of_code hzone]
  -- the scan settles the whole word around the character at once
  have hwhole : normalizeFrom (.code d) (before.rtakeWhile isWordChar) (c :: after)
      = settle (wordAround before c after)
        ++ normalizeFrom (.code d) [] (after.dropWhile isWordChar) := by
    have hword : ∀ x ∈ c :: after.takeWhile isWordChar, isWordChar x = true :=
      List.forall_mem_cons.mpr ⟨hc, fun x => List.mem_takeWhile_imp⟩
    have hafter : c :: after
        = c :: after.takeWhile isWordChar ++ after.dropWhile isWordChar := by simp
    rw [hafter, normalizeFrom_wordChars hword, normalizeFrom_settle, wordAround]
    intro x hx
    have hnot := List.head?_dropWhile_not isWordChar after
    rw [Option.mem_def.mp hx] at hnot
    simpa using hnot
  -- so the character is lowered exactly if that word is a keyword
  by_cases hlowered : (wordAround before c after).map Char.toLower ∈ lowered
  · refine ⟨(before.rtakeWhile isWordChar).map Char.toLower, [c.toLower],
      (after.takeWhile isWordChar).map Char.toLower
        ++ normalizeFrom (.code d) [] (after.dropWhile isWordChar), ?_,
      (InPlace.map utf8Size_toLower _).byteLength_eq, .lowered ⟨by rw [hzone]; rfl, hlowered⟩⟩
    rw [hwhole, settle, if_pos hlowered, wordAround]
    simp
  · refine ⟨before.rtakeWhile isWordChar, [c], after.takeWhile isWordChar
      ++ normalizeFrom (.code d) [] (after.dropWhile isWordChar), ?_, rfl,
      .kept (fun h => hlowered h.2) (fun h => ?_)⟩
    · rw [hwhole, settle, if_neg hlowered, wordAround]
      simp
    · -- a line feed and a hash belong to no word
      have hbreak : isWordChar '\n' = false := by decide
      have hhash : isWordChar '#' = false := by decide
      rw [hzone] at h
      rcases h.2 with hcomment | ⟨-, rfl | rfl⟩
      · cases hcomment
      · rw [hbreak] at hc
        cases hc
      · rw [hhash] at hc
        cases hc

/-- **What is written for a character** stands behind as many bytes as the character does. -/
theorem normalizeChars_written (before : List Char) (c : Char) (after : List Char) :
    ∃ before' piece after', normalizeChars (before ++ c :: after) = before' ++ piece ++ after' ∧
      byteLength before' = byteLength before ∧ Written before c after piece := by
  obtain ⟨out, hlength, hrest⟩ := normalizeChars_append before
  -- a word that has begun before the character is written with it
  obtain ⟨w, piece, after', hnormal, hw, hwritten⟩ : ∃ w piece after',
      normalizeFrom (zoneAfter before) (begun before) (c :: after) = w ++ piece ++ after' ∧
        byteLength w = byteLength (begun before) ∧ Written before c after piece := by
    cases hzone : zoneAfter before with
    | code d =>
      by_cases hc : isWordChar c = true
      · exact normalizeFrom_written_word hzone hc
      · refine ⟨settle (begun before), settleChar d c, normalizeFrom (Zone.after d c) [] after, ?_,
          byteLength_settle _, ?_⟩
        · rw [normalizeFrom, if_neg hc]
        · rw [settleChar_eq, ← hzone]
          exact .of_not_word (.inl (by simpa using hc))
    | quoted mark escaped d =>
      have hcode : ∀ d, zoneAfter before ≠ .code d := by simp [hzone]
      have hwritten : Written before c after _ := .of_not_word (.inr hcode)
      rw [hwritten.of_quoted hzone] at hwritten
      rw [begun_of_not_code hcode]
      exact ⟨[], [c], _, by rw [normalizeFrom]; rfl, rfl, hwritten⟩
    | comment d =>
      have hcode : ∀ d, zoneAfter before ≠ .code d := by simp [hzone]
      have hwritten : Written before c after _ := .of_not_word (.inr hcode)
      rw [hzone, ← faded_eq] at hwritten
      rw [begun_of_not_code hcode]
      by_cases hc : c = '\n'
      · subst hc
        rw [← joined_eq] at hwritten
        exact ⟨[], _, normalizeFrom (.code d) [] after, by rw [normalizeFrom, if_pos rfl]; rfl, rfl,
          hwritten⟩
      · exact ⟨[], _, normalizeFrom (.comment d) [] after, by rw [normalizeFrom, if_neg hc]; rfl, rfl,
          hwritten⟩
  refine ⟨out ++ w, piece, after', ?_, ?_, hwritten⟩
  · rw [hrest, hnormal]
    simp only [List.append_assoc]
  · rw [byteLength_append, hw, hlength]

/-- **Normalization keeps every byte in place.** The normal form is as long as the source, and can be
cut wherever the source can. For each character the normal form holds, at the offset of the
character and in as many bytes, the character itself; or its lower case, where it belongs to a whole
word of code that is a keyword in any case; or blanks, where it belongs to a comment inside brackets
or is a line break inside brackets and outside quotes. Quotes, and line breaks outside brackets, are
kept. -/
theorem normalize_offsets (s : String) :
    (normalize s).utf8ByteSize = s.utf8ByteSize ∧
      (∀ p : String.Pos.Raw, p.IsValid s → p.IsValid (normalize s)) ∧
      ∀ before c after, s.toList = before ++ c :: after →
        ∃ before' piece after', (normalize s).toList = before' ++ piece ++ after' ∧
          byteLength before' = byteLength before ∧ byteLength piece = c.utf8Size ∧
          Written before c after piece ∧
          (∀ mark escaped d, zoneAfter before = .quoted mark escaped d → piece = [c]) ∧
          (c = '\n' → (zoneAfter before).depth = 0 → piece = [c]) := by
  have hnormal : (normalize s).toList = normalizeChars s.toList := String.toList_ofList
  have hlength := (normalizeChars_inPlace s.toList).byteLength_eq
  refine ⟨?_, fun p hp => ?_, fun before c after hs => ?_⟩
  · rw [utf8ByteSize_eq, utf8ByteSize_eq, hnormal, hlength]
  · obtain ⟨before, after, hs, hp⟩ := isValid_iff.mp hp
    rw [isValid_iff, hnormal]
    cases after with
    | nil =>
      rw [hs, List.append_nil] at hlength
      exact ⟨_, [], (List.append_nil _).symm, by rw [hs, List.append_nil, hlength, hp]⟩
    | cons c after =>
      -- the source is cut in front of a character
      obtain ⟨before', piece, after', hwritten, hbefore, -⟩ := normalizeChars_written before c after
      exact ⟨before', piece ++ after', by rw [hs, hwritten, List.append_assoc], hbefore.trans hp⟩
  · obtain ⟨before', piece, after', hpiece, hbefore, hwritten⟩ :=
      normalizeChars_written before c after
    refine ⟨before', piece, after', by rw [hnormal, hs, hpiece], hbefore, hwritten.byteLength_eq,
      hwritten, fun mark escaped d => hwritten.of_quoted, ?_⟩
    rintro rfl
    exact hwritten.of_break

/-- A letter of two bytes in a comment, one of a keyword, and one in a quote. -/
theorem normalize_offsets_commented :
    let s := "f(1, #ö\n2) AND g('NOT')"
    (∃ u v, (normalize s).toList = u ++ [' ', ' '] ++ v ∧ byteLength u = 6) ∧
      (∃ u v, (normalize s).toList = u ++ ['n'] ++ v ∧ byteLength u = 13) ∧
      ∃ u v, (normalize s).toList = u ++ ['N'] ++ v ∧ byteLength u = 19 := by
  intro s
  refine ⟨?_, ?_, ?_⟩
  · obtain ⟨u, piece, v, hpiece, hu, -, hwritten, -⟩ := (normalize_offsets s).2.2 "f(1, #".toList 'ö'
      "\n2) AND g('NOT')".toList (by decide +kernel)
    obtain rfl : piece = [' ', ' '] := by
      cases hwritten with
      | lowered h => exact absurd h (by decide +kernel)
      | blanked => rfl
      | kept _ h => exact absurd (by decide +kernel) h
    exact ⟨u, v, hpiece, hu⟩
  · obtain ⟨u, piece, v, hpiece, hu, -, hwritten, -⟩ := (normalize_offsets s).2.2
      "f(1, #ö\n2) A".toList 'N' "D g('NOT')".toList (by decide +kernel)
    obtain rfl : piece = ['n'] := by
      cases hwritten with
      | lowered => rfl
      | blanked h => exact absurd h (by decide +kernel)
      | kept h => exact absurd (by decide +kernel) h
    exact ⟨u, v, hpiece, hu⟩
  · obtain ⟨u, piece, v, hpiece, hu, -, -, hquoted, -⟩ := (normalize_offsets s).2.2
      "f(1, #ö\n2) AND g('".toList 'N' "OT')".toList (by decide +kernel)
    obtain rfl : piece = ['N'] := hquoted '\'' false 1 (by decide +kernel)
    exact ⟨u, v, hpiece, hu⟩

end CatalogQuery.Source
