import CatalogQuery.Proofs.Source.Edits

/-!
# Normal forms of normal forms

A second normalization finds blanks where the first found comments and line breaks inside brackets,
and with the comments it does not see their quotes and brackets. It is in code there, as deep inside
brackets as the first one was (`Zone.shown`), and everywhere else in the zone that the first one was
in. So it comes out of a blanked comment in the state in which the first one did, and changes
nothing (`normalizeFrom_normalizeFrom`).
-/

namespace CatalogQuery.Source

variable {word : List Char}

theorem isWordChar_settle (hword : ∀ c ∈ word, isWordChar c = true) :
    ∀ c ∈ settle word, isWordChar c = true := by
  rcases settle_cases word with h | h
  · rwa [h]
  · exact fun c hc => isWordChar_of_continues (continues_of_mem_lowered _ h c hc)

theorem settle_settle (word : List Char) : settle (settle word) = settle word := by
  have hall : ∀ l ∈ lowered, settle l = l := by decide
  rcases settle_cases word with h | h
  · rw [h, h]
  · exact hall _ h

/-- What a character that is no part of a word became is kept, and leads to the zone that is
shown. -/
theorem normalizeFrom_settleChar {c : Char} (hc : isWordChar c = false) (d : Nat) (rest : List Char) :
    normalizeFrom (.code d) [] (settleChar d c ++ rest)
      = settleChar d c ++ normalizeFrom (Zone.after d c).shown [] rest := by
  by_cases hbreak : c = '\n'
  · subst hbreak
    cases d <;> rfl
  by_cases hhash : c = '#'
  · subst hhash
    cases d <;> rfl
  · rw [settleChar, if_neg hbreak, if_neg hhash, List.singleton_append, Zone.shown_after hhash]
    exact normalizeFrom_code hc hbreak hhash d []

/-- **The normal form of the rest of a source is its own normal form**, read in the zone that is
shown. A word is only begun in code. -/
theorem normalizeFrom_normalizeFrom {zone : Zone} {cs : List Char}
    (hword : word = [] ∨ ∃ d, zone = .code d) (hall : ∀ c ∈ word, isWordChar c = true) :
    normalizeFrom zone.shown [] (normalizeFrom zone word cs) = normalizeFrom zone word cs := by
  fun_induction normalizeFrom zone word cs with
  | case1 zone word =>
    rcases hword with rfl | ⟨d, rfl⟩
    · rfl
    · have hsettle : normalizeFrom (.code d) [] (settle word ++ []) = settle (settle word) := by
        rw [normalizeFrom_wordChars (isWordChar_settle hall), List.nil_append, normalizeFrom]
      rw [List.append_nil, settle_settle] at hsettle
      exact hsettle
  | case2 mark escaped d word c cs ih =>
    obtain rfl : word = [] := by simpa using hword
    have hnext := ih (.inl rfl) hall
    -- the zone after the character is shown as it is
    have hshown := Zone.shown_next_quoted mark escaped d c
    rw [Zone.next] at hshown
    rw [hshown] at hnext
    exact congrArg (c :: ·) hnext
  | case3 d word cs ih =>
    obtain rfl : word = [] := by simpa using hword
    have hnext := ih (.inl rfl) hall
    cases d with
    | zero => exact congrArg ('\n' :: ·) hnext
    | succ d => exact congrArg (' ' :: ·) hnext
  | case4 d word c cs hc ih =>
    obtain rfl : word = [] := by simpa using hword
    have hnext := ih (.inl rfl) hall
    cases d with
    | zero =>
      have hcomment : ∀ rest, normalizeFrom (.comment 0) [] (c :: rest)
          = c :: normalizeFrom (.comment 0) [] rest := fun rest => by
        rw [normalizeFrom, if_neg hc]
        rfl
      exact (hcomment _).trans (congrArg (c :: ·) hnext)
    | succ d =>
      -- the comment is read as blanks, in code
      exact (normalizeFrom_blanks c.utf8Size).trans
        (congrArg (List.replicate c.utf8Size ' ' ++ ·) hnext)
  | case5 d word c cs hc ih =>
    refine ih (.inr ⟨d, rfl⟩) ?_
    exact List.forall_mem_append.mpr ⟨hall, List.forall_mem_singleton.mpr hc⟩
  | case6 d word c cs hc ih =>
    have hnot : isWordChar c = false := by simpa using hc
    have hnext := ih (.inl rfl) (List.forall_mem_nil _)
    rw [List.append_assoc, Zone.shown, normalizeFrom_wordChars (isWordChar_settle hall),
      List.nil_append, normalizeFrom_settle (head_settleChar hnot d _), settle_settle,
      normalizeFrom_settleChar hnot, hnext]
    exact fun d' => by rintro ⟨⟩

/-- **Normalization is idempotent.** -/
theorem normalizeChars_normalizeChars (cs : List Char) :
    normalizeChars (normalizeChars cs) = normalizeChars cs :=
  @normalizeFrom_normalizeFrom [] (.code 0) cs (.inl rfl) (List.forall_mem_nil _)

end CatalogQuery.Source
