import CatalogQuery.Proofs.Source.Parts
import Mathlib.Logic.Relation

/-!
# Edits that normalization undoes

An `Edit` changes one thing in a source: the case of a keyword, a blank inside brackets to a line
break, or a comment inside brackets to another comment or to blanks. Normalization passes what
stands before the edit in one state, whatever follows (`normalizeChars_append`), and brings both
forms of what was edited to the same text in the same state. So sources that can be edited into each
other have one normal form (`normalize_of_edits`).
-/

namespace CatalogQuery.Source

open Grammar (continues)

/-- One change of a source that its normal form does not show. -/
inductive Edit : List Char → List Char → Prop where
  /-- A whole word that is one of the keywords, in other case. -/
  | keyword {d : Nat} {before w w' after : List Char}
      (hzone : before.foldl Zone.next (.code 0) = .code d)
      (hw : w.map Char.toLower ∈ lowered) (hsame : w'.map Char.toLower = w.map Char.toLower)
      (hbefore : ∀ c ∈ before.getLast?, isWordChar c = false)
      (hafter : ∀ c ∈ after.head?, isWordChar c = false) :
      Edit (before ++ (w ++ after)) (before ++ (w' ++ after))
  /-- A line break inside brackets in place of a blank. -/
  | line {d : Nat} {before after : List Char}
      (hzone : before.foldl Zone.next (.code 0) = .code (d + 1)) :
      Edit (before ++ ' ' :: after) (before ++ '\n' :: after)
  /-- Another comment, or blanks, in place of a comment inside brackets, which goes on to the next line
  break or to the end. -/
  | comment {d : Nat} {before c x after : List Char}
      (hzone : before.foldl Zone.next (.code 0) = .code (d + 1)) (hc : '\n' ∉ c)
      (hx : (∃ c', x = '#' :: c' ∧ '\n' ∉ c') ∨ ∀ b ∈ x, b = ' ')
      (hlength : byteLength x = byteLength ('#' :: c)) (hafter : ∀ b ∈ after.head?, b = '\n') :
      Edit (before ++ ('#' :: c ++ after)) (before ++ (x ++ after))

/-! ### What is edited -/

variable {d : Nat} {word c w after : List Char}

/-- A word that is a keyword in any case is settled to the keyword. -/
theorem normalizeFrom_keyword (hw : w.map Char.toLower ∈ lowered)
    (hafter : ∀ c ∈ after.head?, isWordChar c = false) :
    normalizeFrom (.code d) [] (w ++ after)
      = w.map Char.toLower ++ normalizeFrom (.code d) [] after := by
  -- keywords have letters only, so that no character of the word ends it
  have hall : ∀ l ∈ lowered, ∀ c ∈ l, c.isAlpha = true := by decide
  have hletters : ∀ c ∈ w, continues c = true := fun c hc =>
    Grammar.continues_of_toLower (hall _ hw c.toLower (List.mem_map_of_mem hc))
  have hsettle : settle w = w.map Char.toLower := if_pos hw
  rw [normalizeFrom_word hletters, List.nil_append, normalizeFrom_settle hafter, hsettle]

/-- Inside brackets every character of a comment becomes blank. -/
theorem normalizeFrom_faded (hc : '\n' ∉ c) :
    normalizeFrom (.comment (d + 1)) [] (c ++ after)
      = List.replicate (byteLength c) ' ' ++ normalizeFrom (.comment (d + 1)) [] after := by
  induction c with
  | nil => rfl
  | cons b c ih =>
    obtain ⟨hb, hc⟩ : '\n' ≠ b ∧ '\n' ∉ c := by simpa using hc
    rw [List.cons_append, normalizeFrom, if_neg hb.symm, ih hc, faded, if_pos (Nat.succ_pos d),
      byteLength_cons, ← List.append_assoc, List.replicate_append_replicate]

/-- Blanks are kept. -/
theorem normalizeFrom_blanks (n : Nat) :
    normalizeFrom (.code d) [] (List.replicate n ' ' ++ after)
      = List.replicate n ' ' ++ normalizeFrom (.code d) [] after := by
  induction n with
  | zero => rfl
  | succ n ih =>
    rw [List.replicate_succ, List.cons_append, normalizeFrom_code (by decide) (by decide) (by decide)]
    exact congrArg (' ' :: ·) ih

/-- At the end of a line or of the text, a comment inside brackets and code are the same. -/
theorem normalizeFrom_comment_end (hafter : ∀ b ∈ after.head?, b = '\n') :
    normalizeFrom (.comment (d + 1)) [] after = normalizeFrom (.code (d + 1)) [] after := by
  cases after with
  | nil => rfl
  | cons b after =>
    obtain rfl := hafter b rfl
    rfl

/-- **A comment inside brackets becomes blanks**, as many as it has bytes. -/
theorem normalizeFrom_comment (hc : '\n' ∉ c) (hafter : ∀ b ∈ after.head?, b = '\n') :
    normalizeFrom (.code (d + 1)) word ('#' :: c ++ after)
      = settle word ++ (List.replicate (byteLength ('#' :: c)) ' '
        ++ normalizeFrom (.code (d + 1)) [] after) := by
  have hmark : isWordChar '#' = false := by decide
  have hsize : byteLength ('#' :: c) = byteLength c + 1 := by rw [byteLength_cons, Nat.add_comm]; rfl
  rw [List.cons_append, normalizeFrom, if_neg (by simp [hmark]), hsize, List.replicate_succ,
    List.append_assoc]
  show _ ++ ' ' :: normalizeFrom (.comment (d + 1)) [] (c ++ after) = _
  rw [normalizeFrom_faded hc, normalizeFrom_comment_end hafter]
  rfl

/-! ### Normal forms -/

/-- An edit leaves the normal form. -/
theorem Edit.normalizeChars_eq {s t : List Char} (h : Edit s t) :
    normalizeChars s = normalizeChars t := by
  cases h with
  | @keyword d before w w' after hzone hw hsame hbefore hafter =>
    obtain ⟨out, -, hrest⟩ := normalizeChars_append before
    rw [hrest, hrest, zoneAfter, hzone, begun_eq_nil hbefore, normalizeFrom_keyword hw hafter,
      normalizeFrom_keyword (hsame ▸ hw) hafter, hsame]
  | @line d before after hzone =>
    obtain ⟨out, -, hrest⟩ := normalizeChars_append before
    rw [hrest, hrest, zoneAfter, hzone]
    rfl
  | @comment d before c x after hzone hc hx hlength hafter =>
    obtain ⟨out, -, hrest⟩ := normalizeChars_append before
    rw [hrest, hrest, zoneAfter, hzone, normalizeFrom_comment hc hafter, ← hlength]
    congr 1
    rcases hx with ⟨c', rfl, hc'⟩ | hx
    · rw [normalizeFrom_comment hc' hafter]
    · -- the blanks are at least one, so that a word before them ends
      have hblanks : x = List.replicate (byteLength x) ' ' := by
        rw [List.eq_replicate_of_mem hx, byteLength_replicate_blank]
      obtain ⟨n, hn⟩ : ∃ n, byteLength x = n + 1 :=
        ⟨byteLength c, by rw [hlength, byteLength_cons, Nat.add_comm]; rfl⟩
      have hblank : normalizeFrom (.code (d + 1)) (begun before)
            (' ' :: (List.replicate n ' ' ++ after))
          = settle (begun before) ++ ' ' :: (List.replicate n ' ' ++ normalizeFrom (.code (d + 1)) [] after) := by
        rw [normalizeFrom_code (by decide) (by decide) (by decide), ← normalizeFrom_blanks]
        rfl
      rw [hn] at hblanks ⊢
      rw [hblanks, List.replicate_succ, List.cons_append, List.cons_append, hblank]

/-- **Sources that can be edited into each other have one normal form.** -/
theorem normalizeChars_of_edits {s t : List Char} (h : Relation.EqvGen Edit s t) :
    normalizeChars s = normalizeChars t := by
  induction h with
  | rel s t h => exact h.normalizeChars_eq
  | refl s => rfl
  | symm s t _ ih => exact ih.symm
  | trans s t u _ _ ih ih' => exact ih.trans ih'

end CatalogQuery.Source
