import CatalogQuery.Proofs.Formula.Standard
import CatalogQuery.Proofs.Grammar.Enclosed

/-!
# Formulas as texts

`Laid spell rest ts v` says that the text `v` is the row of tokens `ts`, with any number of spaces
and tabs behind each of them, in front of `rest`. The texts of the calls are given by `spell`. A
formula is laid out in the same way in normal form, with the normal forms of its calls
(`Laid.normalized`).
-/

namespace CatalogQuery.Formula

open Grammar Source

variable {α : Type} {spell spell' : α → List Char} {rest v : List Char} {ts us : List (Token α)}

/-- The text of a token, given the texts of the calls. -/
def Token.text (spell : α → List Char) : Token α → List Char
  | .call a => spell a
  | .and => "and".toList
  | .or => "or".toList
  | .not => "not".toList
  | .opening => ['(']
  | .closing => [')']

/-- The tokens that end with a letter. Calls end with a parenthesis. -/
def Token.isWord : Token α → Bool
  | .and | .or | .not => true
  | .call _ | .opening | .closing => false

/-- The text `v` is the row of tokens and then `rest`. Behind each token there are any number of
spaces and tabs, and at least one where two words would touch. -/
inductive Laid (spell : α → List Char) (rest : List Char) : List (Token α) → List Char → Prop where
  | nil : Laid spell rest [] rest
  | cons {t : Token α} {ts : List (Token α)} {gap v : List Char} (hgap : ∀ c ∈ gap, c ∈ [' ', '\t'])
      (hword : t.isWord = true → ∀ c ∈ (gap ++ v).head?, isWordChar c = false)
      (h : Laid spell rest ts v) : Laid spell rest (t :: ts) (t.text spell ++ (gap ++ v))

/-- A row of tokens is laid out in front of what follows it. -/
theorem Laid.cut (h : Laid spell rest (ts ++ us) v) :
    ∃ w, Laid spell w ts v ∧ Laid spell rest us w := by
  induction ts generalizing v with
  | nil => exact ⟨v, .nil, h⟩
  | cons t ts ih =>
    cases h with
    | cons hgap hword h =>
      obtain ⟨w, hts, hus⟩ := ih h
      exact ⟨w, .cons hgap hword hts, hus⟩

/-- Tokens with spaces and tabs behind them, at least one behind every word, are laid out. -/
theorem laid_of_gaps (ps : List (Token α × List Char))
    (h : ∀ p ∈ ps, (∀ c ∈ p.2, c ∈ [' ', '\t']) ∧ (p.1.isWord = true → p.2 ≠ []))
    (hv : v = ps.flatMap fun p => p.1.text spell ++ p.2) : Laid spell [] (ps.map Prod.fst) v := by
  subst hv
  induction ps with
  | nil => exact .nil
  | cons p ps ih =>
    obtain ⟨⟨hgap, hne⟩, hps⟩ := List.forall_mem_cons.mp h
    rw [List.map_cons, List.flatMap_cons, List.append_assoc]
    -- behind a word there is a space or a tab, which ends it
    refine .cons hgap (fun hword => ?_) (ih hps)
    obtain ⟨c, gap, hp⟩ := List.exists_cons_of_ne_nil (hne hword)
    have hall : ∀ c ∈ [' ', '\t'], isWordChar c = false := by decide
    rw [hp]
    rintro _ ⟨⟩
    exact hall c (hgap c (by simp [hp]))

/-! ### Blanks -/

theorem skipped_gap {gap : List Char} (hgap : ∀ c ∈ gap, c ∈ [' ', '\t']) (v : List Char) :
    skipped (gap ++ v) = skipped v := by
  have hall : ∀ c ∈ [' ', '\t'], c ∈ [' ', '\t', '\r'] := by decide
  exact skipped_blanks (fun c hc => hall c (hgap c hc)) v

/-! ### Normal forms -/

theorem normalizeFrom_gap {gap : List Char} (hgap : ∀ c ∈ gap, c ∈ [' ', '\t']) (d : Nat)
    (v : List Char) :
    normalizeFrom (.code d) [] (gap ++ v) = gap ++ normalizeFrom (.code d) [] v := by
  have hall : ∀ c ∈ [' ', '\t'], isWordChar c = false ∧ c ≠ '\n' ∧ c ≠ '#' ∧ Plain c := by decide
  induction gap with
  | nil => rfl
  | cons c gap ih =>
    obtain ⟨hc, hgap⟩ := List.forall_mem_cons.mp hgap
    obtain ⟨hblank, hbreak, hhash, hplain⟩ := hall c hc
    rw [List.cons_append, normalizeFrom_code hblank hbreak hhash, after_plain hplain, ih hgap]
    rfl

/-- Where no word goes on, none goes on in normal form. -/
theorem head_normalizeFrom {v : List Char} (hv : ∀ c ∈ v.head?, isWordChar c = false) (d : Nat) :
    ∀ c ∈ (normalizeFrom (.code d) [] v).head?, isWordChar c = false := by
  cases v with
  | nil =>
    intro c hc
    cases hc
  | cons c v =>
    have hc : isWordChar c = false := hv c rfl
    rw [normalizeFrom, if_neg (by simp [hc])]
    exact head_settleChar hc d _

/-- **A formula is laid out in normal form, too**, if its calls are normalized by themselves. -/
theorem Laid.normalized (hspell : ∀ a d u, normalizeFrom (.code d) [] (spell a ++ u)
      = spell' a ++ normalizeFrom (.code d) [] u) (h : Laid spell [] ts v) (d : Nat) :
    Laid spell' [] ts (normalizeFrom (.code d) [] v) := by
  induction h generalizing d with
  | nil => exact .nil
  | @cons t ts gap v hgap hword h ih =>
    -- a keyword is settled to itself, where it ends
    have hkeyword : ∀ w ∈ lowered, (∀ c ∈ (gap ++ v).head?, isWordChar c = false) →
        normalizeFrom (.code d) [] (w ++ (gap ++ v))
          = w ++ (gap ++ normalizeFrom (.code d) [] v) := by
      intro w hw hends
      have hsettle : settle w = w := (by decide : ∀ w ∈ lowered, settle w = w) w hw
      rw [normalizeFrom_word (continues_of_mem_lowered w hw), List.nil_append,
        normalizeFrom_settle hends, normalizeFrom_gap hgap, hsettle]
    -- it still ends there once the rest is normalized
    have hafter : t.isWord = true →
        ∀ c ∈ (gap ++ normalizeFrom (.code d) [] v).head?, isWordChar c = false := by
      intro ht
      rw [← normalizeFrom_gap hgap]
      exact head_normalizeFrom (hword ht) d
    cases t with
    | call a =>
      rw [Token.text, hspell, normalizeFrom_gap hgap]
      exact .cons hgap nofun (ih d)
    | and =>
      rw [Token.text, hkeyword _ (by decide) (hword rfl)]
      exact .cons hgap hafter (ih d)
    | or =>
      rw [Token.text, hkeyword _ (by decide) (hword rfl)]
      exact .cons hgap hafter (ih d)
    | not =>
      rw [Token.text, hkeyword _ (by decide) (hword rfl)]
      exact .cons hgap hafter (ih d)
    | opening =>
      -- a bracket changes the depth for the rest
      rw [Token.text, List.singleton_append, normalizeFrom_code (by decide) (by decide) (by decide),
        after_open (by decide), normalizeFrom_gap hgap]
      exact .cons hgap nofun (ih (d + 1))
    | closing =>
      have hzone : Zone.after d ')' = .code (d - 1) := rfl
      rw [Token.text, List.singleton_append, normalizeFrom_code (by decide) (by decide) (by decide),
        hzone, normalizeFrom_gap hgap]
      exact .cons hgap nofun (ih (d - 1))

end CatalogQuery.Formula
