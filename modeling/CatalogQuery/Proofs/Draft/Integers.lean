import CatalogQuery.Proofs.Grammar.Enclosed
import CatalogQuery.Proofs.Render.Calls
import Mathlib.Algebra.Ring.Parity

/-!
# Integers with signs and parentheses

`SpelledInteger m n w` says that the text `w` spells the integer `(-1) ^ m * n`: it has the digits of
`n` under any nesting of signs, `m` of them minus signs, and parentheses. Such a text is matched as
an argument wherever an argument may end behind it (`SpelledInteger.argument_matches`), and the node
that is found is read as that integer if `n` is below `2 ^ 63`, and as nothing supported otherwise.

The induction is over the spelling. A minus sign always finds a number that has a negative
(`argument_int_ne_minValue`), because digits alone are never read as the least integer.
-/

namespace CatalogQuery

open Grammar

/-- A text of digits, with single underscores between them perhaps, under any nesting of `minuses`
minus signs, any number of plus signs, and parentheses. There may be blanks between these. In normal
form line breaks and comments inside brackets are blanks, too. -/
inductive SpelledInteger : (minuses n : ℕ) → List Char → Prop where
  | digits {ds w : List Char} (h : DigitRow ds w) : SpelledInteger 0 (Nat.ofDigitChars 10 ds 0) w
  | plus {m n : ℕ} {gap w : List Char} (hgap : ∀ c ∈ gap, c ∈ [' ', '\t', '\r'])
      (h : SpelledInteger m n w) : SpelledInteger m n ('+' :: (gap ++ w))
  | minus {m n : ℕ} {gap w : List Char} (hgap : ∀ c ∈ gap, c ∈ [' ', '\t', '\r'])
      (h : SpelledInteger m n w) : SpelledInteger (m + 1) n ('-' :: (gap ++ w))
  | parenthesized {m n : ℕ} {gap w gap' : List Char} (hgap : ∀ c ∈ gap, c ∈ [' ', '\t', '\r'])
      (h : SpelledInteger m n w) (hgap' : ∀ c ∈ gap', c ∈ [' ', '\t', '\r']) :
      SpelledInteger m n ('(' :: (gap ++ (w ++ (gap' ++ [')']))))

/-- What becomes of an argument that spells `(-1) ^ minuses * n`: the literal with exactly this value
if `n` is at most the greatest integer, and otherwise something that no argument can be. -/
inductive RawArg.IsInteger (minuses n : ℕ) : RawArg → Prop where
  | exact {k : Int64} {piece : Snippet} (hn : n ≤ 2 ^ 63 - 1)
      (hk : k.toInt = (-1) ^ minuses * (n : ℤ)) : IsInteger minuses n (.literal (.int k) piece)
  | tooLarge {piece : Snippet} (hn : 2 ^ 63 - 1 < n) : IsInteger minuses n (.unsupported piece)

/-! ### The least integer -/

theorem neg_ne_minValue {k : Int64} (hk : k ≠ Int64.minValue) : -k ≠ Int64.minValue := by
  intro h
  have hmin : -Int64.minValue = Int64.minValue := by decide
  rw [← hmin, Int64.neg_inj] at h
  exact hk h

theorem toInt_neg_of_ne {k : Int64} (hk : k ≠ Int64.minValue) : (-k).toInt = -k.toInt := by
  have hle := k.le_toInt
  have hlt := k.toInt_lt
  have hne : k.toInt ≠ -2 ^ 63 := fun h => hk (Int64.toInt_inj.mp (h.trans rfl))
  rw [← Int64.ofInt_toInt k, ← Int64.ofInt_neg, Int64.ofInt_toInt]
  exact Int64.toInt_ofInt_of_le (by omega) (by omega)

namespace Draft

variable {r : Reading} {m n : ℕ} {k : Int64} {piece : Snippet}

/-- Digits alone are read as their value, if they are read at all. -/
theorem toInt_of_readInt? {cs : List Char} (h : readInt? cs = some k) :
    k.toInt = numeral (withoutUnderscores cs) := by
  unfold readInt? at h
  dsimp only at h
  split_ifs at h with hlt
  cases h
  exact Int64.toInt_ofInt_of_le (by omega) (by omega)

theorem ne_minValue_of_readInt? {cs : List Char} (h : readInt? cs = some k) :
    k ≠ Int64.minValue := by
  rintro rfl
  have hvalue := toInt_of_readInt? h
  rw [Int64.toInt_minValue] at hvalue
  omega

theorem applySign?_minus (hk : k ≠ Int64.minValue) :
    applySign? ['-'] (.int k) = some (.int (-k)) := by
  rw [applySign?, if_neg (by decide), if_pos ⟨rfl, hk⟩]

/-- A sign does not make the least integer of another. -/
theorem ne_minValue_of_applySign? {sign : List Char} {l : Literal}
    (hl : ∀ j, l = .int j → j ≠ Int64.minValue) (h : applySign? sign l = some (.int k)) :
    k ≠ Int64.minValue := by
  cases l with
  | int j =>
    rw [applySign?] at h
    split_ifs at h with hplus hminus
    · cases h
      exact hl _ rfl
    · cases h
      -- the sign was refused for the least integer
      exact neg_ne_minValue hminus.2
  | float x =>
    rw [applySign?] at h
    split_ifs at h <;> cases h
  | none | bool | str => cases h

theorem ne_minValue_of_literal? {t : ParseTree} (h : literal? t = some (.int k)) :
    k ≠ Int64.minValue := by
  unfold literal? at h
  split at h
  case h_1 =>
    obtain ⟨j, hj, heq⟩ := Option.map_eq_some_iff.mp h
    cases heq
    exact ne_minValue_of_readInt? hj
  all_goals simp at h

theorem literalOr_eq_literal {l? : Option Literal} {l : Literal} {piece' : Snippet}
    (h : literalOr piece l? = .literal l piece') : l? = some l := by
  cases l? with
  | none => cases h
  | some l' =>
    cases h
    rfl

/-- **No argument is read as the least integer**, so that a minus sign never meets it. -/
theorem argument_int_ne_minValue :
    ∀ (t : ParseTree) (k : Int64) (piece : Snippet),
      argument r t = .literal (.int k) piece → k ≠ Int64.minValue
  | .node rule b e text ts, k, piece, h => by
    unfold argument at h
    split at h
    · rename_i child heq
      cases heq
      split_ifs at h
      · exact argument_int_ne_minValue child k piece h
      · exact ne_minValue_of_literal? (literalOr_eq_literal h)
    · rename_i sign operand heq
      cases heq
      unfold applySign at h
      split at h
      · rename_i l piece' hoperand
        refine ne_minValue_of_applySign? ?_ (literalOr_eq_literal h)
        -- the operand is lower in the tree
        rintro j rfl
        exact argument_int_ne_minValue operand j piece' hoperand
      · cases h
    · rename_i heq
      cases heq
      dsimp only at h
      split_ifs at h
      exact ne_minValue_of_literal? (literalOr_eq_literal h)

/-! ### Nodes of integers -/

/-- Whatever the source is, the node is read as `(-1) ^ m * n`, or as nothing supported if `n` is too
large. -/
def GivesInteger (m n : ℕ) (t : ParseTree) : Prop := ∀ r, (argument r t).IsInteger m n

theorem layered_givesInteger (m n : ℕ) : Layered (GivesInteger m n) := by
  intro rule b e text t hrule ht r
  rw [argument_layer hrule]
  exact ht r

theorem withoutUnderscores_row {ds w : List Char} (h : DigitRow ds w) :
    withoutUnderscores w = ds := by
  have hdigit : ∀ {d : Char} {w : List Char}, d.isDigit = true →
      withoutUnderscores (d :: w) = d :: withoutUnderscores w := fun hd =>
    List.filter_cons_of_pos (bne_iff_ne.mpr (ne_underscore_of_isDigit hd))
  have hunderscore : ∀ w, withoutUnderscores ('_' :: w) = withoutUnderscores w := fun _ =>
    List.filter_cons_of_neg (by decide)
  induction h with
  | last hd => exact hdigit hd
  | digit hd _ ih => rw [hdigit hd, ih]
  | underscore hd _ ih => rw [hdigit hd, hunderscore, ih]

section Nodes

variable {t : ParseTree} {b e b' e' : Nat} {text ds w : List Char}

theorem givesInteger_row (h : DigitRow ds w) :
    GivesInteger 0 (Nat.ofDigitChars 10 ds 0) (.node .int b e w []) := by
  intro r
  have hargument : argument r (.node .int b e w [])
      = literalOr (snippet r (.node .int b e w [])) ((readInt? w).map .int) := by
    simp [argument, literal?, ParseTree.rule, ParseTree.text]
  have hvalue : numeral ds = Nat.ofDigitChars 10 ds 0 := numeral_eq ds
  rw [hargument, readInt?, withoutUnderscores_row h, hvalue]
  -- the number is in range, or too large
  split_ifs with hlt
  · refine .exact (by omega) ?_
    rw [pow_zero, one_mul]
    exact Int64.toInt_ofInt_of_le (by omega) (by omega)
  · exact .tooLarge (by omega)

theorem givesInteger_plus (h : GivesInteger m n t) :
    GivesInteger m n (.node .signed b e text [.node .sign b' e' ['+'] [], t]) := by
  intro r
  have ht := h r
  rw [argument]
  generalize argument r t = a at ht
  cases ht with
  | exact hn hk => exact .exact hn hk
  | tooLarge hn => exact .tooLarge hn

/-- One more minus sign. -/
theorem givesInteger_minus (h : GivesInteger m n t) :
    GivesInteger (m + 1) n (.node .signed b e text [.node .sign b' e' ['-'] [], t]) := by
  intro r
  have ht := h r
  rw [argument]
  generalize ha : argument r t = a at ht
  cases ht with
  | @exact k piece hn hk =>
    -- the operand is no least integer, so that its negative is in range
    have hne := argument_int_ne_minValue t k piece ha
    have hneg : (-k).toInt = (-1) ^ (m + 1) * (n : ℤ) := by
      rw [toInt_neg_of_ne hne, hk, pow_succ, mul_neg_one, neg_mul]
    show (literalOr _ (applySign? ['-'] (.int k))).IsInteger (m + 1) n
    rw [applySign?_minus hne]
    exact .exact hn hneg
  | tooLarge hn => exact .tooLarge hn

end Nodes

end Draft

/-! ### Matching -/

namespace SpelledInteger

variable {m n : ℕ} {w v : List Char}

/-- A spelling begins with a digit, a sign or a parenthesis. -/
theorem head (h : SpelledInteger m n w) (v : List Char) : ∀ c ∈ (w ++ v).head?, c ∈ openers := by
  cases h with
  | digits h =>
    obtain ⟨d, hd, hdigit⟩ := h.head v
    exact fun c hc => Option.mem_unique hd hc ▸ opener_of_isDigit hdigit
  | plus | minus | parenthesized =>
    rintro _ ⟨⟩
    decide

theorem operand (h : SpelledInteger m n w) (v : List Char) : Operand (w ++ v) :=
  .of_head (h.head v)

/-- Blanks in front of a spelling are skipped, and nothing of it is. -/
theorem skipped_gap (h : SpelledInteger m n w) {gap : List Char}
    (hgap : ∀ c ∈ gap, c ∈ [' ', '\t', '\r']) (v : List Char) :
    skipped (gap ++ (w ++ v)) = w ++ v := by
  rw [skipped_blanks hgap]
  exact Mode.next_of_solid .spaced (h.operand v).solid

/-- **A spelling is matched as an operand** that is read as its integer. -/
theorem signed_matches (h : SpelledInteger m n w) : ∀ v, Closed (skipped v) →
    Matches .spaced (.rule .signed) (w ++ v) (skipped v) (Found (Draft.GivesInteger m n)) := by
  induction h with
  | digits h =>
    intro v hv
    exact signed_of_row (Draft.layered_givesInteger _ _) h hv fun _ _ => Draft.givesInteger_row h
  | @plus m n gap w hgap h ih =>
    intro v hv
    have hoperand := ih v hv
    rw [← h.skipped_gap hgap v] at hoperand
    rw [List.cons_append, List.append_assoc]
    refine (signed_of_sign (by decide) hoperand).imp ?_
    rintro _ ⟨_, rfl, b, e, text, b', e', t, rfl, ht⟩
    exact ⟨_, rfl, Draft.givesInteger_plus ht⟩
  | @minus m n gap w hgap h ih =>
    intro v hv
    have hoperand := ih v hv
    rw [← h.skipped_gap hgap v] at hoperand
    rw [List.cons_append, List.append_assoc]
    refine (signed_of_sign (by decide) hoperand).imp ?_
    rintro _ ⟨_, rfl, b, e, text, b', e', t, rfl, ht⟩
    exact ⟨_, rfl, Draft.givesInteger_minus ht⟩
  | @parenthesized m n gap w gap' hgap h hgap' ih =>
    intro v hv
    have hP := Draft.layered_givesInteger m n
    have hclosed : Closed (')' :: v) := by
      rintro _ ⟨⟩
      decide
    have hclose : skipped (gap' ++ ')' :: v) = ')' :: v := by
      rw [skipped_blanks hgap', hclosed.quiet.skipped]
    -- the spelling inside is a whole expression in front of the parenthesis
    have hsigned := ih (gap' ++ ')' :: v) (by rwa [hclose])
    rw [hclose] at hsigned
    have hexpr := expr_of_operand hP hclosed (h.operand _) hsigned
    rw [← h.skipped_gap hgap] at hexpr
    have hgroup := group_of_expr hP hexpr hclosed.quiet.skipped
    have htext : '(' :: (gap ++ (w ++ (gap' ++ [')']))) ++ v
        = '(' :: (gap ++ (w ++ (gap' ++ ')' :: v))) := by simp
    rw [htext]
    exact signed_of_atom hP hv.quiet (sign_refuses (by rintro _ ⟨⟩; decide)) (.choice_left hgroup)

/-- **A spelling is matched as an argument**, an expression that is read as its integer. -/
theorem argument_matches (h : SpelledInteger m n w) (hv : Closed (skipped v)) :
    Matches .spaced argument (w ++ v) (skipped v)
      (Found fun t => Draft.GivesInteger m n t ∧ t.rule = .expr) := by
  have hoperand := h.operand v
  have hexpr := expr_of_operand (Draft.layered_givesInteger m n) hv hoperand (h.signed_matches v hv)
  exact .choice_right hoperand.keywordArg (.choice_right hoperand.starArg hexpr.and_rule)

end SpelledInteger

end CatalogQuery
