import CatalogQuery.Draft.Escape
import CatalogQuery.Proofs.Decimal.ReadBack
import CatalogQuery.Proofs.Grammar.Words
import CatalogQuery.Query.Value

/-!
# Matching literals

The rules for numbers and strings match the texts that values are written as: rows of digits
(`int_matches`), numerals with a point or an exponent (`float_matches`) and quoted texts
(`string_matches`), the body of which denotes the text that was quoted (`unescape_escape`). A word
is no literal (`formatted_refuses`, `string_refuses`).
-/

namespace CatalogQuery

namespace Grammar

/-! ### Words are not strings -/

/-- Letters in front of a text are not followed by a quotation mark. -/
def Unquoted (cs : List Char) : Prop :=
  ∀ u v, cs = u ++ v → (∀ c ∈ u, continues c = true) → ∀ c ∈ v.head?, c ≠ '\'' ∧ c ≠ '"'

theorem unquoted_word {w rest : List Char} (hw : ∀ c ∈ w, continues c = true) (hrest : Ends rest)
    (hquote : ∀ c ∈ rest.head?, c ≠ '\'' ∧ c ≠ '"') : Unquoted (w ++ rest) := by
  intro u v heq hu c hc
  -- word characters at the beginning are all of the word
  obtain ⟨t, rfl⟩ := prefix_of_ends hu hrest ⟨v, heq.symm⟩
  rw [List.append_assoc] at heq
  obtain rfl : t ++ rest = v := List.append_cancel_left heq
  cases t with
  -- behind the word
  | nil => exact hquote c hc
  | cons d t =>
    have hd : continues d = true := hw d (by simp)
    cases hc
    constructor
    · rintro rfl
      cases hd
    · rintro rfl
      cases hd

theorem continues_of_toLower {c : Char} (h : c.toLower.isAlpha = true) : continues c = true := by
  unfold Char.toLower at h
  split at h
  · rename_i hupper
    have hc : c.isUpper = true := decide_eq_true hupper
    have halpha : c.isAlpha = true := Bool.or_eq_true_iff.mpr (.inl hc)
    simp [continues, Char.isAlphanum, halpha]
  · simp [continues, Char.isAlphanum, h]

/-- What a match of letters in any case passes over. -/
theorem Reads.anyCase_continues {m : Mode} {t : List Char} {c c' : Cursor} {ts : List ParseTree}
    (h : Reads m (.anyCase t) c (some (c', ts))) (ht : ∀ x ∈ t, x.isAlpha = true) :
    ∃ u, c.rest = u ++ c'.rest ∧ ∀ x ∈ u, continues x = true := by
  cases h with
  | @anyCase _ _ _ w rest h hw =>
    refine ⟨w, h, fun x hx => continues_of_toLower ?_⟩
    apply ht
    rw [← hw]
    exact List.mem_map_of_mem hx

/-- The mark of a quoted text begins it. -/
theorem quoted_head {m : Mode} {c c' : Cursor} {ts : List ParseTree} (hm : m.skips = false)
    (h : Reads m quoted c (some (c', ts))) : ∃ x ∈ c.rest.head?, x = '\'' ∨ x = '"' := by
  -- a quoted text is not empty, so that it has a first character
  have hlt := h.progress (by decide)
  cases hrest : c.rest with
  | nil => rw [hrest] at hlt; cases hlt
  | cons x cs =>
    refine ⟨x, rfl, ?_⟩
    rcases h.stays_or_begins hrest (fun h => by rw [hm] at h; cases h) 2 with rfl | hbegins
    · exact absurd hlt (Nat.lt_irrefl _)
    · have hx : ('"' == x || ('\'' == x)) = true := by
        simpa [quoted, Expr.begins, Expr.beginsBy, Expr.oneOf, Rule.begins, Rule.body,
          Expr.sequence, Expr.lit, Expr.nullable] using hbegins
      simp only [Bool.or_eq_true, beq_iff_eq] at hx
      exact hx.symm.imp Eq.symm Eq.symm

/-- No quoted text follows letters in front of a text that has no mark behind them. -/
theorem seq_quoted_refuses {m : Mode} {a : Expr} {cs : List Char} (hm : m.skips = false)
    (hsteady : (Expr.seq a quoted).steady = true)
    (ha : ∀ c c' ts, Reads m a c (some (c', ts)) →
      ∃ u, c.rest = u ++ c'.rest ∧ ∀ x ∈ u, continues x = true)
    (hcs : Unquoted cs) : Refuses m (.seq a quoted) cs := by
  intro o
  obtain ⟨out, hout⟩ := Reads.total hsteady m ⟨cs, o⟩
  cases out with
  | none => exact hout
  | some p =>
    exfalso
    cases hout with
    | @seq _ _ c₁ _ _ _ _ _ hmark hquoted =>
      rw [Cursor.skip_of_tight _ hm] at hquoted
      -- a match would have a mark behind its letters
      obtain ⟨u, hu, hcontinues⟩ := ha _ _ _ hmark
      obtain ⟨x, hx, hmark⟩ := quoted_head hm hquoted
      have hne := hcs u _ hu hcontinues x hx
      exact hmark.elim hne.1 hne.2

/-- **A word is not a formatted string**, even if it begins as one. -/
theorem formatted_refuses {m : Mode} {cs : List Char} (hcs : Unquoted cs) :
    Refuses m (.rule .formatted) cs := by
  refine .rule (seq_quoted_refuses rfl (by decide) (fun c c' ts h => ?_) hcs)
  cases h with
  | choice_left h => exact h.anyCase_continues (by decide)
  | choice_right _ h =>
    cases h with
    | choice_left h => exact h.anyCase_continues (by decide)
    | choice_right _ h => exact h.anyCase_continues (by decide)

/-- **A word is not a string**, even if it begins as one. -/
theorem string_refuses {m : Mode} {cs : List Char} (hcs : Unquoted cs) :
    Refuses m (.rule .string) cs := by
  -- the mark before a quotation is a letter
  have hmark : ∀ m c c' ts, Reads m Rule.stringMark.body c (some (c', ts)) →
      ∃ u, c.rest = u ++ c'.rest ∧ ∀ x ∈ u, continues x = true := by
    intro m c c' ts h
    cases h with
    | choice_left h => exact h.anyCase_continues (by decide)
    | choice_right _ h => exact h.anyCase_continues (by decide)
  refine .rule (seq_quoted_refuses rfl (by decide) (fun c c' ts h => ?_) hcs)
  cases h with
  | optional_none => exact ⟨[], rfl, by simp⟩
  | optional_some h =>
    cases h with
    | node _ h => exact hmark _ _ _ _ h
    | bare _ h => exact hmark _ _ _ _ h

/-! ### Numbers -/

section Numbers

variable {m : Mode} {ds w rest : List Char}

/-- Digits, and a text that spells them: the digits with perhaps a single underscore between one and
the next. -/
inductive DigitRow : (ds w : List Char) → Prop where
  | last {d : Char} (hd : d.isDigit = true) : DigitRow [d] [d]
  | digit {d : Char} {ds w : List Char} (hd : d.isDigit = true) (h : DigitRow ds w) :
      DigitRow (d :: ds) (d :: w)
  | underscore {d : Char} {ds w : List Char} (hd : d.isDigit = true) (h : DigitRow ds w) :
      DigitRow (d :: ds) (d :: '_' :: w)

namespace DigitRow

/-- Digits alone. -/
theorem of_digits (hne : ds ≠ []) (hds : ∀ c ∈ ds, c.isDigit = true) : DigitRow ds ds := by
  induction ds with
  | nil => exact absurd rfl hne
  | cons d ds ih =>
    obtain ⟨hd, hds⟩ := List.forall_mem_cons.mp hds
    cases ds with
    | nil => exact .last hd
    | cons d' ds => exact .digit hd (ih (List.cons_ne_nil d' ds) hds)

/-- A row begins with a digit, and each further digit perhaps follows an underscore. -/
theorem pieces (h : DigitRow ds w) : ∃ d ps, w = d :: List.flatten ps ∧ d.isDigit = true ∧
    ∀ p ∈ ps, ∃ c, c.isDigit = true ∧ (p = [c] ∨ p = ['_', c]) := by
  induction h with
  | last hd => exact ⟨_, [], rfl, hd, List.forall_mem_nil _⟩
  | digit hd _ ih =>
    obtain ⟨c, ps, rfl, hc, hps⟩ := ih
    exact ⟨_, [c] :: ps, rfl, hd, List.forall_mem_cons.mpr ⟨⟨c, hc, .inl rfl⟩, hps⟩⟩
  | underscore hd _ ih =>
    obtain ⟨c, ps, rfl, hc, hps⟩ := ih
    exact ⟨_, ['_', c] :: ps, rfl, hd, List.forall_mem_cons.mpr ⟨⟨c, hc, .inr rfl⟩, hps⟩⟩

theorem head (h : DigitRow ds w) (rest : List Char) :
    ∃ c ∈ (w ++ rest).head?, c.isDigit = true := by
  obtain ⟨d, ps, rfl, hd, -⟩ := h.pieces
  exact ⟨d, rfl, hd⟩

/-- A row does not begin with a character that is no digit. -/
theorem not_begins (h : DigitRow ds w) {c : Char} (hc : c.isDigit = false) :
    ¬ [c] <+: w ++ rest := by
  obtain ⟨d, ps, rfl, hd, -⟩ := h.pieces
  rintro ⟨t, ht⟩
  cases ht
  cases hc.symm.trans hd

end DigitRow

/-- A row of digits ends in front of the text. -/
def DigitsEnd (rest : List Char) : Prop := ∀ c ∈ rest.head?, c.isDigit = false ∧ c ≠ '_'

theorem digitsEnd_of_ends (hrest : Ends rest) : DigitsEnd rest := by
  intro c hc
  have h := hrest c hc
  simp only [continues, Char.isAlphanum, Bool.or_eq_false_iff, beq_eq_false_iff_ne] at h
  exact ⟨h.1.2, h.2⟩

theorem digits_matches (hm : m.skips = false) (h : DigitRow ds w) (hrest : DigitsEnd rest) :
    Matches m digits (w ++ rest) rest (· = []) := by
  obtain ⟨d, ps, rfl, hd, hps⟩ := h.pieces
  -- each digit may have an underscore before it
  have hone : ∀ p ∈ ps, ∀ cs, Matches m (.seq (.optional (.lit "_")) (.char .digit)) (id p ++ cs) cs
      (· = []) := by
    intro p hp cs
    obtain ⟨c, hc, rfl | rfl⟩ := hps p hp
    · refine .seq_nil (.optional_none (.text ?_)) ?_
      · rintro ⟨t, ht⟩
        cases ht
        cases hc
      · rw [Mode.next_of_tight hm]
        exact .char hc
    · refine .seq_nil (.optional_some (.text (t := ['_']))) ?_
      rw [Mode.next_of_tight hm]
      exact .char hc
  -- the row ends where neither a digit nor an underscore stands
  have hend : Refuses m (.seq (.optional (.lit "_")) (.char .digit)) rest := by
    refine .seq_right (.optional_none (.text ?_)) ?_
    · rintro ⟨t, rfl⟩
      exact (hrest '_' rfl).2 rfl
    · rw [Mode.next_of_tight hm]
      exact fun o => .char_fails fun c hc => (hrest c hc).1
  have hmany := matches_many hm hone hend
  rw [List.flatMap_id] at hmany
  refine .seq_nil (.char hd) ?_
  rw [Mode.next_of_tight hm]
  exact hmany

theorem digits_refuses (hrest : ∀ c ∈ rest.head?, c.isDigit = false) : Refuses m digits rest :=
  .seq_left fun _ => .char_fails hrest

/-- **The rule for integers matches a row of digits.** -/
theorem int_matches (hm : m.records = true) (h : DigitRow ds w) (hrest : Ends rest) :
    Matches m (.rule .int) (w ++ rest) rest (Found fun t => ∃ b e, t = .node .int b e w []) := by
  have hbody := (digits_matches (m := ⟨false, false⟩) rfl h (digitsEnd_of_ends hrest)).seq_nil
    (.absent (identChar_refuses hrest))
  refine (Matches.rule (r := .int) hm hbody).imp ?_
  rintro _ ⟨_, rfl, b, e, text, _, rfl, htext, rfl⟩
  exact ⟨_, rfl, b, e, by rw [List.append_cancel_right htext]⟩

theorem exponent_refuses (hrest : Ends rest) : Refuses m exponent rest := by
  have hmark : ∀ c, continues c = true → ¬ [c] <+: rest := by
    rintro c hc ⟨t, rfl⟩
    rw [hrest c rfl] at hc
    cases hc
  exact .seq_left (.choice (.text (hmark 'e' rfl)) (.text (hmark 'E' rfl)))

/-- A row of digits alone is not a floating-point number. -/
theorem float_refuses (h : DigitRow ds w) (hrest : Ends rest)
    (hpoint : ∀ c ∈ rest.head?, c ≠ '.') : Refuses m (.rule .float) (w ++ rest) := by
  have hdigits := digits_matches (m := ⟨false, false⟩) rfl h (digitsEnd_of_ends hrest)
  have hdot : ¬ ['.'] <+: rest := by
    rintro ⟨t, rfl⟩
    exact hpoint '.' rfl rfl
  exact .rule (.seq_left (.choice (.seq_right hdigits (.seq_left (.text hdot)))
    (.choice (.seq_left (.text (h.not_begins rfl)))
      (.seq_right hdigits (exponent_refuses hrest)))))

/-- An exponent is matched where it is written. -/
theorem exponent_matches {negative : Bool} (hm : m.skips = false) (hne : ds ≠ [])
    (hds : ∀ c ∈ ds, c.isDigit = true) (hrest : Ends rest) :
    Matches m exponent (Numeral.writeExponent (some (negative, ds)) ++ rest) rest (· = []) := by
  have hrow := DigitRow.of_digits hne hds
  have hdigits := digits_matches hm hrow (digitsEnd_of_ends hrest)
  -- no sign is written but the minus
  have hsign : Matches m (.optional (Expr.oneOf [.lit "+", .lit "-"]))
      ((if negative then ['-'] else []) ++ (ds ++ rest)) (ds ++ rest) (· = []) := by
    cases negative with
    | true =>
      refine .optional_some (.choice_right (.text ?_) (.text (t := ['-'])))
      rintro ⟨t, ht⟩
      cases ht
    | false =>
      exact .optional_none (.choice (.text (hrow.not_begins rfl)) (.text (hrow.not_begins rfl)))
  have hseq := hsign.seq_nil (by rw [Mode.next_of_tight hm]; exact hdigits)
  rw [← List.append_assoc] at hseq
  refine .seq_nil (.choice_left (.text (t := ['e']))) ?_
  rw [Mode.next_of_tight hm]
  exact hseq

/-- What follows the digits of a numeral ends them. -/
theorem digitsEnd_writeExponent (hrest : Ends rest) (e : Option (Bool × List Char)) :
    DigitsEnd (Numeral.writeExponent e ++ rest) := by
  cases e with
  | none => exact digitsEnd_of_ends hrest
  | some e =>
    rintro c ⟨⟩
    exact ⟨rfl, by decide⟩

/-- **The rule for floating-point numbers matches a written numeral.** -/
theorem float_matches {n : Numeral} (hm : m.records = true) (hn : n.WellFormed)
    (hrest : Ends rest) : Matches m (.rule .float) (n.write ++ rest) rest
      (Found fun t => ∃ b e, t = .node .float b e n.write []) := by
  have htext : n.write ++ rest = n.whole ++ (n.writeRest ++ rest) := by
    rw [Numeral.write, List.append_assoc]
  have hrow := DigitRow.of_digits hn.whole_ne_nil hn.whole
  have hbody : Matches ⟨false, false⟩ Rule.float.body (n.write ++ rest) rest (· = []) := by
    refine .seq_nil ?_ (.absent (identChar_refuses hrest))
    rw [htext, Numeral.writeRest]
    cases hfraction : n.fraction with
    | cons d ds =>
      -- digits, a point, digits and perhaps an exponent
      have hds : ∀ c ∈ d :: ds, c.isDigit = true := hfraction ▸ hn.fraction
      have hexponent : Matches ⟨false, false⟩ (.optional exponent)
          (Numeral.writeExponent n.exponent ++ rest) rest (· = []) := by
        cases he : n.exponent with
        | none => exact .optional_none (exponent_refuses hrest)
        | some e =>
          obtain ⟨hne, hdigits⟩ := hn.exponent e he
          exact .optional_some (exponent_matches rfl hne hdigits hrest)
      have hend : DigitsEnd ('.' :: (d :: ds ++ (Numeral.writeExponent n.exponent ++ rest))) := by
        rintro c ⟨⟩
        exact ⟨rfl, by decide⟩
      have hwhole := digits_matches (m := ⟨false, false⟩) rfl hrow hend
      have hdigits := digits_matches (m := ⟨false, false⟩) rfl (.of_digits (List.cons_ne_nil d ds) hds)
        (digitsEnd_writeExponent hrest n.exponent)
      have hseq := hwhole.seq_nil ((Matches.text (t := ['.'])).seq_nil
        ((Matches.optional_some hdigits).seq_nil hexponent))
      have hfractional : (if (d :: ds).isEmpty then [] else '.' :: d :: ds)
          ++ Numeral.writeExponent n.exponent ++ rest
          = '.' :: (d :: ds ++ (Numeral.writeExponent n.exponent ++ rest)) := by simp
      rw [hfractional]
      exact .choice_left hseq
    | nil =>
      -- digits and an exponent
      cases he : n.exponent with
      | none => exact absurd hn.marked (by simp [hfraction, he])
      | some e =>
        obtain ⟨hne, hdigits⟩ := hn.exponent e he
        have hend := digitsEnd_writeExponent hrest (some e)
        have hwhole := digits_matches (m := ⟨false, false⟩) rfl hrow hend
        have hpoint : ¬ ['.'] <+: Numeral.writeExponent (some e) ++ rest := by
          rintro ⟨t, ht⟩
          cases ht
        exact .choice_right (.seq_right hwhole (.seq_left (.text hpoint)))
          (.choice_right (.seq_left (.text (hrow.not_begins rfl)))
            (hwhole.seq_nil (exponent_matches rfl hne hdigits hrest)))
  refine (Matches.rule (r := .float) hm hbody).imp ?_
  rintro _ ⟨_, rfl, b, e, text, _, rfl, htext, rfl⟩
  exact ⟨_, rfl, b, e, by rw [List.append_cancel_right htext]⟩

end Numbers

/-! ### Strings -/

section Strings

variable {m : Mode} {rest : List Char}

/-- What stands for one character between single marks. -/
def singlePiece : Expr :=
  .oneOf [.sequence [.lit "\\", .char .any],
    .sequence [.absent (.oneOf [.lit "'", .lit "\\", newline]), .char .any]]

/-- Each character is matched in the form in which it is written. -/
theorem singlePiece_matches (hm : m.skips = false) (c : Char) (cs : List Char) :
    Matches m singlePiece (Value.escape c ++ cs) cs (· = []) := by
  have hescaped : ∀ d, Matches m singlePiece ('\\' :: d :: cs) cs (· = []) := by
    intro d
    refine .choice_left (.seq_nil (.text (t := ['\\'])) ?_)
    rw [Mode.next_of_tight hm]
    exact .char rfl
  unfold Value.escape
  split_ifs with h1 h2 h3 h4 h5
  · exact hescaped '\\'
  · exact hescaped '\''
  · exact hescaped 'n'
  · exact hescaped 't'
  · exact hescaped 'r'
  · -- a character that is written as it is stops nothing
    have hother : ∀ d ds, c ≠ d → ¬ (d :: ds) <+: c :: cs := by
      rintro d ds hne ⟨t, ht⟩
      cases ht
      exact hne rfl
    refine .choice_right (.seq_left (.text (hother _ _ h1))) (.seq_nil (.absent ?_) ?_)
    · exact .choice (.text (hother _ _ h2)) (.choice (.text (hother _ _ h1))
        (.choice (.text (hother _ _ h3)) (.choice (.text (hother _ _ h5)) (.text (hother _ _ h5)))))
    · rw [Mode.next_of_tight hm]
      exact .char rfl

/-- The body of a quoted text ends at the mark. -/
theorem singlePiece_refuses (cs : List Char) : Refuses m singlePiece ('\'' :: cs) := by
  refine .choice (.seq_left (.text ?_)) (.seq_left (.absent (.choice_left (.text (t := ['\''])))))
  rintro ⟨t, ht⟩
  cases ht

/-- **The rule for strings matches a quoted text**, and finds its body. -/
theorem string_matches (hm : m.records = true) (s : String) (rest : List Char) :
    Matches m (.rule .string) (Value.writeString s ++ rest) rest
      (Found fun t => ∃ b e text b' e' text' b'' e'',
        t = .node .string b e text [.node .singleQuoted b' e' text'
          [.node .singleBody b'' e'' (s.toList.flatMap Value.escape) []]]) := by
  -- the body, inside its quotation marks
  have hbody : Matches ⟨false, false⟩ Rule.singleBody.body
      (s.toList.flatMap Value.escape ++ '\'' :: rest) ('\'' :: rest) (· = []) :=
    matches_many rfl (fun c _ => singlePiece_matches rfl c) (singlePiece_refuses rest)
  -- the quotation, a node with the body as its only part
  have hquoted : Matches ⟨false, true⟩ (.rule .singleQuoted) (Value.writeString s ++ rest) rest
      (Found fun t => ∃ b e text b' e', t = .node .singleQuoted b e text
        [.node .singleBody b' e' (s.toList.flatMap Value.escape) []]) := by
    have hmark : Matches ⟨false, true⟩ (.lit "'") ('\'' :: rest) rest (· = []) :=
      .text (t := ['\''])
    have hinner := (Matches.text (m := ⟨false, true⟩) (t := ['\''])).seq
      ((Matches.rule (r := .singleBody) rfl hbody).seq hmark)
    have htext : Value.writeString s ++ rest
        = ['\''] ++ (s.toList.flatMap Value.escape ++ '\'' :: rest) := by simp [Value.writeString]
    rw [htext]
    refine (Matches.rule (m := ⟨false, true⟩) (r := .singleQuoted) rfl hinner).imp ?_
    rintro _ ⟨_, rfl, b, e, text, _, rfl, -, _, _, rfl, rfl, _, _, rfl,
      ⟨_, rfl, b', e', body, _, rfl, hbodyText, rfl⟩, rfl⟩
    rw [← List.append_cancel_right hbodyText]
    exact ⟨_, rfl, b, e, text, b', e', rfl⟩
  -- the alternatives that come first begin with other characters
  have hmark : Refuses ⟨false, true⟩ (.rule .stringMark) (Value.writeString s ++ rest) := by
    refine refuses_of_head 1 (by decide) (by decide) ?_
    rintro c ⟨⟩
    exact ⟨fun h => (by cases h), by decide⟩
  have hdouble : Refuses ⟨false, true⟩ (.rule .doubleQuoted) (Value.writeString s ++ rest) := by
    refine refuses_of_head 1 (by decide) (by decide) ?_
    rintro c ⟨⟩
    exact ⟨fun h => (by cases h), by decide⟩
  have hstring := (Matches.optional_none hmark).seq (.choice_right hdouble hquoted)
  have hmode : m.inside .tight = ⟨false, true⟩ := by rw [Mode.inside, hm]
  refine (Matches.rule (r := .string) hm (hmode ▸ hstring)).imp ?_
  rintro _ ⟨_, rfl, b, e, text, _, rfl, -, _, _, rfl, rfl, _, rfl, b', e', text', b'', e'', rfl⟩
  exact ⟨_, rfl, b, e, text, b', e', text', b'', e'', rfl⟩

/-- One character in the form in which it is written. -/
theorem unescapeFrom_escape (c : Char) (cs : List Char) :
    Escape.unescapeFrom 0 (Value.escape c ++ cs) = (Escape.unescapeFrom 0 cs).map (c :: ·) := by
  unfold Value.escape
  split_ifs with h1 h2 h3 h4 h5
  · subst h1; rfl
  · subst h2; rfl
  · subst h3; rfl
  · subst h4; rfl
  · subst h5; rfl
  · show Escape.unescapeFrom 0 (c :: cs) = _
    rw [Escape.unescapeFrom, if_neg h1]

/-- **What is quoted is read as it was.** -/
theorem unescape_escape (cs : List Char) :
    Escape.unescape (cs.flatMap Value.escape) = some cs := by
  unfold Escape.unescape
  induction cs with
  | nil => rfl
  | cons c cs ih =>
    rw [List.flatMap_cons, unescapeFrom_escape, ih]
    rfl

end Strings

end Grammar

end CatalogQuery
