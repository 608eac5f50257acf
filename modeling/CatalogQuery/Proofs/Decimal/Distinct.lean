import CatalogQuery.Json
import CatalogQuery.Proofs.Decimal.ReadBack

/-!
# Distinct numbers have distinct texts

A text is written in a style with plus signs as it is without them, but for the plus signs
(`filter_writeSize`), and these are no part of what it reads back as. So a finite double is the only
one with its text in a style (`write_injective`). The text has a point or an exponent, by which it
differs from the texts of all integers.
-/

namespace CatalogQuery

/-! ### Numerals without plus signs -/

/-- A text without its plus signs. -/
def withoutPlus (cs : List Char) : List Char := cs.filter (· ≠ '+')

theorem withoutPlus_append (as bs : List Char) :
    withoutPlus (as ++ bs) = withoutPlus as ++ withoutPlus bs := List.filter_append ..

theorem withoutPlus_of_numeric {cs : List Char} (h : ∀ c ∈ cs, c ∈ numeric) :
    withoutPlus cs = cs := by
  have hall : ∀ c ∈ numeric, c ≠ '+' := by decide
  rw [withoutPlus, List.filter_eq_self]
  intro c hc
  simpa using hall c (h c hc)

/-- A numeral begins with a digit. -/
theorem Numeral.WellFormed.head {n : Numeral} (hn : n.WellFormed) :
    ∃ d cs, n.write = d :: cs ∧ d.isDigit = true := by
  obtain ⟨d, ds, hwhole⟩ := List.exists_cons_of_ne_nil hn.whole_ne_nil
  refine ⟨d, ds ++ n.writeRest, ?_, hn.whole d (by rw [hwhole]; exact List.mem_cons_self)⟩
  rw [Numeral.write, hwhole, List.cons_append]

/-- A numeral has a point or an exponent. -/
theorem Numeral.WellFormed.marked_write {n : Numeral} (hn : n.WellFormed) :
    '.' ∈ n.write ∨ 'e' ∈ n.write := by
  unfold Numeral.write Numeral.writeRest
  rcases hn.marked with hfraction | hexponent
  · left
    rw [if_neg (by simpa using hfraction)]
    simp
  · right
    obtain ⟨p, hp⟩ := Option.ne_none_iff_exists'.mp hexponent
    rw [hp, Numeral.writeExponent]
    simp

namespace DecimalStyle

/-- The style that leaves plus signs out. -/
def plain (style : DecimalStyle) : DecimalStyle := { style with plus := false }

/-- With a power of ten, a text in a style differs from that without plus signs by one at most. -/
theorem scientific_plain (style : DecimalStyle) (ds : List Char) (e : ℤ) :
    ∃ front back, scientific style.plain ds e = front ++ back ∧
      (scientific style ds e = front ++ back ∨ scientific style ds e = front ++ '+' :: back) := by
  -- a plus sign is written only in front of a power that is not negative
  by_cases hsign : e < 0 ∨ style.plus = false
  · refine ⟨scientific style.plain ds e, [], (List.append_nil _).symm, .inl ?_⟩
    rw [List.append_nil]
    unfold scientific plain
    rcases hsign with he | hplus
    · simp only [if_pos he]
    · simp only [hplus]
  · rw [not_or, Bool.not_eq_false] at hsign
    unfold scientific plain
    dsimp only
    rw [if_neg hsign.1, if_neg hsign.1, if_pos hsign.2]
    exact ⟨_ ++ ['e'], Nat.toDigits 10 e.natAbs, (List.append_assoc _ ['e'] _).symm,
      .inr (List.append_assoc _ ['e'] _).symm⟩

theorem withoutPlus_scientific (style : DecimalStyle) {ds : List Char} (hne : ds ≠ [])
    (hds : ∀ c ∈ ds, c.isDigit = true) (e : ℤ) :
    withoutPlus (scientific style ds e) = scientific style.plain ds e := by
  have hplus : style.plain.plus = false := rfl
  obtain ⟨n, hn, hwrite, -⟩ := exists_scientific hplus hne hds e
  have hplain := withoutPlus_of_numeric (hwrite ▸ Numeral.mem_numeric hn)
  obtain ⟨front, back, hsplit, hstyle⟩ := scientific_plain style ds e
  -- the sign that one style has more is taken off
  have hsame : withoutPlus (scientific style ds e) = withoutPlus (front ++ back) := by
    rcases hstyle with h | h
    · rw [h]
    · rw [h, withoutPlus_append, withoutPlus_append]
      rfl
  rw [hsame, ← hsplit, hplain]

/-- Both styles write the same digits, and take the same form. -/
theorem writeSize_of_ne_zero (style : DecimalStyle) {x : Double} (hx : ¬ x.isZero = true) :
    ∃ ds e, ds ≠ [] ∧ (∀ c ∈ ds, c.isDigit = true) ∧
      (style.writeSize x = positional ds e ∧ style.plain.writeSize x = positional ds e ∨
        style.writeSize x = scientific style ds e ∧
          style.plain.writeSize x = scientific style.plain ds e) := by
  refine ⟨(digits (Decimal.shortest style.tieUp x)).1, (digits (Decimal.shortest style.tieUp x)).2,
    digits_ne_nil _, isDigit_digits _, ?_⟩
  unfold writeSize
  rw [if_neg hx, if_neg hx]
  by_cases he : style.positionalFrom ≤ (digits (Decimal.shortest style.tieUp x)).2 ∧
      (digits (Decimal.shortest style.tieUp x)).2 < style.positionalBelow
  · exact .inl ⟨if_pos he, if_pos he⟩
  · exact .inr ⟨if_neg he, if_neg he⟩

/-- **Plus signs are all that a text loses in the style without them.** -/
theorem withoutPlus_writeSize (style : DecimalStyle) (x : Double) :
    withoutPlus (style.writeSize x) = style.plain.writeSize x := by
  by_cases hzero : x.isZero = true
  · unfold writeSize
    rw [if_pos hzero, if_pos hzero]
    rfl
  · obtain ⟨ds, e, hne, hds, ⟨h, hplain⟩ | ⟨h, hplain⟩⟩ := style.writeSize_of_ne_zero hzero
    · obtain ⟨n, hn, hwrite, -⟩ := exists_positional hne hds e
      rw [h, hplain]
      exact withoutPlus_of_numeric (hwrite ▸ Numeral.mem_numeric hn)
    · rw [h, hplain]
      exact withoutPlus_scientific style hne hds e

/-! ### Texts of finite doubles -/

/-- The text of a size is that of a numeral which reads back, but for a plus sign. -/
theorem writeSize_numeral (style : DecimalStyle) {x : Double} (hx : x.isFinite = true) :
    ∃ n : Numeral, n.WellFormed ∧ n.write = withoutPlus (style.writeSize x) ∧
      (n.decimal.nearest false : Double) = ⟨false, x.rank⟩ := by
  have hplus : style.plain.plus = false := rfl
  rw [withoutPlus_writeSize]
  exact writeSize_spec hplus hx

/-- The characters of a size are those of numbers. -/
theorem mem_writeSize (style : DecimalStyle) {x : Double} (hx : x.isFinite = true) :
    ∀ c ∈ style.writeSize x, c ∈ '+' :: numeric := by
  obtain ⟨n, hn, hwrite, -⟩ := style.writeSize_numeral hx
  intro c hc
  by_cases hplus : c = '+'
  · rw [hplus]
    exact List.mem_cons_self
  · apply List.mem_cons_of_mem
    apply Numeral.mem_numeric hn
    rw [hwrite, withoutPlus, List.mem_filter]
    exact ⟨hc, by simpa using hplus⟩

/-- A size does not begin with a minus sign. -/
theorem writeSize_ne_minus (style : DecimalStyle) {x : Double} (hx : x.isFinite = true)
    (cs : List Char) : style.writeSize x ≠ '-' :: cs := by
  intro h
  obtain ⟨n, hn, hwrite, -⟩ := style.writeSize_numeral hx
  obtain ⟨d, ds, hhead, hd⟩ := hn.head
  have hcons : withoutPlus ('-' :: cs) = '-' :: withoutPlus cs := rfl
  -- without plus signs the text is a numeral, which begins with a digit
  rw [hhead, h, hcons] at hwrite
  cases hwrite
  cases hd

/-- A size has a point or an exponent. -/
theorem writeSize_marked (style : DecimalStyle) {x : Double} (hx : x.isFinite = true) :
    '.' ∈ style.writeSize x ∨ 'e' ∈ style.writeSize x := by
  obtain ⟨n, hn, hwrite, -⟩ := style.writeSize_numeral hx
  apply hn.marked_write.imp
  all_goals
    intro h
    rw [hwrite] at h
    exact List.mem_of_mem_filter h

/-- Equal sizes have equal ranks. -/
theorem rank_eq_of_writeSize (style : DecimalStyle) {x y : Double} (hx : x.isFinite = true)
    (hy : y.isFinite = true) (h : style.writeSize x = style.writeSize y) : x.rank = y.rank := by
  obtain ⟨n, hn, hwrite, hnearest⟩ := style.writeSize_numeral hx
  obtain ⟨m, hm, hwrite', hnearest'⟩ := style.writeSize_numeral hy
  have hdecimal : n.decimal = m.decimal := by
    apply Option.some_injective
    rw [← Numeral.read?_write hn, ← Numeral.read?_write hm, hwrite, hwrite', h]
  have hsame : (⟨false, x.rank⟩ : Double) = ⟨false, y.rank⟩ := by
    rw [← hnearest, ← hnearest', hdecimal]
  show (⟨false, x.rank⟩ : Double).rank = (⟨false, y.rank⟩ : Double).rank
  rw [hsame]

/-- **Distinct finite doubles have distinct texts**, in every style. -/
theorem write_injective (style : DecimalStyle) {x y : Double} (hx : x.isFinite = true)
    (hy : y.isFinite = true) (h : style.write x = style.write y) : x = y := by
  have htext := congrArg String.toList h
  rw [toList_write style hx, toList_write style hy] at htext
  obtain ⟨negative, rank⟩ := x
  obtain ⟨negative', rank'⟩ := y
  -- the sign is read off the first character
  cases negative <;> cases negative'
  · obtain rfl : rank = rank' := style.rank_eq_of_writeSize hx hy htext
    rfl
  · exact absurd htext (style.writeSize_ne_minus hx _)
  · exact absurd htext.symm (style.writeSize_ne_minus hy _)
  · have hsize := (List.cons_inj_right _).mp htext
    obtain rfl : rank = rank' := style.rank_eq_of_writeSize hx hy hsize
    rfl

end DecimalStyle

end CatalogQuery
