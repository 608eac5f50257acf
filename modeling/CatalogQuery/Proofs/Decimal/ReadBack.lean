import CatalogQuery.Decimal.Style
import CatalogQuery.Proofs.Basic
import CatalogQuery.Proofs.Decimal.Value
import Mathlib.Tactic.IntervalCases

/-!
# Written numbers read back

A `Numeral` holds the parts of the text of an unsigned floating-point number. `Numeral.read?_write`
says which number its text is read as.

The size of a finite number is written as the text of a numeral (`writeSize_spec`) that has the
value of its shortest decimal numeral, and therefore reads back as the same number.
-/

namespace CatalogQuery

/-! ### Rows of digits -/

theorem numeral_eq (ds : List Char) : numeral ds = Nat.ofDigitChars 10 ds 0 := rfl

theorem numeral_append (as bs : List Char) :
    numeral (as ++ bs) = numeral as * 10 ^ bs.length + numeral bs := by
  rw [numeral_eq, Nat.ofDigitChars_append, Nat.ofDigitChars_eq_ofDigitChars_zero, Nat.mul_comm]
  rfl

@[simp] theorem numeral_toDigits (n : ℕ) : numeral (Nat.toDigits 10 n) = n :=
  Nat.ofDigitChars_ten_toDigits

@[simp] theorem numeral_zeros (n : ℕ) : numeral (DecimalStyle.zeros n) = 0 :=
  Nat.ofDigitChars_replicate_zero

theorem isDigit_toDigits (n : ℕ) : ∀ c ∈ Nat.toDigits 10 n, c.isDigit = true :=
  fun _ hc => Nat.isDigit_of_mem_toDigits (by norm_num) le_rfl hc

theorem isDigit_zeros (n : ℕ) : ∀ c ∈ DecimalStyle.zeros n, c.isDigit = true := by
  intro c hc
  rw [List.eq_of_mem_replicate hc]
  rfl

theorem mem_digits {c : Char} (h : c.isDigit = true) : c ∈ "0123456789".toList := by
  have hbounds : 48 ≤ c.toNat ∧ c.toNat ≤ 57 := by
    simpa [Char.isDigit, UInt32.le_iff_toNat_le] using h
  have hc : c = Char.ofNat c.toNat := c.ofNat_toNat.symm
  obtain ⟨hlo, hhi⟩ := hbounds
  generalize c.toNat = n at *
  subst hc
  interval_cases n <;> decide

/-- The characters that numbers are written with. -/
def numeric : List Char := "0123456789.e-".toList

theorem mem_numeric_of_isDigit {c : Char} (h : c.isDigit = true) : c ∈ numeric := by
  have hall : ∀ c ∈ "0123456789".toList, c ∈ numeric := by decide
  exact hall c (mem_digits h)

/-- The digits in front of a text that does not begin with a digit. -/
theorem splitDigits_append {ds rest : List Char} (hds : ∀ c ∈ ds, c.isDigit = true)
    (hrest : ∀ c ∈ rest.head?, c.isDigit = false) :
    Decimal.splitDigits (ds ++ rest) = (ds, rest) := by
  unfold Decimal.splitDigits
  rw [List.takeWhile_append_of_pos hds, List.dropWhile_append_of_pos hds]
  cases rest with
  | nil => simp
  | cons c rest =>
    have hc : ¬ c.isDigit = true := by simp [hrest c rfl]
    rw [List.takeWhile_cons_of_neg hc, List.dropWhile_cons_of_neg hc, List.append_nil]

/-! ### Numerals -/

/-- The parts of the text of an unsigned floating-point number. -/
structure Numeral where
  whole : List Char
  /-- The digits after the point; without any there is no point. -/
  fraction : List Char
  /-- The digits of the exponent, and whether it is negative. -/
  exponent : Option (Bool × List Char)

namespace Numeral

/-- The text of an exponent. -/
def writeExponent : Option (Bool × List Char) → List Char
  | none => []
  | some (negative, ds) => 'e' :: ((if negative then ['-'] else []) ++ ds)

/-- The text after the digits in front of the point. -/
def writeRest (n : Numeral) : List Char :=
  (if n.fraction.isEmpty then [] else '.' :: n.fraction) ++ writeExponent n.exponent

def write (n : Numeral) : List Char := n.whole ++ n.writeRest

/-- There are digits where the grammar of numbers wants some, and a point or an exponent. -/
structure WellFormed (n : Numeral) : Prop where
  whole_ne_nil : n.whole ≠ []
  whole : ∀ c ∈ n.whole, c.isDigit = true
  fraction : ∀ c ∈ n.fraction, c.isDigit = true
  exponent : ∀ e ∈ n.exponent, e.2 ≠ [] ∧ ∀ c ∈ e.2, c.isDigit = true
  marked : n.fraction ≠ [] ∨ n.exponent ≠ none

/-- The power of ten of an exponent. -/
def power : Option (Bool × List Char) → ℤ
  | none => 0
  | some (negative, ds) => if negative then -(numeral ds : ℤ) else numeral ds

/-- What the text of a numeral is read as. -/
def decimal (n : Numeral) : Decimal :=
  ⟨numeral (n.whole ++ n.fraction), power n.exponent - n.fraction.length⟩

theorem readExponent?_write {e : Option (Bool × List Char)}
    (he : ∀ x ∈ e, x.2 ≠ [] ∧ ∀ c ∈ x.2, c.isDigit = true) :
    Decimal.readExponent? (writeExponent e) = some (power e) := by
  cases e with
  | none => rfl
  | some x =>
    obtain ⟨negative, ds⟩ := x
    obtain ⟨hne, hds⟩ := he _ rfl
    have hall : ds.all Char.isDigit = true := List.all_eq_true.mpr hds
    cases ds with
    | nil => exact absurd rfl hne
    | cons d ds =>
      have hd : d.isDigit = true := hds d List.mem_cons_self
      cases negative with
      | true => simp [writeExponent, Decimal.readExponent?, power, hall]
      | false =>
        -- a digit is no sign, so that the power is not negative
        have hminus : d ≠ '-' := by rintro rfl; cases hd
        have hplus : d ≠ '+' := by rintro rfl; cases hd
        simp only [writeExponent, Decimal.readExponent?, power]
        simp [hall, hminus, hplus]

theorem head_writeExponent (e : Option (Bool × List Char)) :
    ∀ c ∈ (writeExponent e).head?, c = 'e' := by
  intro c hc
  cases e with
  | none => cases hc
  | some x => cases hc; rfl

/-- **The text of a numeral is read as its decimal.** -/
theorem read?_write {n : Numeral} (hn : n.WellFormed) :
    Decimal.read? n.write = some n.decimal := by
  have hexponent : ∀ c ∈ (writeExponent n.exponent).head?, c.isDigit = false := by
    intro c hc
    rw [head_writeExponent _ c hc]
    rfl
  have hne : (n.whole ++ n.fraction).isEmpty = false := by
    rw [List.isEmpty_eq_false_iff]
    exact List.append_ne_nil_of_left_ne_nil hn.whole_ne_nil _
  unfold Decimal.read? write writeRest
  cases hfraction : n.fraction with
  | nil =>
    -- without a fraction no point is written
    rw [hfraction, List.append_nil] at hne
    have hsplit := splitDigits_append hn.whole hexponent
    have hread := readExponent?_write hn.exponent
    rw [decimal, hfraction]
    cases hexp : n.exponent with
    | none => simp_all [writeExponent]
    | some e => simp_all [writeExponent]
  | cons d ds =>
    rw [hfraction] at hne
    have hds : ∀ c ∈ d :: ds, c.isDigit = true := hfraction ▸ hn.fraction
    -- the whole part ends at the point, and the fraction at the exponent
    have hpoint : ∀ c ∈ ('.' :: (d :: ds ++ writeExponent n.exponent)).head?, c.isDigit = false := by
      intro c hc
      cases hc
      rfl
    have hsplit := splitDigits_append hn.whole hpoint
    have hsplit' := splitDigits_append hds hexponent
    have hread := readExponent?_write hn.exponent
    rw [decimal, hfraction]
    simp_all

theorem mem_numeric {n : Numeral} (hn : n.WellFormed) : ∀ c ∈ n.write, c ∈ numeric := by
  intro c hc
  unfold Numeral.write Numeral.writeRest at hc
  simp only [List.mem_append] at hc
  -- of the whole part, the fraction or the exponent
  rcases hc with hc | hc | hc
  · exact mem_numeric_of_isDigit (hn.whole c hc)
  · split_ifs at hc
    · cases hc
    · rcases List.mem_cons.mp hc with rfl | hc
      · decide
      · exact mem_numeric_of_isDigit (hn.fraction c hc)
  · cases he : n.exponent with
    | none => rw [he] at hc; cases hc
    | some p =>
      obtain ⟨negative, ds⟩ := p
      rw [he, Numeral.writeExponent, List.mem_cons, List.mem_append] at hc
      rcases hc with rfl | hc | hc
      · decide
      · split_ifs at hc
        · obtain rfl := List.mem_singleton.mp hc
          decide
        · cases hc
      · exact mem_numeric_of_isDigit ((hn.exponent _ he).2 c hc)

end Numeral

/-! ### Written digits -/

namespace DecimalStyle

/-- A row of digits ends with zeros, perhaps none, after the digits that are kept. -/
theorem kept_append_zeros (all : List Char) :
    ∃ k, all = (all.reverse.dropWhile (· = '0')).reverse ++ zeros k := by
  have hzeros : ∀ c ∈ all.reverse.takeWhile (· = '0'), c = '0' := by
    intro c hc
    simpa using List.all_eq_true.mp (List.all_takeWhile (l := all.reverse)) c hc
  have hsplit := congrArg List.reverse
    (List.takeWhile_append_dropWhile (p := (· = '0')) (l := all.reverse))
  rw [List.reverse_append, List.reverse_reverse,
    List.eq_replicate_of_mem hzeros, List.reverse_replicate] at hsplit
  exact ⟨_, hsplit.symm⟩

theorem isDigit_digits (d : Decimal) : ∀ c ∈ (digits d).1, c.isDigit = true := by
  intro c hc
  unfold digits at hc
  dsimp only at hc
  split_ifs at hc with hempty
  · rw [List.mem_singleton.mp hc]
    rfl
  · have hkept := (List.dropWhile_sublist _).mem (List.mem_reverse.mp hc)
    exact isDigit_toDigits _ c (List.mem_reverse.mp hkept)

theorem digits_ne_nil (d : Decimal) : (digits d).1 ≠ [] := by
  unfold digits
  dsimp only
  split_ifs with hempty
  · exact List.cons_ne_nil _ _
  · simpa using hempty

/-- The value of a numeral by its digits and the place of the first of them. -/
theorem value_eq_digits {d : Decimal} (hd : d.coefficient ≠ 0) :
    d.value = numeral (digits d).1 * 10 ^ ((digits d).2 + 1 - (digits d).1.length) := by
  obtain ⟨k, hk⟩ := kept_append_zeros (Nat.toDigits 10 d.coefficient)
  generalize hg : ((Nat.toDigits 10 d.coefficient).reverse.dropWhile (· = '0')).reverse = kept at hk
  -- the zeros at the end are a power of ten
  have hnumeral : d.coefficient = numeral kept * 10 ^ k := by
    have h := congrArg numeral hk
    rwa [numeral_toDigits, numeral_append, numeral_zeros, Nat.add_zero, zeros,
      List.length_replicate] at h
  have hkept : kept ≠ [] := by
    rintro rfl
    exact hd (hnumeral.trans (Nat.zero_mul _))
  have hlength : (Nat.toDigits 10 d.coefficient).length = kept.length + k := by
    rw [hk, List.length_append, zeros, List.length_replicate]
  have hdigits : digits d = (kept, d.exponent + (kept.length + k : ℕ) - 1) := by
    unfold digits
    simp only [hg, hlength]
    rw [if_neg (by simpa using hkept)]
  rw [hdigits, Decimal.value, hnumeral]
  push_cast
  rw [mul_assoc, ← zpow_natCast, ← zpow_add₀ (by norm_num)]
  congr 2
  ring

/-! ### Written sizes -/

theorem wellFormed_point {whole fraction : List Char} (hwhole : whole ≠ [])
    (hfraction : fraction ≠ []) (hdigits : ∀ c ∈ whole ++ fraction, c.isDigit = true) :
    Numeral.WellFormed ⟨whole, fraction, none⟩ where
  whole_ne_nil := hwhole
  whole c hc := hdigits c (List.mem_append_left _ hc)
  fraction c hc := hdigits c (List.mem_append_right _ hc)
  exponent := by simp
  marked := .inl hfraction

theorem write_point {whole fraction : List Char} (hfraction : fraction ≠ []) :
    Numeral.write ⟨whole, fraction, none⟩ = whole ++ '.' :: fraction := by
  simp [Numeral.write, Numeral.writeRest, Numeral.writeExponent, hfraction]

theorem value_point (whole fraction : List Char) :
    (Numeral.decimal ⟨whole, fraction, none⟩).value
      = numeral (whole ++ fraction) * 10 ^ (-(fraction.length : ℤ)) := by
  simp [Numeral.decimal, Numeral.power, Decimal.value]

/-- Digits written positionally are those of a numeral of the same value. -/
theorem exists_positional {ds : List Char} (hne : ds ≠ []) (hds : ∀ c ∈ ds, c.isDigit = true)
    (e : ℤ) : ∃ n : Numeral, n.WellFormed ∧ n.write = positional ds e ∧
      n.decimal.value = numeral ds * 10 ^ (e + 1 - ds.length) := by
  unfold positional
  split_ifs with he
  · -- zeros up to the first digit, all after the point
    have hfraction : zeros (-e - 1).toNat ++ ds ≠ [] := List.append_ne_nil_of_right_ne_nil _ hne
    refine ⟨⟨['0'], zeros (-e - 1).toNat ++ ds, none⟩, ?_, write_point hfraction, ?_⟩
    · refine wellFormed_point (by simp) hfraction fun c hc => ?_
      rcases List.mem_append.mp hc with hc | hc
      · rw [List.mem_singleton.mp hc]
        rfl
      · exact (List.mem_append.mp hc).elim (isDigit_zeros _ c) (hds c)
    · have hzero : numeral ['0'] = 0 := rfl
      rw [value_point, numeral_append, numeral_append, hzero, numeral_zeros, Nat.zero_mul,
        Nat.zero_mul, Nat.zero_add, Nat.zero_add, List.length_append, zeros, List.length_replicate]
      congr 2
      omega
  · dsimp only
    by_cases hlen : ds.length ≤ e.toNat + 1
    · -- all digits before the point, and zeros up to it
      rw [List.drop_eq_nil_of_le hlen, List.take_of_length_le hlen]
      have hzero : numeral ['0'] = 0 := rfl
      refine ⟨⟨ds ++ zeros (e.toNat + 1 - ds.length), ['0'], none⟩, ?_, ?_, ?_⟩
      · refine wellFormed_point (List.append_ne_nil_of_left_ne_nil hne _) (by simp) fun c hc => ?_
        rcases List.mem_append.mp hc with hc | hc
        · exact (List.mem_append.mp hc).elim (hds c) (isDigit_zeros _ c)
        · rw [List.mem_singleton.mp hc]
          rfl
      · exact write_point (by simp)
      · rw [value_point, numeral_append, numeral_append, hzero, numeral_zeros, zeros,
          List.length_replicate, List.length_singleton]
        push_cast
        rw [add_zero, add_zero, mul_assoc, zpow_neg_one, mul_inv_cancel₀ (by norm_num), mul_one,
          ← zpow_natCast]
        congr 2
        omega
    · -- the point among the digits
      have hdrop : ds.drop (e.toNat + 1) ≠ [] := by
        rw [Ne, List.drop_eq_nil_iff]
        exact hlen
      have htake : (ds.take (e.toNat + 1)).length = e.toNat + 1 := by
        rw [List.length_take]
        omega
      have hzeros : zeros (e.toNat + 1 - (ds.take (e.toNat + 1)).length) = [] := by
        rw [htake, Nat.sub_self]
        rfl
      rw [hzeros, List.append_nil, if_neg (by simpa using hdrop)]
      refine ⟨⟨ds.take (e.toNat + 1), ds.drop (e.toNat + 1), none⟩, ?_, write_point hdrop, ?_⟩
      · refine wellFormed_point (List.ne_nil_of_length_pos (by omega)) hdrop fun c hc => ?_
        rw [List.take_append_drop] at hc
        exact hds c hc
      · rw [value_point, List.take_append_drop, List.length_drop]
        congr 2
        omega

/-- Digits written with a power of ten are those of a numeral of the same value. -/
theorem exists_scientific {style : DecimalStyle} (hstyle : style.plus = false) {ds : List Char}
    (hne : ds ≠ []) (hds : ∀ c ∈ ds, c.isDigit = true) (e : ℤ) :
    ∃ n : Numeral, n.WellFormed ∧ n.write = scientific style ds e ∧
      n.decimal.value = numeral ds * 10 ^ (e + 1 - ds.length) := by
  cases ds with
  | nil => exact absurd rfl hne
  | cons d rest =>
    obtain ⟨hd, hrest⟩ := List.forall_mem_cons.mp hds
    refine ⟨⟨[d], rest, some (decide (e < 0), Nat.toDigits 10 e.natAbs)⟩, ?_, ?_, ?_⟩
    · refine ⟨by simp, by simpa using hd, hrest, ?_, .inr (by simp)⟩
      rintro x ⟨⟩
      exact ⟨Nat.toDigits_ne_nil, isDigit_toDigits _⟩
    · simp only [Numeral.write, Numeral.writeRest, Numeral.writeExponent, scientific, hstyle]
      simp
    · -- the sign and the digits of the power are those of `e`
      have hpower : Numeral.power (some (decide (e < 0), Nat.toDigits 10 e.natAbs)) = e := by
        simp only [Numeral.power, numeral_toDigits, decide_eq_true_eq]
        split_ifs <;> omega
      rw [Numeral.decimal, hpower, Decimal.value]
      simp only [List.singleton_append, List.length_cons]
      congr 2
      push_cast
      ring

/-- **The size of a finite double reads back**: in a style without plus signs it is written as a
numeral whose decimal has the double as its nearest number, signs aside. -/
theorem writeSize_spec {style : DecimalStyle} (hstyle : style.plus = false) {x : Double}
    (hx : x.isFinite = true) :
    ∃ n : Numeral, n.WellFormed ∧ n.write = writeSize style x ∧
      (n.decimal.nearest false : Double) = ⟨false, x.rank⟩ := by
  unfold writeSize
  split_ifs with hzero
  · refine ⟨⟨['0'], ['0'], none⟩, wellFormed_point (by simp) (by simp) (by decide), rfl, ?_⟩
    have hrank : x.rank.val = 0 := by simpa [Binary.isZero] using hzero
    refine Decimal.binary_ext rfl ?_
    rw [hrank]
    rfl
  · have hshortest := Decimal.nearest_shortest style.tieUp hx
    -- the shortest decimal is not zero, as the double is not
    have hcoefficient : (Decimal.shortest style.tieUp x).coefficient ≠ 0 := by
      intro h
      rw [Decimal.nearest, if_pos (.inl h)] at hshortest
      rw [← hshortest] at hzero
      exact hzero rfl
    have hne := digits_ne_nil (Decimal.shortest style.tieUp x)
    have hds := isDigit_digits (Decimal.shortest style.tieUp x)
    have hvalue := value_eq_digits hcoefficient
    obtain ⟨n, hn, hwrite, hn'⟩ : ∃ n : Numeral, n.WellFormed ∧
        n.write = (if style.positionalFrom ≤ (digits (Decimal.shortest style.tieUp x)).2 ∧
            (digits (Decimal.shortest style.tieUp x)).2 < style.positionalBelow then
          positional (digits (Decimal.shortest style.tieUp x)).1
            (digits (Decimal.shortest style.tieUp x)).2
          else scientific style (digits (Decimal.shortest style.tieUp x)).1
            (digits (Decimal.shortest style.tieUp x)).2) ∧
        n.decimal.value = (Decimal.shortest style.tieUp x).value := by
      rw [hvalue]
      split_ifs
      · exact exists_positional hne hds _
      · exact exists_scientific hstyle hne hds _
    refine ⟨n, hn, hwrite, ?_⟩
    -- the sign does not matter for the rank
    have hrank : (Decimal.nearest false (Decimal.shortest style.tieUp x) : Double).rank
        = x.rank := by
      exact (congrArg Binary.rank (Decimal.nearest_neg x.negative _)).symm.trans
        (congrArg Binary.rank hshortest)
    rw [Decimal.nearest_congr hn', Decimal.nearest_neg, hrank]

theorem toList_write (style : DecimalStyle) {x : Double} (hx : x.isFinite = true) :
    (style.write x).toList
      = if x.negative then '-' :: style.writeSize x else style.writeSize x := by
  have hnan : x.isNaN = false := by
    simp only [Binary.isFinite, Binary.isNaN, decide_eq_true_eq, decide_eq_false_iff_not] at hx ⊢
    omega
  rw [write, hnan, hx]
  simp

end DecimalStyle

end CatalogQuery
