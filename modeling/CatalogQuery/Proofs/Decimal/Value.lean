import CatalogQuery.Decimal.Shortest
import CatalogQuery.Proofs.Decimal.Rounding

/-!
# The value of a numeral

`Decimal.value` is the rational number that a numeral stands for. `Decimal.nearest` depends on the
value only (`nearest_congr`), so a numeral may be written with more or fewer zeros without reading
as another number.

A finite double is the nearest to its exact numeral (`nearest_exact`), and so to the shortest one
that is found for it (`nearest_shortest`).
-/

namespace CatalogQuery.Decimal

/-- The rational number that a numeral stands for. -/
def value (d : Decimal) : ℚ := d.coefficient * 10 ^ d.exponent

theorem value_eq_zero_iff (d : Decimal) : d.value = 0 ↔ d.coefficient = 0 := by
  have hten : (10 : ℚ) ^ d.exponent ≠ 0 := by positivity
  simp [value, hten]

theorem value_nonneg (d : Decimal) : 0 ≤ d.value := by
  unfold value
  positivity

/-! ### Nearest numbers -/

theorem ten_zpow_le_iff {x : ℚ} (hx : 0 < x) (k : ℤ) : (10 : ℚ) ^ k ≤ x ↔ k ≤ Int.log 10 x := by
  rw [← Int.zpow_le_iff_le_log (by norm_num) hx, Nat.cast_ofNat]

theorem lt_ten_zpow_iff {x : ℚ} (hx : 0 < x) (k : ℤ) : x < (10 : ℚ) ^ k ↔ Int.log 10 x < k := by
  rw [← Int.lt_zpow_iff_log_lt (by norm_num) hx, Nat.cast_ofNat]

theorem lt_ten_pow_width (n : ℕ) : n < 10 ^ width n := by
  exact (Nat.length_toDigits_le_iff (by norm_num) Nat.length_toDigits_pos).mp le_rfl

theorem ten_pow_width_le {n : ℕ} (hn : 0 < n) : 10 ^ (width n - 1) ≤ n := by
  by_contra hlt
  rw [not_le] at hlt
  have hpos : 0 < width n := Nat.length_toDigits_pos
  by_cases hone : width n = 1
  · rw [hone] at hlt
    omega
  · have hle := (Nat.length_toDigits_le_iff (b := 10) (by norm_num) (by omega)).mpr hlt
    change width n ≤ width n - 1 at hle
    omega

/-- The place of the leading digit depends on the value only. -/
theorem exponent_add_width {d : Decimal} (hd : d.coefficient ≠ 0) :
    d.exponent + width d.coefficient = Int.log 10 d.value + 1 := by
  have hpos : 0 < width d.coefficient := Nat.length_toDigits_pos
  have hvalue : 0 < d.value :=
    lt_of_le_of_ne d.value_nonneg fun h => hd (d.value_eq_zero_iff.mp h.symm)
  -- the coefficient lies between two powers of ten that follow each other
  have hlow : d.exponent + width d.coefficient - 1 ≤ Int.log 10 d.value := by
    have hc : (10 : ℚ) ^ (width d.coefficient - 1) ≤ d.coefficient := by
      exact_mod_cast ten_pow_width_le (Nat.pos_of_ne_zero hd)
    rw [← ten_zpow_le_iff hvalue]
    calc (10 : ℚ) ^ (d.exponent + width d.coefficient - 1)
        = (10 : ℚ) ^ (width d.coefficient - 1) * 10 ^ d.exponent := by
          rw [← zpow_natCast, ← zpow_add₀ (by norm_num)]
          congr 1
          omega
      _ ≤ d.value := mul_le_mul_of_nonneg_right hc (by positivity)
  have hhigh : Int.log 10 d.value < d.exponent + width d.coefficient := by
    have hc : (d.coefficient : ℚ) < 10 ^ width d.coefficient := by
      exact_mod_cast lt_ten_pow_width d.coefficient
    rw [← lt_ten_zpow_iff hvalue]
    calc d.value < 10 ^ width d.coefficient * 10 ^ d.exponent :=
          mul_lt_mul_of_pos_right hc (by positivity)
      _ = (10 : ℚ) ^ (d.exponent + width d.coefficient) := by
          rw [← zpow_natCast, ← zpow_add₀ (by norm_num)]
          congr 1
          omega
  omega

variable {f : BinaryFormat}

theorem rank_ofRatio (negative : Bool) (num : ℕ) {den : ℕ} (hden : 0 < den) :
    (Binary.ofRatio negative num den : Binary f).rank.val = Binary.rankOf f (num / den) :=
  Binary.nearestRank_eq num hden

theorem binary_ext {x y : Binary f} (hnegative : x.negative = y.negative)
    (hrank : x.rank.val = y.rank.val) : x = y := by
  obtain ⟨n, r⟩ := x
  obtain ⟨n', r'⟩ := y
  cases hnegative
  cases Fin.ext hrank
  rfl

/-- What `nearest` answers, in terms of the value. -/
theorem nearest_spec (negative : Bool) (d : Decimal) :
    (d.nearest negative : Binary f).negative = negative ∧
    (d.nearest negative : Binary f).rank.val =
      if d.value = 0 ∨ Int.log 10 d.value + 1 < -(2 ^ f.exponentBits + f.fractionBits) then 0
      else if 2 ^ f.exponentBits + f.fractionBits < Int.log 10 d.value + 1 then f.infinity
      else Binary.rankOf f d.value := by
  -- zero, too small, too large, and rounded from an integer or a quotient
  by_cases hd : d.coefficient = 0
  · have hnearest : (d.nearest negative : Binary f) = Binary.ofRatio negative 0 1 := by
      simp [nearest, hd]
    rw [hnearest, if_pos (.inl (d.value_eq_zero_iff.mpr hd))]
    exact ⟨rfl, by simp [Binary.ofRatio, Binary.nearestRank]⟩
  · have hvalue : d.value ≠ 0 := fun h => hd (d.value_eq_zero_iff.mp h)
    unfold nearest
    simp only [hd, hvalue, false_or, exponent_add_width hd]
    split_ifs with hsmall hlarge hexp
    · exact ⟨rfl, by simp [Binary.ofRatio, Binary.nearestRank]⟩
    · exact ⟨rfl, rfl⟩
    · refine ⟨rfl, ?_⟩
      obtain ⟨k, hk⟩ := Int.eq_ofNat_of_zero_le hexp
      rw [rank_ofRatio _ _ one_pos, value, hk, Int.toNat_natCast]
      push_cast
      rw [div_one, zpow_natCast]
    · refine ⟨rfl, ?_⟩
      obtain ⟨k, hk⟩ : ∃ k : ℕ, d.exponent = -k := ⟨(-d.exponent).toNat, by omega⟩
      rw [rank_ofRatio _ _ (by positivity), value, hk, neg_neg, Int.toNat_natCast]
      push_cast
      rw [zpow_neg, zpow_natCast, div_eq_mul_inv]

/-- **The nearest number depends on the value only.** -/
theorem nearest_congr {d d' : Decimal} (h : d.value = d'.value) (negative : Bool) :
    (d.nearest negative : Binary f) = d'.nearest negative := by
  obtain ⟨hnegative, hrank⟩ := nearest_spec (f := f) negative d
  obtain ⟨hnegative', hrank'⟩ := nearest_spec (f := f) negative d'
  refine binary_ext (hnegative.trans hnegative'.symm) ?_
  rw [hrank, hrank', h]

/-- The sign plays no part in rounding. -/
theorem nearest_neg (negative : Bool) (d : Decimal) :
    (d.nearest negative : Binary f) = ⟨negative, (d.nearest false).rank⟩ := by
  obtain ⟨hnegative, hrank⟩ := nearest_spec (f := f) negative d
  obtain ⟨-, hrank'⟩ := nearest_spec (f := f) false d
  exact binary_ext hnegative (hrank.trans hrank'.symm)

/-! ### Exact numerals -/

theorem value_exact (x : Binary f) : (exact x).value = x.size := by
  unfold exact Binary.size
  obtain ⟨m, q⟩ := x.significand
  dsimp only
  split_ifs with hq
  · obtain ⟨k, rfl⟩ := Int.eq_ofNat_of_zero_le hq
    simp [value]
  · obtain ⟨k, rfl⟩ : ∃ k : ℕ, q = -k := ⟨(-q).toNat, by omega⟩
    have hten : (10 : ℚ) ^ k = 5 ^ k * 2 ^ k := by rw [← mul_pow]; norm_num
    simp only [value, neg_neg, Int.toNat_natCast, zpow_neg, zpow_natCast, hten]
    push_cast
    field_simp

/-- The significand of a finite double and its exponent. -/
theorem significand_bounds {x : Double} (hx : x.isFinite = true) :
    x.significand.1 < 2 ^ 53 ∧ -1074 ≤ x.significand.2 ∧ x.significand.2 ≤ 971 := by
  have hinfinity : BinaryFormat.double.infinity = 2047 * 2 ^ 52 := by decide
  have hrank : x.rank.val < 2047 * 2 ^ 52 := by
    rwa [Binary.isFinite, decide_eq_true_eq, hinfinity] at hx
  have hmod := Nat.mod_lt x.rank.val (Nat.two_pow_pos 52)
  have hdiv : x.rank.val / 2 ^ 52 < 2047 := Nat.div_lt_of_lt_mul (by omega)
  have hmin : BinaryFormat.double.minExponent = -1074 := by decide
  have hbits : BinaryFormat.double.fractionBits = 52 := rfl
  unfold Binary.significand
  simp only [hmin, hbits]
  -- in the smallest unit, or with the leading bit that is not stored
  split_ifs
  · exact ⟨by dsimp only; omega, le_rfl, by norm_num⟩
  · exact ⟨by dsimp only; omega, by dsimp only; omega, by dsimp only; omega⟩

/-- Rounding does not cut off finite doubles unseen. -/
theorem log_size_bounds {x : Double} (hx : x.isFinite = true) (hsize : x.size ≠ 0) :
    -1074 ≤ Int.log 10 x.size ∧ Int.log 10 x.size < 1024 := by
  obtain ⟨hm, hlow, hhigh⟩ := significand_bounds hx
  have hm0 : x.significand.1 ≠ 0 := fun h => hsize (by simp [Binary.size, h])
  have hpos : 0 < x.size := by
    have : 0 < x.significand.1 := Nat.pos_of_ne_zero hm0
    unfold Binary.size
    positivity
  -- powers of two are bounded by the same powers of ten
  rw [← ten_zpow_le_iff hpos, ← lt_ten_zpow_iff hpos]
  constructor
  · have hone : (1 : ℚ) ≤ x.significand.1 := by exact_mod_cast Nat.one_le_iff_ne_zero.mpr hm0
    calc (10 : ℚ) ^ (-1074 : ℤ) ≤ 2 ^ (-1074 : ℤ) := by
          rw [zpow_neg, zpow_neg]
          exact inv_anti₀ (by positivity) (zpow_le_zpow_left₀ (by norm_num) (by norm_num) (by norm_num))
      _ ≤ 2 ^ x.significand.2 := zpow_le_zpow_right₀ (by norm_num) hlow
      _ ≤ x.significand.1 * 2 ^ x.significand.2 := le_mul_of_one_le_left (by positivity) hone
  · have hlt : (x.significand.1 : ℚ) < 2 ^ (53 : ℤ) := by exact_mod_cast hm
    calc x.size < 2 ^ (53 : ℤ) * 2 ^ x.significand.2 :=
          mul_lt_mul_of_pos_right hlt (by positivity)
      _ ≤ 2 ^ (53 : ℤ) * 2 ^ (971 : ℤ) :=
          mul_le_mul_of_nonneg_left (zpow_le_zpow_right₀ (by norm_num) hhigh) (by positivity)
      _ = 2 ^ (1024 : ℤ) := by rw [← zpow_add₀ (by norm_num)]; norm_num
      _ ≤ 10 ^ (1024 : ℤ) := zpow_le_zpow_left₀ (by norm_num) (by norm_num) (by norm_num)

/-- **A finite double is the nearest to its exact numeral.** -/
theorem nearest_exact {x : Double} (hx : x.isFinite = true) :
    ((exact x).nearest x.negative : Double) = x := by
  obtain ⟨hnegative, hrank⟩ := nearest_spec (f := .double) x.negative (exact x)
  refine binary_ext hnegative ?_
  rw [hrank, value_exact, ← Binary.rankOf_size hx]
  by_cases hsize : x.size = 0
  · rw [if_pos (.inl hsize), hsize, Binary.rankOf, if_pos rfl]
  · obtain ⟨hlow, hhigh⟩ := log_size_bounds hx hsize
    have hreach : (2 : ℤ) ^ BinaryFormat.double.exponentBits + BinaryFormat.double.fractionBits
        = 2100 := by decide
    rw [hreach, if_neg (by rintro (h | h) <;> [exact hsize h; omega]), if_neg (by omega)]

/-! ### Shortest numerals -/

theorem onGrid_readsBack {up : Nat → Bool} {x : Binary f} {n : Nat} {d : Decimal}
    (h : onGrid up x n = some d) : readsBack x d = true := by
  unfold onGrid at h
  dsimp only at h
  split at h
  · rename_i hbelow habove
    split_ifs at h <;> cases h
    · exact hbelow
    · exact habove
  · rename_i hbelow _
    cases h
    exact hbelow
  · rename_i _ habove
    cases h
    exact habove
  · cases h

/-- **A finite double is the nearest to the shortest numeral found for it.** -/
theorem nearest_shortest (up : Nat → Bool) {x : Double} (hx : x.isFinite = true) :
    ((shortest up x).nearest x.negative : Double) = x := by
  unfold shortest
  cases hfind : (List.range 17).findSome? fun n => onGrid up x (n + 1) with
  | none => exact nearest_exact hx
  | some d =>
    obtain ⟨n, -, hn⟩ := List.exists_of_findSome?_eq_some hfind
    exact of_decide_eq_true (onGrid_readsBack hn)

end CatalogQuery.Decimal
