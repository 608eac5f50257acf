import CatalogQuery.Proofs.Decimal.Value

/-!
# Rounding keeps order

Rounding to a binary format is monotone (`rankOf_mono`), and so is the size of a number in its rank
(`size_mono`). A number of few bits is rounded to itself (`value_ofRat`), and so it is still a bound
after rounding if it was one before (`within_ofRat`). `Within u x` is this bound of a double: with
it, a computation is followed step by step, and no error has to be estimated.
-/

namespace CatalogQuery

theorem roundEven_mono {x y : ℚ} (h : x ≤ y) : roundEven x ≤ roundEven y := by
  have hfloor : ⌊x⌋₊ ≤ ⌊y⌋₊ := Nat.floor_le_floor h
  rcases hfloor.eq_or_lt with heq | hlt
  · -- both are rounded from the same natural number
    unfold roundEven
    rw [heq]
    split_ifs <;> first | omega | (exfalso; linarith)
  · have hbelow : ⌊y⌋₊ ≤ roundEven y := by
      unfold roundEven
      split_ifs <;> omega
    exact (roundEven_le x).trans (Nat.succ_le_of_lt hlt |>.trans hbelow)

namespace Binary

variable {f : BinaryFormat}

/-- **Rounding is monotone.** -/
theorem rankOf_mono {x y : ℚ} (hx : 0 ≤ x) (h : x ≤ y) : rankOf f x ≤ rankOf f y := by
  rcases hx.eq_or_lt with rfl | hx
  · rw [rankOf, if_pos rfl]
    exact Nat.zero_le _
  have hy : 0 < y := hx.trans_le h
  have hlog : Int.log 2 x ≤ Int.log 2 y := Int.log_mono_right hx h
  by_cases hunit : unitOf f x = unitOf f y
  · have hround : roundEven (x / 2 ^ unitOf f y) ≤ roundEven (y / 2 ^ unitOf f y) :=
      roundEven_mono (by gcongr)
    rw [rankOf, rankOf, if_neg hx.ne', if_neg hy.ne', hunit]
    omega
  · -- the smaller number is below the power of two that the larger one has reached
    have hlower : x < 2 ^ Int.log 2 y := by
      rw [lt_two_zpow_iff hx]
      unfold unitOf at hunit
      omega
    have hupper : 2 ^ f.fractionBits ≤ roundEven (y / 2 ^ unitOf f y) := by
      rw [← roundEven_natCast (2 ^ f.fractionBits)]
      apply roundEven_mono
      rw [le_div_iff₀ (by positivity), Nat.cast_pow, Nat.cast_ofNat, ← zpow_natCast,
        ← zpow_add₀ two_ne_zero, two_zpow_le_iff hy]
      unfold unitOf at hunit ⊢
      omega
    have hle := rankOf_le (f := f) hx hlower
    have hinfinity : rankOf f x ≤ f.infinity := by
      rw [rankOf, if_neg hx.ne']
      exact Nat.min_le_right _ _
    rw [rankOf.eq_def f y, if_neg hy.ne']
    refine Nat.le_min.mpr ⟨hle.trans ?_, hinfinity⟩
    have hstep : (max (Int.log 2 y - 1 - f.fractionBits) f.minExponent - f.minExponent).toNat + 1
        = (unitOf f y - f.minExponent).toNat := by
      unfold unitOf at hunit ⊢
      omega
    rw [← hstep, Nat.add_one_mul, Nat.pow_succ]
    omega

/-! ### Sizes -/

theorem value_eq (x : Binary f) : x.value = if x.negative then -x.size else x.size := by
  unfold value size
  obtain ⟨m, q⟩ := x.significand
  dsimp only
  -- a negative exponent is a denominator
  have hsize : (if 0 ≤ q then ((m * 2 ^ q.toNat : ℕ) : ℚ) else mkRat m (2 ^ (-q).toNat))
      = m * 2 ^ q := by
    split_ifs with hq
    · obtain ⟨k, rfl⟩ := Int.eq_ofNat_of_zero_le hq
      simp
    · obtain ⟨k, rfl⟩ : ∃ k : ℕ, q = -k := ⟨(-q).toNat, by omega⟩
      rw [Rat.mkRat_eq_div]
      simp [div_eq_mul_inv]
  rw [hsize]

theorem size_nonneg (x : Binary f) : 0 ≤ x.size := by
  unfold size
  positivity

/-- The size of a number is told by its rank. -/
theorem size_eq (x : Binary f) : x.size = (x.rank.val % 2 ^ f.fractionBits
      + if x.rank.val / 2 ^ f.fractionBits = 0 then 0 else 2 ^ f.fractionBits : ℕ)
    * 2 ^ (f.minExponent + (x.rank.val / 2 ^ f.fractionBits - 1 : ℕ)) := by
  unfold size significand
  dsimp only
  split_ifs with h <;> simp [h]

/-- **A larger rank has a larger size.** -/
theorem size_mono {x y : Binary f} (h : x.rank.val ≤ y.rank.val) : x.size ≤ y.size := by
  rw [size_eq, size_eq]
  have hdiv := Nat.div_le_div_right (c := 2 ^ f.fractionBits) h
  have hx := Nat.div_add_mod x.rank.val (2 ^ f.fractionBits)
  have hy := Nat.div_add_mod y.rank.val (2 ^ f.fractionBits)
  have hmod := Nat.mod_lt x.rank.val (Nat.two_pow_pos f.fractionBits)
  generalize x.rank.val / 2 ^ f.fractionBits = b at *
  generalize y.rank.val / 2 ^ f.fractionBits = c at *
  rcases hdiv.eq_or_lt with rfl | hlt
  · gcongr
    omega
  · -- the larger number has its leading bit and a unit that is twice as large, at least
    have hlower : ((x.rank.val % 2 ^ f.fractionBits
        + if b = 0 then 0 else 2 ^ f.fractionBits : ℕ) : ℚ) * 2 ^ (f.minExponent + (b - 1 : ℕ))
        ≤ 2 ^ f.fractionBits * 2 ^ (f.minExponent + b) := by
      cases b with
      | zero =>
        simp only [↓reduceIte, Nat.zero_sub, Nat.cast_zero, add_zero]
        gcongr
        exact_mod_cast hmod.le
      | succ b =>
        rw [if_neg (Nat.succ_ne_zero b), Nat.add_sub_cancel, Nat.cast_succ, ← add_assoc,
          zpow_add_one₀ two_ne_zero, ← mul_assoc, mul_right_comm]
        gcongr
        have htwice : x.rank.val % 2 ^ f.fractionBits + 2 ^ f.fractionBits
            ≤ 2 ^ f.fractionBits * 2 := by omega
        exact_mod_cast htwice
    have hupper : ((2 : ℚ) ^ f.fractionBits) * 2 ^ (f.minExponent + (c - 1 : ℕ))
        ≤ (y.rank.val % 2 ^ f.fractionBits + if c = 0 then 0 else 2 ^ f.fractionBits : ℕ)
          * 2 ^ (f.minExponent + (c - 1 : ℕ)) := by
      rw [if_neg (by omega)]
      gcongr
      exact_mod_cast Nat.le_add_left _ _
    refine hlower.trans (le_trans ?_ hupper)
    gcongr
    · exact one_le_two
    · omega

/-! ### Rounded rational numbers -/

theorem ofRat_spec {r : ℚ} (hr : 0 ≤ r) :
    (ofRat r : Binary f).negative = false ∧ (ofRat r : Binary f).rank.val = rankOf f r := by
  have hnum : 0 ≤ r.num := Rat.num_nonneg.mpr hr
  have habs : ((r.num.natAbs : ℕ) : ℚ) = r.num := by
    rw [← Int.cast_natCast, Int.natAbs_of_nonneg hnum]
  refine ⟨decide_eq_false (not_lt.mpr hnum), ?_⟩
  rw [ofRat, Decimal.rank_ofRatio _ _ r.den_pos, habs, Rat.num_div_den]

theorem value_of_nonneg {x : Binary f} (hx : x.negative = false) : x.value = x.size := by
  rw [value_eq, hx]
  rfl

theorem value_ofRat_nonneg {r : ℚ} (hr : 0 ≤ r) : 0 ≤ (ofRat r : Binary f).value := by
  rw [value_of_nonneg (ofRat_spec hr).1]
  exact size_nonneg _

/-! ### Doubles of few bits -/

/-- A significand with its leading bit, or in the smallest unit, is that of a double. -/
theorem exists_double {m k : ℕ} (hm : m < 2 ^ 53) (hk : k ≤ 1075) (hfull : 2 ^ 52 ≤ m ∨ k = 0) :
    ∃ x : Double, x.isFinite = true ∧ x.negative = false ∧ x.size = m * 2 ^ (-1074 + k : ℤ) := by
  -- the exponent counts from the smallest unit on
  have hrank : k * 2 ^ 52 + m < BinaryFormat.double.infinity := by
    have hinfinity : BinaryFormat.double.infinity = 2047 * 2 ^ 52 := by decide
    omega
  have hmin : BinaryFormat.double.minExponent = -1074 := by decide
  have hbits : BinaryFormat.double.fractionBits = 52 := rfl
  refine ⟨⟨false, k * 2 ^ 52 + m, hrank.trans BinaryFormat.double.infinity_lt_ranks⟩,
    decide_eq_true hrank, rfl, ?_⟩
  rw [size_eq]
  dsimp only
  rw [hmin, hbits]
  -- the leading bit is not stored but counts one more in the exponent
  by_cases hbit : 2 ^ 52 ≤ m
  · have hdiv : (k * 2 ^ 52 + m) / 2 ^ 52 = k + 1 := by omega
    have hmod : (k * 2 ^ 52 + m) % 2 ^ 52 = m - 2 ^ 52 := by omega
    rw [hdiv, hmod, if_neg (Nat.succ_ne_zero k), Nat.sub_add_cancel hbit, Nat.add_sub_cancel]
  · obtain rfl : k = 0 := hfull.resolve_left hbit
    have hdiv : (0 * 2 ^ 52 + m) / 2 ^ 52 = 0 := by omega
    have hmod : (0 * 2 ^ 52 + m) % 2 ^ 52 = m := by omega
    rw [hdiv, hmod, if_pos rfl, Nat.add_zero, Nat.zero_sub]

/-- Fifty-three bits fit into a double. By induction on the places by which they can be shifted. -/
theorem exists_dyadic {m : ℕ} {q : ℤ} (hm : m ≤ 2 ^ 53) (hlow : -1074 ≤ q) (hhigh : q ≤ 0) :
    ∃ x : Double, x.isFinite = true ∧ x.negative = false ∧ x.size = m * 2 ^ q := by
  obtain ⟨k, rfl⟩ : ∃ k : ℕ, q = -1074 + k := ⟨(q + 1074).toNat, by omega⟩
  -- `2^53` itself is `2^52` in the next unit
  rcases hm.eq_or_lt with rfl | hlt
  · obtain ⟨x, hfinite, hpositive, hsize⟩ :=
      exists_double (m := 2 ^ 52) (k := k + 1) (by norm_num) (by omega) (.inl le_rfl)
    refine ⟨x, hfinite, hpositive, ?_⟩
    rw [hsize, Nat.cast_succ, ← add_assoc, zpow_add_one₀ two_ne_zero]
    push_cast
    ring
  · clear hm
    induction k generalizing m with
    | zero => exact exists_double hlt (Nat.zero_le _) (.inr rfl)
    | succ k ih =>
      by_cases hbit : 2 ^ 52 ≤ m
      · -- the leading bit is there; otherwise the number is shifted by one place
        exact exists_double hlt (by omega) (.inl hbit)
      · obtain ⟨x, hfinite, hpositive, hsize⟩ :=
          ih (m := 2 * m) (by omega) (by omega) (by omega)
        refine ⟨x, hfinite, hpositive, ?_⟩
        rw [hsize, Nat.cast_succ, ← add_assoc, zpow_add_one₀ two_ne_zero]
        push_cast
        ring

/-- A double from zero up to a rational number. -/
structure Within (u : ℚ) (x : Double) : Prop where
  positive : x.negative = false
  finite : x.isFinite = true
  value_le : x.value ≤ u

/-- **A bound of few bits survives rounding.** -/
theorem within_ofRat {m : ℕ} {q : ℤ} {r : ℚ} (hr : 0 ≤ r) (hm : m ≤ 2 ^ 53) (hlow : -1074 ≤ q)
    (hhigh : q ≤ 0) (h : r ≤ m * 2 ^ q) : Within (m * 2 ^ q) (ofRat r) := by
  obtain ⟨x, hfinite, -, hsize⟩ := exists_dyadic hm hlow hhigh
  obtain ⟨hsign, hrank⟩ := ofRat_spec (f := .double) hr
  have hle : (ofRat r : Double).rank.val ≤ x.rank.val := by
    rw [hrank, ← rankOf_size hfinite, hsize]
    exact rankOf_mono hr h
  refine ⟨hsign, ?_, ?_⟩
  · rw [isFinite, decide_eq_true_eq] at hfinite ⊢
    exact hle.trans_lt hfinite
  · rw [value_of_nonneg hsign, ← hsize]
    exact size_mono hle

namespace Within

variable {x y : Double} {u v : ℚ}

theorem nonneg (h : Within u x) : 0 ≤ x.value := by
  rw [value_of_nonneg h.positive]
  exact x.size_nonneg

theorem mono (h : Within u x) (huv : u ≤ v) : Within v x :=
  ⟨h.positive, h.finite, h.value_le.trans huv⟩

/-- Bounds are added where they have few bits. -/
theorem add {m n : ℕ} {q : ℤ} (hx : Within (m * 2 ^ q) x) (hy : Within (n * 2 ^ q) y)
    (hmn : m + n ≤ 2 ^ 53) (hlow : -1074 ≤ q) (hhigh : q ≤ 0) :
    Within ((m + n : ℕ) * 2 ^ q) (x.add y) := by
  apply within_ofRat (add_nonneg hx.nonneg hy.nonneg) hmn hlow hhigh
  rw [Nat.cast_add, add_mul]
  exact add_le_add hx.value_le hy.value_le

end Within

/-- **A number of few bits is rounded to itself.** -/
theorem value_ofRat {m : ℕ} {q : ℤ} (hm : m ≤ 2 ^ 53) (hlow : -1074 ≤ q) (hhigh : q ≤ 0) :
    (ofRat (m * 2 ^ q) : Double).value = m * 2 ^ q := by
  obtain ⟨x, hfinite, hpositive, hsize⟩ := exists_dyadic hm hlow hhigh
  obtain ⟨hsign, hrank⟩ := ofRat_spec (f := .double) (hsize ▸ x.size_nonneg)
  have hsame : ofRat (m * 2 ^ q) = x := by
    refine Decimal.binary_ext (hsign.trans hpositive.symm) ?_
    rw [hrank, ← rankOf_size hfinite, hsize]
  rw [hsame, value_of_nonneg hpositive, hsize]

/-- A double between a half and one has fifty-three bits behind the point. -/
theorem exists_bits {x : Double} (hx : x.Within 1) (hhalf : 1 / 2 ≤ x.value) :
    ∃ m : ℕ, m ≤ 2 ^ 53 ∧ x.value = m * 2 ^ (-53 : ℤ) := by
  obtain ⟨hpositive, hfinite, hone⟩ := hx
  obtain ⟨hm, -, -⟩ := Decimal.significand_bounds hfinite
  rw [value_of_nonneg hpositive, size] at hone hhalf ⊢
  generalize x.significand.1 = m at *
  generalize x.significand.2 = q at *
  by_cases hq : -53 ≤ q
  · obtain ⟨k, rfl⟩ : ∃ k : ℕ, q = k + -53 := ⟨(q + 53).toNat, by omega⟩
    rw [zpow_add₀ two_ne_zero, ← mul_assoc, zpow_natCast] at hone ⊢
    refine ⟨m * 2 ^ k, ?_, by rw [Nat.cast_mul, Nat.cast_pow, Nat.cast_ofNat]⟩
    rw [zpow_neg, ← div_eq_mul_inv, div_le_one (by positivity)] at hone
    exact_mod_cast hone
  · -- a smaller unit does not reach a half
    have hunit : (2 : ℚ) ^ q ≤ 2 ^ (-54 : ℤ) := zpow_le_zpow_right₀ one_le_two (by omega)
    have hlt : (m : ℚ) * 2 ^ q < 2 ^ 53 * 2 ^ (-54 : ℤ) :=
      mul_lt_mul_of_lt_of_le_of_nonneg_of_pos (by exact_mod_cast hm) hunit (by positivity)
        (by positivity)
    norm_num at hlt
    linarith

/-! ### The order of numbers -/

section Order

variable {x y : Binary f}

theorem lt_of_number (hx : x.isNaN = false) (hy : y.isNaN = false) :
    Binary.lt x y = decide (x.signedRank < y.signedRank) := by
  rw [Binary.lt, hx, hy]
  rfl

theorem signedRank_of_positive (hx : x.negative = false) : x.signedRank = x.rank.val := by
  rw [signedRank, hx]
  rfl

/-- A positive number is determined by its rank. -/
theorem eq_of_signedRank_eq (hy : 0 < y.signedRank) (h : x.signedRank = y.signedRank) : x = y := by
  have hpositive : ∀ z : Binary f, 0 < z.signedRank → z.negative = false := by
    intro z hz
    cases hsign : z.negative with
    | false => rfl
    | true =>
      rw [signedRank, hsign, if_pos rfl] at hz
      omega
  have hx := hpositive x (h ▸ hy)
  have hy := hpositive y hy
  rw [signedRank_of_positive hx, signedRank_of_positive hy] at h
  exact Decimal.binary_ext (hx.trans hy.symm) (by omega)

theorem isNaN_of_isFinite (hx : x.isFinite = true) : x.isNaN = false := by
  rw [isFinite, decide_eq_true_eq] at hx
  rw [isNaN, decide_eq_false_iff_not]
  omega

end Order

/-- What is within the value of a number is not above the number. -/
theorem Within.lt_eq_false {x y : Double} (h : Within x.value y) (hx : x.negative = false)
    (hfinite : x.isFinite = true) : Binary.lt x y = false := by
  have hrank : y.rank.val ≤ x.rank.val := by
    rw [← rankOf_size h.finite, ← rankOf_size hfinite]
    refine rankOf_mono y.size_nonneg ?_
    rw [← value_of_nonneg hx, ← value_of_nonneg h.positive]
    exact h.value_le
  rw [lt_of_number (isNaN_of_isFinite hfinite) (isNaN_of_isFinite h.finite),
    signedRank_of_positive hx, signedRank_of_positive h.positive]
  simpa using hrank

end Binary

end CatalogQuery
