import CatalogQuery.Decimal.Binary
import Mathlib.Algebra.Order.Field.Power
import Mathlib.Algebra.Order.Floor.Semifield
import Mathlib.Data.Int.Log
import Mathlib.Data.Rat.Floor
import Mathlib.Tactic.FieldSimp
import Mathlib.Tactic.Linarith
import Mathlib.Tactic.NormNum
import Mathlib.Tactic.Positivity
import Mathlib.Tactic.Ring

/-!
# Rounding as a function of the value

`Binary.nearestRank f num den` works on the two numbers of a quotient. `nearestRank_eq` says that it
only depends on the quotient: it is `rankOf f (num / den)`, which is stated with the floor and the
logarithm of a rational number.

From this, a number of the format is rounded to itself (`rankOf_significand`), and integers of
sixty-four bits are finite as doubles (`isFinite_ofInt`).
-/

namespace CatalogQuery

/-! ### Halves to even -/

/-- A rational number to the nearest natural number, a half going to the even neighbour. -/
def roundEven (y : ℚ) : ℕ :=
  if y - ⌊y⌋₊ < 1 / 2 then ⌊y⌋₊
  else if 1 / 2 < y - ⌊y⌋₊ then ⌊y⌋₊ + 1
  else ⌊y⌋₊ + ⌊y⌋₊ % 2

theorem roundHalfEven_eq (num : ℕ) {den : ℕ} (hden : 0 < den) :
    roundHalfEven num den = roundEven (num / den) := by
  have hd : (0 : ℚ) < den := by exact_mod_cast hden
  have hfloor : ⌊(num : ℚ) / den⌋₊ = num / den := Nat.floor_div_eq_div num den
  -- the fractional part is the remainder over the denominator
  have hfrac : (num : ℚ) / den - (num / den : ℕ) = (num % den : ℕ) / den := by
    have h : (num : ℚ) = den * (num / den : ℕ) + (num % den : ℕ) := by
      exact_mod_cast (Nat.div_add_mod num den).symm
    rw [eq_div_iff hd.ne', sub_mul, div_mul_cancel₀ _ hd.ne']
    linarith
  have hlow : ((num % den : ℕ) : ℚ) / den < 1 / 2 ↔ 2 * (num % den) < den := by
    rw [div_lt_div_iff₀ hd two_pos, one_mul, mul_comm]
    exact_mod_cast Iff.rfl
  have hhigh : (1 : ℚ) / 2 < ((num % den : ℕ) : ℚ) / den ↔ den < 2 * (num % den) := by
    rw [div_lt_div_iff₀ two_pos hd, one_mul, mul_comm _ (2 : ℚ)]
    exact_mod_cast Iff.rfl
  unfold roundHalfEven roundEven
  simp only [hfloor, hfrac, hlow, hhigh]

@[simp] theorem roundEven_natCast (n : ℕ) : roundEven n = n := by
  simp [roundEven]

/-- Rounding goes up to the next natural number at most. -/
theorem roundEven_le (y : ℚ) : roundEven y ≤ ⌊y⌋₊ + 1 := by
  unfold roundEven
  split_ifs <;> omega

/-! ### Units -/

theorem inUnits_spec (num : ℕ) {den : ℕ} (hden : 0 < den) (q : ℤ) :
    0 < (inUnits num den q).2 ∧
      ((inUnits num den q).1 : ℚ) / (inUnits num den q).2 = num / den / 2 ^ q := by
  unfold inUnits
  split_ifs with hq
  · -- large units go into the denominator, small ones into the numerator
    obtain ⟨k, rfl⟩ := Int.eq_ofNat_of_zero_le hq
    refine ⟨by positivity, ?_⟩
    simp [div_div]
  · obtain ⟨k, rfl⟩ : ∃ k : ℕ, q = -k := ⟨(-q).toNat, by omega⟩
    refine ⟨hden, ?_⟩
    simp only [neg_neg, Int.toNat_natCast, zpow_neg, zpow_natCast]
    push_cast
    field_simp

namespace Binary

variable {f : BinaryFormat}

theorem two_zpow_le_iff {x : ℚ} (hx : 0 < x) (k : ℤ) : (2 : ℚ) ^ k ≤ x ↔ k ≤ Int.log 2 x := by
  rw [← Int.zpow_le_iff_le_log one_lt_two hx, Nat.cast_ofNat]

theorem lt_two_zpow_iff {x : ℚ} (hx : 0 < x) (k : ℤ) : x < (2 : ℚ) ^ k ↔ Int.log 2 x < k := by
  rw [← Int.lt_zpow_iff_log_lt one_lt_two hx, Nat.cast_ofNat]

/-- The logarithm of a quotient is that of its parts, or one less. -/
theorem log_div {num den : ℕ} (hnum : 0 < num) (hden : 0 < den) :
    Int.log 2 ((num : ℚ) / den) = num.log2 - den.log2 - 1 ∨
      Int.log 2 ((num : ℚ) / den) = num.log2 - den.log2 := by
  have hd : (0 : ℚ) < den := by exact_mod_cast hden
  have hx : (0 : ℚ) < num / den := by positivity
  have hn1 : (2 : ℚ) ^ (num.log2 : ℤ) ≤ num := by exact_mod_cast Nat.log2_self_le hnum.ne'
  have hn2 : (num : ℚ) < 2 ^ (num.log2 + 1 : ℤ) := by
    exact_mod_cast Nat.lt_log2_self (n := num)
  have hd1 : (2 : ℚ) ^ (den.log2 : ℤ) ≤ den := by exact_mod_cast Nat.log2_self_le hden.ne'
  have hd2 : (den : ℚ) < 2 ^ (den.log2 + 1 : ℤ) := by
    exact_mod_cast Nat.lt_log2_self (n := den)
  -- both parts are between two powers of two that follow each other
  have hlower : (2 : ℚ) ^ (num.log2 - den.log2 - 1 : ℤ) ≤ num / den := by
    rw [le_div_iff₀ hd]
    calc (2 : ℚ) ^ (num.log2 - den.log2 - 1 : ℤ) * den
        ≤ 2 ^ (num.log2 - den.log2 - 1 : ℤ) * 2 ^ (den.log2 + 1 : ℤ) := by gcongr
      _ = 2 ^ (num.log2 : ℤ) := by
          rw [← zpow_add₀ two_ne_zero]
          congr 1
          ring
      _ ≤ num := hn1
  have hupper : (num : ℚ) / den < 2 ^ (num.log2 - den.log2 + 1 : ℤ) := by
    rw [div_lt_iff₀ hd]
    calc (num : ℚ) < 2 ^ (num.log2 + 1 : ℤ) := hn2
      _ = 2 ^ (num.log2 - den.log2 + 1 : ℤ) * 2 ^ (den.log2 : ℤ) := by
          rw [← zpow_add₀ two_ne_zero]
          congr 1
          ring
      _ ≤ 2 ^ (num.log2 - den.log2 + 1 : ℤ) * den := by gcongr
  rw [two_zpow_le_iff hx] at hlower
  rw [lt_two_zpow_iff hx] at hupper
  omega

/-- The unit in the last place depends on the quotient only. -/
theorem unitExponent_eq {num den : ℕ} (hnum : 0 < num) (hden : 0 < den) :
    unitExponent f num den = max (Int.log 2 ((num : ℚ) / den) - f.fractionBits) f.minExponent := by
  have hx : (0 : ℚ) < num / den := by positivity
  obtain ⟨hpos, hvalue⟩ := inUnits_spec num hden (num.log2 - den.log2 - f.fractionBits)
  unfold unitExponent
  generalize hu : inUnits num den (num.log2 - den.log2 - f.fractionBits) = u at hpos hvalue
  obtain ⟨n, d⟩ := u
  dsimp only at hpos hvalue ⊢
  rw [hu]
  dsimp only
  -- the first guess is one too high if the quotient has a digit less
  have hcmp : n < d * 2 ^ f.fractionBits ↔ Int.log 2 ((num : ℚ) / den) < num.log2 - den.log2 := by
    have hd : (0 : ℚ) < d := by exact_mod_cast hpos
    rw [← lt_two_zpow_iff hx]
    calc n < d * 2 ^ f.fractionBits ↔ (n : ℚ) / d < 2 ^ f.fractionBits := by
          rw [div_lt_iff₀ hd, mul_comm]
          exact_mod_cast Iff.rfl
      _ ↔ (num : ℚ) / den < 2 ^ (num.log2 - den.log2 : ℤ) := by
          rw [hvalue, div_lt_iff₀ (zpow_pos two_pos _), ← zpow_natCast, ← zpow_add₀ two_ne_zero,
            add_sub_cancel]
  rcases log_div hnum hden with h | h <;> rw [h] at hcmp ⊢
  · rw [if_pos (hcmp.mpr (by omega))]
    congr 1
    ring
  · rw [if_neg fun hlt => lt_irrefl _ (hcmp.mp hlt)]

/-! ### The rank of a value -/

/-- The exponent of the unit in the last place of a positive number. -/
def unitOf (f : BinaryFormat) (x : ℚ) : ℤ := max (Int.log 2 x - f.fractionBits) f.minExponent

/-- The rank nearest to a non-negative number, not above that of infinity. -/
def rankOf (f : BinaryFormat) (x : ℚ) : ℕ :=
  if x = 0 then 0
  else min ((unitOf f x - f.minExponent).toNat * 2 ^ f.fractionBits
    + roundEven (x / 2 ^ unitOf f x)) f.infinity

/-- **Rounding depends on the value only.** -/
theorem nearestRank_eq (num : ℕ) {den : ℕ} (hden : 0 < den) :
    nearestRank f num den = rankOf f (num / den) := by
  have hd : (den : ℚ) ≠ 0 := by exact_mod_cast hden.ne'
  by_cases hnum : num = 0
  · simp [nearestRank, rankOf, hnum]
  · have hx : (num : ℚ) / den ≠ 0 := div_ne_zero (by exact_mod_cast hnum) hd
    obtain ⟨hpos, hvalue⟩ := inUnits_spec num hden (unitExponent f num den)
    unfold nearestRank rankOf
    rw [if_neg hnum, if_neg hx]
    dsimp only
    rw [roundHalfEven_eq _ hpos, hvalue, unitExponent_eq (by omega) hden]
    rfl

/-! ### Numbers of the format -/

/-- A number whose digits fit is counted in its own unit. -/
theorem unitOf_mul {m : ℕ} {q : ℤ} (hm : 0 < m) (hfit : m < 2 ^ (f.fractionBits + 1))
    (hq : f.minExponent ≤ q) (hfull : 2 ^ f.fractionBits ≤ m ∨ q = f.minExponent) :
    unitOf f (m * 2 ^ q) = q := by
  have hx : (0 : ℚ) < m * 2 ^ q := by positivity
  have hupper : Int.log 2 ((m : ℚ) * 2 ^ q) < f.fractionBits + 1 + q := by
    rw [← lt_two_zpow_iff hx, zpow_add₀ two_ne_zero]
    gcongr
    exact_mod_cast hfit
  unfold unitOf
  -- all digits are there, or the unit is the smallest one
  rcases hfull with hfull | rfl
  · have hlower : f.fractionBits + q ≤ Int.log 2 ((m : ℚ) * 2 ^ q) := by
      rw [← two_zpow_le_iff hx, zpow_add₀ two_ne_zero]
      gcongr
      exact_mod_cast hfull
    omega
  · omega

theorem rankOf_mul {m : ℕ} {q : ℤ} (hm : 0 < m) (hfit : m < 2 ^ (f.fractionBits + 1))
    (hq : f.minExponent ≤ q) (hfull : 2 ^ f.fractionBits ≤ m ∨ q = f.minExponent) :
    rankOf f (m * 2 ^ q) = min ((q - f.minExponent).toNat * 2 ^ f.fractionBits + m) f.infinity := by
  have hx : (m : ℚ) * 2 ^ q ≠ 0 := by positivity
  rw [rankOf, if_neg hx, unitOf_mul hm hfit hq hfull, mul_div_cancel_right₀ _ (by positivity),
    roundEven_natCast]

/-- The size of a finite number as a rational number. -/
def size (x : Binary f) : ℚ := x.significand.1 * 2 ^ x.significand.2

/-- **A finite number is rounded to itself.** -/
theorem rankOf_size {x : Binary f} (hx : x.isFinite = true) : rankOf f x.size = x.rank.val := by
  have hlt : x.rank.val < f.infinity := by simpa [isFinite] using hx
  have hdiv := Nat.div_add_mod x.rank.val (2 ^ f.fractionBits)
  have hmod := Nat.mod_lt x.rank.val (Nat.two_pow_pos f.fractionBits)
  unfold size significand
  dsimp only
  split_ifs with hbiased
  · rw [hbiased, Nat.mul_zero, Nat.zero_add] at hdiv
    rw [hdiv] at hmod ⊢
    -- in the smallest unit the rank is the significand
    by_cases hzero : x.rank.val = 0
    · rw [hzero, rankOf, if_pos (by simp)]
    · rw [rankOf_mul (by omega) (by omega) le_rfl (.inr rfl)]
      simp only [sub_self, Int.toNat_zero, Nat.zero_mul, Nat.zero_add]
      omega
  · rw [rankOf_mul (by omega) (by omega) (by omega) (.inl (by omega)), add_sub_cancel_left,
      Int.toNat_natCast]
    -- otherwise the leading bit is not stored
    have hrank : (x.rank.val / 2 ^ f.fractionBits - 1) * 2 ^ f.fractionBits
        + (x.rank.val % 2 ^ f.fractionBits + 2 ^ f.fractionBits) = x.rank.val := by
      obtain ⟨k, hk⟩ := Nat.exists_eq_add_one_of_ne_zero hbiased
      rw [hk, Nat.mul_add_one] at hdiv
      rw [hk, Nat.add_sub_cancel, Nat.mul_comm]
      omega
    omega

/-! ### Integers -/

/-- An upper bound of the rank of a number below a power of two. -/
theorem rankOf_le {x : ℚ} (hx : 0 < x) {k : ℤ} (hk : x < 2 ^ k) :
    rankOf f x ≤ (max (k - 1 - f.fractionBits) f.minExponent - f.minExponent).toNat
      * 2 ^ f.fractionBits + 2 ^ (f.fractionBits + 1) := by
  have hlog : Int.log 2 x < k := (lt_two_zpow_iff hx k).mp hk
  have hunit : unitOf f x ≤ max (k - 1 - f.fractionBits) f.minExponent := by
    unfold unitOf
    omega
  -- the significand has no more bits than there is room for
  have hround : roundEven (x / 2 ^ unitOf f x) ≤ 2 ^ (f.fractionBits + 1) := by
    refine (roundEven_le _).trans (Nat.succ_le_of_lt ((Nat.floor_lt (by positivity)).mpr ?_))
    rw [div_lt_iff₀ (by positivity), Nat.cast_pow, Nat.cast_ofNat, ← zpow_natCast,
      ← zpow_add₀ two_ne_zero, lt_two_zpow_iff hx]
    unfold unitOf
    push_cast
    omega
  rw [rankOf, if_neg hx.ne']
  refine (Nat.min_le_left _ _).trans (Nat.add_le_add (Nat.mul_le_mul_right _ ?_) hround)
  omega

theorem rank_ofInt (n : ℤ) : (ofInt n : Binary f).rank.val = rankOf f n.natAbs := by
  show nearestRank f n.natAbs 1 = _
  rw [nearestRank_eq _ one_pos, Nat.cast_one, div_one]

/-- **Integers of sixty-four bits are finite as doubles.** -/
theorem isFinite_ofInt (n : Int64) : (ofInt n.toInt : Double).isFinite = true := by
  -- far below the greatest power of two
  have hn : n.toInt.natAbs ≤ 2 ^ 63 := by
    have hlow := n.le_toInt
    have hhigh := n.toInt_lt
    omega
  rw [isFinite, rank_ofInt, decide_eq_true_eq]
  by_cases hzero : n.toInt.natAbs = 0
  · rw [hzero, rankOf, if_pos Nat.cast_zero]
    decide
  · have hx : (0 : ℚ) < n.toInt.natAbs := by exact_mod_cast Nat.pos_of_ne_zero hzero
    have hk : (n.toInt.natAbs : ℚ) < 2 ^ (64 : ℤ) := by
      exact_mod_cast lt_of_le_of_lt hn (by norm_num)
    exact lt_of_le_of_lt (rankOf_le hx hk) (by decide)

end Binary

end CatalogQuery
