import CatalogQuery.Similarity.Choices
import CatalogQuery.Proofs.Decimal.Monotone
import Mathlib.Data.List.Perm.Basic

/-!
# Jaro–Winkler similarity tells texts apart

The score of two texts is a number up to one, and a text has the score one with itself. Texts of
fewer than `2 ^ 40` characters that differ do not have it, in spite of rounding
(`jaroWinkler_eq_one_iff`): if all characters of both are picked, two at least stand in other
places, so that one of the three shares leaves a gap of `2 ^ -40`. The mean of the shares is
followed with bounds of few bits, which rounding keeps, and raising it for a common prefix leaves
half of the gap at least.

So the score is a measure of similarity (`IsMeasure`) for choices of that length.
-/

namespace CatalogQuery.Similarity

open Binary (Within)

/-! ### Picking -/

/-- The characters of the cells that have been picked, in the order of the cells. -/
def pickedChars (cells : List Cell) : List Char := (cells.filter Cell.picked).map Cell.char

theorem pickedChars_append (cells cells' : List Cell) :
    pickedChars (cells ++ cells') = pickedChars cells ++ pickedChars cells' := by
  simp [pickedChars]

/-- A free cell with the character has been picked. -/
def Taken (c : Char) (cells cells' : List Cell) : Prop :=
  ∃ before after, cells = before ++ ⟨c, false⟩ :: after ∧ cells' = before ++ ⟨c, true⟩ :: after

theorem Taken.cons {c : Char} {cells cells' : List Cell} (h : Taken c cells cells') (cell : Cell) :
    Taken c (cell :: cells) (cell :: cells') := by
  obtain ⟨before, after, rfl, rfl⟩ := h
  exact ⟨cell :: before, after, rfl, rfl⟩

theorem Taken.map_char {c : Char} {cells cells' : List Cell} (h : Taken c cells cells') :
    cells'.map Cell.char = cells.map Cell.char := by
  obtain ⟨before, after, rfl, rfl⟩ := h
  simp

theorem Taken.pickedChars_perm {c : Char} {cells cells' : List Cell} (h : Taken c cells cells') :
    (pickedChars cells').Perm (c :: pickedChars cells) := by
  obtain ⟨before, after, rfl, rfl⟩ := h
  rw [pickedChars_append, pickedChars_append]
  exact List.perm_middle

theorem pick_taken {c : Char} {skip span : Nat} {cells cells' : List Cell}
    (h : pick c skip span cells = some cells') : Taken c cells cells' := by
  fun_induction pick c skip span cells generalizing cells' with
  | case1 => cases h
  | case2 skip span cell rest ih =>
    obtain ⟨r, hr, rfl⟩ := Option.map_eq_some_iff.mp h
    exact (ih hr).cons cell
  | case3 => cases h
  | case4 span cell rest hcell =>
    -- the first free cell of the window that holds the character
    obtain ⟨char, picked⟩ := cell
    obtain ⟨rfl, rfl⟩ := hcell
    exact ⟨[], rest, rfl, (Option.some.inj h).symm⟩
  | case5 span cell rest hcell ih =>
    obtain ⟨r, hr, rfl⟩ := Option.map_eq_some_iff.mp h
    exact (ih hr).cons cell

/-- What is found is part of the text that looks for it, and is what is picked in addition. -/
theorem pickAll_spec (range i : Nat) (cs : List Char) (cells : List Cell) :
    (pickAll range i cs cells).1.Sublist cs ∧
      (pickAll range i cs cells).2.map Cell.char = cells.map Cell.char ∧
      (pickedChars (pickAll range i cs cells).2).Perm
        (pickedChars cells ++ (pickAll range i cs cells).1) := by
  induction cs generalizing i cells with
  | nil => simp [pickAll]
  | cons c cs ih =>
    rw [pickAll]
    cases hpick : pick c (i - range) (i + range + 1 - (i - range)) cells with
    | none =>
      -- the character finds nothing
      obtain ⟨hfound, hchars, hpicked⟩ := ih (i + 1) cells
      exact ⟨hfound.cons c, hchars, hpicked⟩
    | some cells' =>
      -- it picks one cell, and the others look for theirs among the rest
      have htaken := pick_taken hpick
      obtain ⟨hfound, hchars, hpicked⟩ := ih (i + 1) cells'
      refine ⟨hfound.cons_cons c, hchars.trans htaken.map_char, hpicked.trans ?_⟩
      exact (htaken.pickedChars_perm.append_right _).trans List.perm_middle.symm

/-- A cell is picked at its place if those in front of it are no longer free. -/
theorem pick_place {c : Char} {skip span : Nat} {before : List Char} {after : List Cell}
    (hskip : skip ≤ before.length) (hspan : before.length < skip + span) :
    pick c skip span (before.map (⟨·, true⟩) ++ ⟨c, false⟩ :: after)
      = some ((before ++ [c]).map (⟨·, true⟩) ++ after) := by
  induction before generalizing skip span with
  | nil =>
    obtain rfl : skip = 0 := by simpa using hskip
    obtain ⟨span, rfl⟩ : ∃ n, span = n + 1 := ⟨span - 1, by simp at hspan; omega⟩
    simp [pick]
  | cons b before ih =>
    rw [List.length_cons] at hskip hspan
    cases skip with
    | succ skip =>
      rw [List.map_cons, List.cons_append, pick, ih (by omega) (by omega)]
      rfl
    | zero =>
      -- the window has been reached, and its first cells are taken
      obtain ⟨span, rfl⟩ : ∃ n, span = n + 1 := ⟨span - 1, by omega⟩
      rw [List.map_cons, List.cons_append, pick, if_neg (by simp), ih (by omega) (by omega)]
      rfl

/-- A text picks all of itself, each character at its place. -/
theorem pickAll_self (range : Nat) (before cs : List Char) :
    pickAll range before.length cs (before.map (⟨·, true⟩) ++ cs.map (⟨·, false⟩))
      = (cs, (before ++ cs).map (⟨·, true⟩)) := by
  induction cs generalizing before with
  | nil => simp [pickAll]
  | cons c cs ih =>
    -- the window of a place holds the place itself, whatever the range
    have hpick : pick c (before.length - range)
        (before.length + range + 1 - (before.length - range))
        (before.map (⟨·, true⟩) ++ ⟨c, false⟩ :: cs.map (⟨·, false⟩))
        = some ((before ++ [c]).map (⟨·, true⟩) ++ cs.map (⟨·, false⟩)) :=
      pick_place (by omega) (by omega)
    have hrest := ih (before ++ [c])
    rw [List.length_append, List.length_singleton, List.append_assoc] at hrest
    rw [pickAll, List.map_cons]
    dsimp only
    rw [hpick]
    dsimp only
    rw [hrest]
    rfl

/-! ### Transpositions -/

/-- The pairs of different characters in the same place. -/
def mismatches (as bs : List Char) : List (Char × Char) := (as.zip bs).filter fun (x, y) => x != y

theorem mismatches_cons_self (a : Char) (as bs : List Char) :
    mismatches (a :: as) (a :: bs) = mismatches as bs := by
  simp [mismatches]

theorem mismatches_cons_of_ne {a b : Char} (h : a ≠ b) (as bs : List Char) :
    mismatches (a :: as) (b :: bs) = (a, b) :: mismatches as bs := by
  simp [mismatches, h]

theorem mismatches_self (as : List Char) : mismatches as as = [] := by
  induction as with
  | nil => rfl
  | cons a as ih => rw [mismatches_cons_self, ih]

theorem eq_of_mismatches_eq_nil {as bs : List Char} (hlength : as.length = bs.length)
    (h : mismatches as bs = []) : as = bs := by
  induction as generalizing bs with
  | nil => exact (List.length_eq_zero_iff.mp hlength.symm).symm
  | cons a as ih =>
    cases bs with
    | nil => cases hlength
    | cons b bs =>
      by_cases hab : a = b
      · subst hab
        rw [mismatches_cons_self] at h
        rw [ih (Nat.succ.inj hlength) h]
      · -- a mismatch is listed
        rw [mismatches_cons_of_ne hab] at h
        cases h

/-- Texts with the same characters do not differ in one place only. -/
theorem eq_of_perm_of_mismatches {as bs : List Char} (hperm : as.Perm bs)
    (h : (mismatches as bs).length < 2) : as = bs := by
  induction as generalizing bs with
  | nil => exact hperm.nil_eq
  | cons a as ih =>
    cases bs with
    | nil => cases hperm.eq_nil
    | cons b bs =>
      by_cases hab : a = b
      · subst hab
        rw [mismatches_cons_self] at h
        rw [ih hperm.cons_inv h]
      · -- the rest does not differ, so that the first characters cannot
        rw [mismatches_cons_of_ne hab, List.length_cons] at h
        have hnone : mismatches as bs = [] := List.length_eq_zero_iff.mp (by omega)
        obtain rfl := eq_of_mismatches_eq_nil (by simpa using hperm.length_eq) hnone
        exact absurd (List.singleton_perm_singleton.mp ((List.perm_append_right_iff as).mp hperm)) hab

/-! ### Numbers -/

theorem ofNat_eq (n : ℕ) : ofNat n = Binary.ofRat n := by
  rw [ofNat, Binary.ofInt, Binary.ofRat, Rat.num_natCast, Rat.den_natCast]

theorem value_ofNat {n : ℕ} (hn : n ≤ 2 ^ 53) : (ofNat n).value = n := by
  have h := Binary.value_ofRat hn (q := 0) (by norm_num) le_rfl
  rwa [zpow_zero, mul_one, ← ofNat_eq] at h

theorem ofNat_within {n : ℕ} (hn : n ≤ 2 ^ 53) : (ofNat n).Within n := by
  have h := Binary.within_ofRat (r := n) (q := 0) (by positivity) hn (by norm_num) le_rfl (by simp)
  rwa [zpow_zero, mul_one, ← ofNat_eq] at h

theorem value_ofNat_nonneg (n : ℕ) : 0 ≤ (ofNat n).value := by
  rw [ofNat_eq]
  exact Binary.value_ofRat_nonneg (by positivity)

theorem value_ofNat_mono {k n : ℕ} (h : k ≤ n) : (ofNat k).value ≤ (ofNat n).value := by
  obtain ⟨hk, hkrank⟩ := Binary.ofRat_spec (f := .double) (r := k) (by positivity)
  obtain ⟨hn, hnrank⟩ := Binary.ofRat_spec (f := .double) (r := n) (by positivity)
  rw [ofNat_eq, ofNat_eq, Binary.value_of_nonneg hk, Binary.value_of_nonneg hn]
  apply Binary.size_mono
  rw [hkrank, hnrank]
  exact Binary.rankOf_mono (by positivity) (by exact_mod_cast h)

theorem value_ofNat_pos {n : ℕ} (hn : 0 < n) : 0 < (ofNat n).value := by
  refine lt_of_lt_of_le ?_ (value_ofNat_mono (Nat.succ_le_of_lt hn))
  rw [value_ofNat (by norm_num)]
  norm_num

/-- A share, as a double. -/
def share (k n : ℕ) : Double := (ofNat k).div (ofNat n)

theorem share_within_one {k n : ℕ} (h : k ≤ n) : (share k n).Within ((2 ^ 40 : ℕ) * 2 ^ (-40 : ℤ)) := by
  apply Binary.within_ofRat (div_nonneg (value_ofNat_nonneg k) (value_ofNat_nonneg n)) (by norm_num)
    (by norm_num) (by norm_num)
  refine (div_le_one_of_le₀ (value_ofNat_mono h) (value_ofNat_nonneg n)).trans_eq ?_
  norm_num

/-- A share of less than all leaves a gap. -/
theorem share_within {k n : ℕ} (h : k < n) (hn : n < 2 ^ 40) :
    (share k n).Within ((2 ^ 40 - 1 : ℕ) * 2 ^ (-40 : ℤ)) := by
  apply Binary.within_ofRat (div_nonneg (value_ofNat_nonneg k) (value_ofNat_nonneg n)) (by norm_num)
    (by norm_num) (by norm_num)
  rw [value_ofNat (by omega), value_ofNat (by omega),
    div_le_iff₀ (by exact_mod_cast Nat.zero_lt_of_lt h), zpow_neg, ← div_eq_mul_inv,
    div_mul_eq_mul_div, le_div_iff₀ (by positivity)]
  have hgap : k * 2 ^ 40 ≤ (2 ^ 40 - 1) * n := by omega
  exact_mod_cast hgap

theorem share_self {n : ℕ} (hn : 0 < n) : share n n = ofNat 1 := by
  have hone : (ofNat n).value / (ofNat n).value = 1 := div_self (value_ofNat_pos hn).ne'
  rw [share, Binary.div, hone, ofNat_eq, Nat.cast_one]

/-- The mean of three shares. -/
def mean (s₁ s₂ s₃ : Double) : Double := ((s₁.add s₂).add s₃).div (ofNat 3)

theorem mean_within {s₁ s₂ s₃ : Double} {n₁ n₂ n₃ m : ℕ} (h₁ : s₁.Within (n₁ * 2 ^ (-40 : ℤ)))
    (h₂ : s₂.Within (n₂ * 2 ^ (-40 : ℤ))) (h₃ : s₃.Within (n₃ * 2 ^ (-40 : ℤ)))
    (hm : 4 * (n₁ + n₂ + n₃) ≤ 3 * m) (hm' : m ≤ 2 ^ 42) :
    (mean s₁ s₂ s₃).Within (m * 2 ^ (-42 : ℤ)) := by
  -- the sum, and then the quotient, are rounded
  have hsum := (h₁.add h₂ (by omega) (by norm_num) (by norm_num)).add h₃ (by omega) (by norm_num)
    (by norm_num)
  have hthree : (ofNat 3).value = 3 := value_ofNat (by norm_num)
  apply Binary.within_ofRat (div_nonneg hsum.nonneg (value_ofNat_nonneg 3)) (by omega)
    (by norm_num) (by norm_num)
  rw [hthree, div_le_iff₀ three_pos]
  refine hsum.value_le.trans ?_
  have hm : (4 : ℚ) * (n₁ + n₂ + n₃ : ℕ) ≤ 3 * m := by exact_mod_cast hm
  norm_num
  push_cast at hm
  linarith

/-! ### Raising a score -/

theorem commonPrefix_le (limit : ℕ) (a b : List Char) : commonPrefix limit a b ≤ limit := by
  fun_induction commonPrefix limit a b with
  | case1 limit x xs ys ih => exact Nat.succ_le_succ ih
  | case2 => exact Nat.zero_le _
  | case3 => exact Nat.zero_le _

/-- The weight of a common prefix. -/
def weight (n : ℕ) : Double := (Binary.ofRatio false 1 10 : Double).mul (ofNat n)

theorem tenth_within : (Binary.ofRatio false 1 10 : Double).Within ((1 : ℕ) * 2 ^ (-3 : ℤ)) := by
  have htenth : (Binary.ofRatio false 1 10 : Double) = Binary.ofRat (1 / 10) := by decide +kernel
  rw [htenth]
  exact Binary.within_ofRat (by norm_num) (by norm_num) (by norm_num) (by norm_num) (by norm_num)

theorem weight_within {n : ℕ} (hn : n ≤ 4) : (weight n).Within ((1 : ℕ) * 2 ^ (-1 : ℤ)) := by
  apply Binary.within_ofRat (mul_nonneg tenth_within.nonneg (value_ofNat_nonneg n)) (by norm_num)
    (by norm_num) (by norm_num)
  rw [value_ofNat (by omega)]
  have htenth := tenth_within.value_le
  have hn : (n : ℚ) ≤ 4 := by exact_mod_cast hn
  calc _ ≤ ((1 : ℕ) * 2 ^ (-3 : ℤ) : ℚ) * 4 := by
        apply mul_le_mul htenth hn (by positivity) (by positivity)
    _ = _ := by norm_num

/-- A score that is raised goes at most half of the way to one: what is left is exact, and so is its
half. -/
theorem raised_within {x w : Double} {m : ℕ} (hx : x.Within (m * 2 ^ (-42 : ℤ))) (hm : m ≤ 2 ^ 42)
    (hhalf : 1 / 2 ≤ x.value) (hw : w.Within ((1 : ℕ) * 2 ^ (-1 : ℤ))) :
    (x.add (w.mul ((ofNat 1).sub x))).Within ((2 ^ 42 + m : ℕ) * 2 ^ (-43 : ℤ)) := by
  have hone : x.Within 1 := hx.mono (by
    rw [zpow_neg, ← div_eq_mul_inv, div_le_one (by positivity)]
    exact_mod_cast hm)
  obtain ⟨k, hk, hvalue⟩ := Binary.exists_bits hone hhalf
  -- above one half `x` is a multiple of `2 ^ -53`, and so is what it lacks of one, which is exact
  have hleft : ((ofNat 1).sub x).value = ((2 ^ 53 - k : ℕ) : ℚ) * 2 ^ (-53 : ℤ) := by
    have hrest : (ofNat 1).value - x.value = ((2 ^ 53 - k : ℕ) : ℚ) * 2 ^ (-53 : ℤ) := by
      rw [value_ofNat (by norm_num), hvalue, Nat.cast_sub hk]
      norm_num
      ring
    rw [Binary.sub, hrest, Binary.value_ofRat (by omega) (by norm_num) (by norm_num)]
  have hraise : (w.mul ((ofNat 1).sub x)).Within ((2 ^ 53 - k : ℕ) * 2 ^ (-54 : ℤ)) := by
    have hnonneg : 0 ≤ ((ofNat 1).sub x).value := by
      rw [hleft]
      positivity
    apply Binary.within_ofRat (mul_nonneg hw.nonneg hnonneg) (by omega) (by norm_num) (by norm_num)
    rw [hleft]
    refine (mul_le_mul_of_nonneg_right hw.value_le (by positivity)).trans_eq ?_
    norm_num
    ring
  apply Binary.within_ofRat (add_nonneg hx.nonneg hraise.nonneg) (by omega) (by norm_num)
    (by norm_num)
  -- with the largest weight the sum is half of the way from `x` to one
  have hsum : x.value + (2 ^ 53 - k : ℕ) * 2 ^ (-54 : ℤ) = (1 + x.value) / 2 := by
    rw [hvalue, Nat.cast_sub hk]
    norm_num
    ring
  refine (add_le_add_right hraise.value_le _).trans (hsum.trans_le ?_)
  have hle := hx.value_le
  push_cast at hle ⊢
  norm_num at hle ⊢
  linarith

/-! ### Scores -/

/-- What is left of the search for the characters of one text in another. -/
def search (a b : List Char) : List Char × List Cell :=
  pickAll (max a.length b.length / 2 - 1) 0 a (b.map (⟨·, false⟩))

/-- The characters of the first text that have been found. -/
def found (a b : List Char) : List Char := (search a b).1

/-- The characters of the second text that have been picked. -/
def picked (a b : List Char) : List Char := pickedChars (search a b).2

/-- How many of the characters found are transposed. -/
def transposed (a b : List Char) : ℕ :=
  (mismatches (found a b) (picked a b)).length / 2

theorem jaro_eq (a b : List Char) : jaro a b = if a.isEmpty && b.isEmpty then ofNat 1
    else if (found a b).length = 0 then ofNat 0
    else mean (share (found a b).length a.length) (share (found a b).length b.length)
      (share ((found a b).length - transposed a b) (found a b).length) := rfl

theorem found_sublist (a b : List Char) : (found a b).Sublist a := (pickAll_spec _ _ _ _).1

theorem picked_sublist (a b : List Char) : (picked a b).Sublist b := by
  have hchars := (pickAll_spec (max a.length b.length / 2 - 1) 0 a (b.map (⟨·, false⟩))).2.1
  rw [List.map_map] at hchars
  have hsub : (picked a b).Sublist ((search a b).2.map Cell.char) := List.filter_sublist.map _
  rwa [search, hchars, Function.comp_def, List.map_id'] at hsub

theorem picked_perm (a b : List Char) : (picked a b).Perm (found a b) := by
  have hperm := (pickAll_spec (max a.length b.length / 2 - 1) 0 a (b.map (⟨·, false⟩))).2.2
  have hfree : pickedChars (b.map (⟨·, false⟩)) = [] := by simp [pickedChars]
  rwa [hfree, List.nil_append] at hperm

theorem jaro_within_one (a b : List Char) : (jaro a b).Within ((2 ^ 42 : ℕ) * 2 ^ (-42 : ℤ)) := by
  have hfound := (found_sublist a b).length_le
  have hpicked := (picked_perm a b).length_eq ▸ (picked_sublist a b).length_le
  rw [jaro_eq]
  split_ifs
  · exact (ofNat_within (by norm_num)).mono (by norm_num)
  · exact (ofNat_within (by norm_num)).mono (by norm_num)
  · exact mean_within (share_within_one hfound) (share_within_one hpicked)
      (share_within_one (Nat.sub_le _ _)) (by norm_num) le_rfl

/-- Different texts miss one, since something is not found or in another order. -/
theorem jaro_within {a b : List Char} (hne : a ≠ b) (ha : a.length < 2 ^ 40)
    (hb : b.length < 2 ^ 40) : (jaro a b).Within ((2 ^ 42 - 1 : ℕ) * 2 ^ (-42 : ℤ)) := by
  have hfound := (found_sublist a b).length_le
  have hpicked := (picked_perm a b).length_eq ▸ (picked_sublist a b).length_le
  rw [jaro_eq]
  split_ifs with hempty hnone
  · rw [Bool.and_eq_true, List.isEmpty_iff, List.isEmpty_iff] at hempty
    exact absurd (hempty.1.trans hempty.2.symm) hne
  · exact (ofNat_within (by norm_num)).mono (by norm_num)
  · by_cases hmissed : (found a b).length < a.length
    · exact mean_within (share_within hmissed ha) (share_within_one hpicked)
        (share_within_one (Nat.sub_le _ _)) (by norm_num) (by norm_num)
    -- all of `a` is found: the second share leaves the gap, or the third
    by_cases hmissed' : (found a b).length < b.length
    · exact mean_within (share_within_one hfound) (share_within hmissed' hb)
        (share_within_one (Nat.sub_le _ _)) (by norm_num) (by norm_num)
    have hall : found a b = a := (found_sublist a b).eq_of_length (by omega)
    have hall' : picked a b = b :=
      (picked_sublist a b).eq_of_length ((picked_perm a b).length_eq.trans (by omega))
    -- all characters of both are picked, and there is no single place where they differ
    have htransposed : 0 < transposed a b := by
      have hmismatches : ¬ (mismatches a b).length < 2 := fun h =>
        hne (eq_of_perm_of_mismatches (hall ▸ hall' ▸ picked_perm a b).symm h)
      rw [transposed, hall, hall']
      omega
    have hless : (found a b).length - transposed a b < (found a b).length := by omega
    exact mean_within (share_within_one hfound) (share_within_one hpicked)
      (share_within hless (hfound.trans_lt ha)) (by norm_num) (by norm_num)

/-- A text has the score one with itself. -/
theorem jaro_self (a : List Char) : jaro a a = ofNat 1 := by
  -- every character finds the cell at its own place
  have hsearch : search a a = (a, a.map (⟨·, true⟩)) :=
    pickAll_self (max a.length a.length / 2 - 1) [] a
  have hfound : found a a = a := congrArg Prod.fst hsearch
  have hpicked : picked a a = a := by
    have hall : (a.map (Cell.mk · true)).filter Cell.picked = a.map (Cell.mk · true) :=
      List.filter_eq_self.mpr (by simp)
    rw [picked, hsearch, pickedChars, hall, List.map_map, Function.comp_def, List.map_id']
  have htransposed : transposed a a = 0 := by
    rw [transposed, hfound, hpicked, mismatches_self]
    rfl
  rw [jaro_eq, hfound, htransposed, Nat.sub_zero]
  split_ifs with hempty hnone
  · rfl
  · simp_all
  · rw [share_self (Nat.pos_of_ne_zero hnone)]
    decide +kernel

theorem jaroWinkler_eq (a b : List Char) : jaroWinkler a b
    = if Binary.lt (Binary.ofRatio false 7 10) (jaro a b) then
        (jaro a b).add ((weight (commonPrefix 4 a b)).mul ((ofNat 1).sub (jaro a b)))
      else jaro a b := rfl

theorem half_le_of_lt {x : Double} (hx : x.negative = false)
    (h : Binary.lt (Binary.ofRatio false 7 10) x = true) : 1 / 2 ≤ x.value := by
  have hhalf : (Binary.ofRat (1 / 2) : Double).value = 1 / 2 := by
    have h := Binary.value_ofRat (m := 1) (q := -1) (by norm_num) (by norm_num) (by norm_num)
    norm_num at h ⊢
    exact h
  have hsign : (Binary.ofRat (1 / 2) : Double).negative = false := by decide +kernel
  rw [← hhalf, Binary.value_of_nonneg hsign, Binary.value_of_nonneg hx]
  apply Binary.size_mono
  rw [Binary.lt, Bool.and_eq_true, decide_eq_true_eq] at h
  -- the limit is not a number of few bits, so that it is compared by its rank
  have hseven : (Binary.ofRatio false 7 10 : Double).signedRank
      = (Binary.ofRatio false 7 10 : Double).rank.val := rfl
  have hrank : x.signedRank = x.rank.val := by
    rw [Binary.signedRank, hx]
    rfl
  have hle : (Binary.ofRat (1 / 2) : Double).rank.val
      ≤ (Binary.ofRatio false 7 10 : Double).rank.val := by decide +kernel
  omega

theorem jaroWinkler_within {a b : List Char} {m : ℕ} (hm : m ≤ 2 ^ 42)
    (h : (jaro a b).Within (m * 2 ^ (-42 : ℤ))) :
    (jaroWinkler a b).Within ((2 ^ 42 + m : ℕ) * 2 ^ (-43 : ℤ)) := by
  rw [jaroWinkler_eq]
  split_ifs with hraise
  · exact raised_within h hm (half_le_of_lt h.positive hraise) (weight_within (commonPrefix_le 4 a b))
  · refine h.mono ?_
    have hle : (m : ℚ) ≤ 4398046511104 := by exact_mod_cast hm
    push_cast
    norm_num
    linarith

theorem jaroWinkler_self (a : List Char) : jaroWinkler a a = ofNat 1 := by
  rw [jaroWinkler_eq, jaro_self, if_pos (by decide +kernel)]
  have hleft : ((ofNat 1).sub (ofNat 1)).value = 0 := by
    rw [Binary.sub, sub_self, ← Nat.cast_zero, ← ofNat_eq, value_ofNat (by norm_num)]
  have hnothing : ((weight (commonPrefix 4 a a)).mul ((ofNat 1).sub (ofNat 1))).value = 0 := by
    rw [Binary.mul, hleft, mul_zero, ← Nat.cast_zero, ← ofNat_eq, value_ofNat (by norm_num)]
  rw [Binary.add, hnothing, add_zero, value_ofNat (by norm_num), ← ofNat_eq]

theorem jaroWinkler_within_one (a b : List Char) : (jaroWinkler a b).Within 1 :=
  (jaroWinkler_within le_rfl (jaro_within_one a b)).mono (by norm_num)

/-- A score is a number. -/
theorem jaroWinkler_number (a b : List Char) : (jaroWinkler a b).isNaN = false :=
  Binary.isNaN_of_isFinite (jaroWinkler_within_one a b).finite

/-- **Different texts do not have the score one.** -/
theorem jaroWinkler_eq_one_iff {a b : List Char} (ha : a.length < 2 ^ 40) (hb : b.length < 2 ^ 40) :
    jaroWinkler a b = ofNat 1 ↔ a = b := by
  constructor
  · intro h
    by_contra hne
    have hle := (jaroWinkler_within (by norm_num) (jaro_within hne ha hb)).value_le
    rw [h, value_ofNat (by norm_num)] at hle
    norm_num at hle
  · rintro rfl
    exact jaroWinkler_self a

/-! ### Measures -/

/-- A measure of similarity for a list of choices: a number up to one, which is one between two of
the choices exactly if they are equal but for letter case and blanks. -/
structure IsMeasure (score : List Char → List Char → Double) (choices : List String) : Prop where
  number : ∀ a b, (score a b).isNaN = false
  le_one : ∀ a b, Binary.lt (ofNat 1) (score a b) = false
  eq_one : ∀ c ∈ choices, ∀ d ∈ choices,
    score (folded c) (folded d) = ofNat 1 ↔ folded c = folded d

/-- **Jaro–Winkler similarity is a measure** for choices that are not too long. -/
theorem jaroWinkler_isMeasure {choices : List String}
    (h : ∀ c ∈ choices, (folded c).length < 2 ^ 40) : IsMeasure jaroWinkler choices where
  number := jaroWinkler_number
  le_one a b := by
    have hone : (ofNat 1).Within 1 := by exact_mod_cast ofNat_within (by norm_num)
    refine Within.lt_eq_false ?_ hone.positive hone.finite
    rw [value_ofNat (by norm_num), Nat.cast_one]
    exact jaroWinkler_within_one a b
  eq_one c hc d hd := jaroWinkler_eq_one_iff (h c hc) (h d hd)

namespace IsMeasure

variable {score : List Char → List Char → Double} {choices : List String}

theorem signedRank_le (hscore : IsMeasure score choices) (a b : List Char) :
    (score a b).signedRank ≤ (ofNat 1).signedRank := by
  have h := hscore.le_one a b
  rw [Binary.lt_of_number (by decide +kernel) (hscore.number a b)] at h
  simpa using h

theorem signedRank_eq_iff (hscore : IsMeasure score choices) {c d : String} (hc : c ∈ choices)
    (hd : d ∈ choices) : (score (folded c) (folded d)).signedRank = (ofNat 1).signedRank ↔
      folded c = folded d := by
  rw [← hscore.eq_one c hc d hd]
  exact ⟨Binary.eq_of_signedRank_eq (by decide +kernel), congrArg _⟩

end IsMeasure

end CatalogQuery.Similarity
