import CatalogQuery.Draft.Escape
import Mathlib.Algebra.Group.Nat.Defs
import Mathlib.Data.List.Induction

/-!
# Digits in escapes

Digits of some base denote a number (`Number`), which is what `readDigits?` reads of them. A
character is named by hexadecimal digits in front of a text (`hexChar?_eq_some_iff`), or by the
octal digits in front, of which there may be fewer than are looked for (`OctalRun`).
-/

namespace CatalogQuery.Escape

/-! ### Numbers -/

/-- The character is the digit of that value, a letter in either case. -/
def IsDigit (base : Nat) (c : Char) (d : Nat) : Prop := d < base ∧ c.toLower = d.digitChar

/-- The digits denote that number. The last of them are the units. -/
inductive Number (base : Nat) : List Char → Nat → Prop where
  | nil : Number base [] 0
  | snoc {digits : List Char} {n d : Nat} {c : Char} (h : Number base digits n)
      (hc : IsDigit base c d) : Number base (digits ++ [c]) (base * n + d)

/-- The bases of the digits in escapes. -/
def bases : List Nat := [8, 16]

theorem digitValue?_ascii : ∀ base ∈ bases, ∀ code < 128, ∀ d < 16,
    (digitValue? base (Char.ofNat code) = some d ↔
      d < base ∧ (Char.ofNat code).toLower = d.digitChar) := by
  decide +kernel

theorem digitValue?_lt {base : Nat} {c : Char} {d : Nat} (h : digitValue? base c = some d) :
    d < base := by
  simp only [digitValue?, Option.ite_none_right_eq_some, Option.some.injEq] at h
  exact h.2 ▸ h.1

/-- No other character is a digit. -/
theorem digitValue?_of_not_ascii (base : Nat) {c : Char} (hc : ¬ c.toNat < 128) :
    digitValue? base c = none := by
  have hle (top : Char) (htop : top.toNat < 128) : ¬ c ≤ top := fun h =>
    hc (Nat.lt_of_le_of_lt (UInt32.le_iff_toNat_le.mp h) htop)
  have hdigit : ¬ c.isDigit = true := fun h =>
    hle '9' (by decide) (of_decide_eq_true (Bool.and_eq_true_iff.mp h).2)
  have hsmall : ¬ ('a' ≤ c ∧ c ≤ 'f') := fun h => hle 'f' (by decide) h.2
  have hcapital : ¬ ('A' ≤ c ∧ c ≤ 'F') := fun h => hle 'F' (by decide) h.2
  rw [digitValue?, if_neg hdigit, if_neg hsmall, if_neg hcapital]
  exact if_neg (Nat.lt_irrefl base)

/-- Nor is it one in lower case. -/
theorem toLower_ne_digitChar {c : Char} (hc : ¬ c.toNat < 128) {d : Nat} (hd : d < 16) :
    c.toLower ≠ d.digitChar := by
  have hascii : ∀ d < 16, d.digitChar.toNat < 128 := by decide
  have hlower : c.toLower = c := dif_neg fun hupper =>
    hc (Nat.lt_of_le_of_lt (UInt32.le_iff_toNat_le.mp hupper.2) (by decide))
  rw [hlower]
  rintro rfl
  exact hc (hascii d hd)

theorem digitValue?_eq_some_iff {base : Nat} (hbase : base ∈ bases) {c : Char} {d : Nat} :
    digitValue? base c = some d ↔ IsDigit base c d := by
  have hle : ∀ base ∈ bases, base ≤ 16 := by decide
  by_cases hd : d < 16
  · -- Small characters are checked one by one, and no other is a digit in either sense.
    by_cases hc : c.toNat < 128
    · have h := digitValue?_ascii base hbase c.toNat hc d hd
      rwa [Char.ofNat_toNat] at h
    · rw [digitValue?_of_not_ascii base hc]
      exact ⟨fun h => (by cases h), fun h => absurd h.2 (toLower_ne_digitChar hc hd)⟩
  · have hlarge : ¬ d < base := fun h => hd (Nat.lt_of_lt_of_le h (hle base hbase))
    exact ⟨fun h => absurd (digitValue?_lt h) hlarge, fun h => absurd h.1 hlarge⟩

theorem readDigits?_append (base sofar : Nat) (digits : List Char) (c : Char) :
    readDigits? base sofar (digits ++ [c])
      = (readDigits? base sofar digits).bind fun n => (digitValue? base c).map (base * n + ·) := by
  induction digits generalizing sofar with
  | nil =>
    rw [List.nil_append]
    simp only [readDigits?, Option.bind_some]
    cases digitValue? base c <;> rfl
  | cons x digits ih =>
    rw [List.cons_append, readDigits?, readDigits?]
    cases digitValue? base x with
    | none => rfl
    -- the digits before the last one have been read from the other end
    | some d => exact ih _

theorem Number.of_append {base : Nat} {digits : List Char} {c : Char} {n : Nat}
    (h : Number base (digits ++ [c]) n) :
    ∃ m d, Number base digits m ∧ IsDigit base c d ∧ base * m + d = n := by
  generalize hdigits : digits ++ [c] = ds at h
  cases h with
  | nil => simp at hdigits
  | snoc h hc =>
    obtain ⟨rfl, hlast⟩ := List.append_inj' hdigits rfl
    obtain rfl : c = _ := List.singleton_inj.mp hlast
    exact ⟨_, _, h, hc, rfl⟩

/-- Digits are read as the number that they denote. -/
theorem readDigits?_eq_some_iff {base : Nat} (hbase : base ∈ bases) {digits : List Char} {n : Nat} :
    readDigits? base 0 digits = some n ↔ Number base digits n := by
  induction digits using List.reverseRecOn generalizing n with
  | nil =>
    constructor
    · rintro ⟨⟩
      exact .nil
    · intro h
      generalize hdigits : ([] : List Char) = ds at h
      cases h with
      | nil => rfl
      | snoc => simp at hdigits
  | append_singleton digits c ih =>
    rw [readDigits?_append, Option.bind_eq_some_iff]
    constructor
    · -- a number is read from its last digit
      rintro ⟨m, hm, h⟩
      obtain ⟨d, hd, rfl⟩ := Option.map_eq_some_iff.mp h
      exact .snoc (ih.mp hm) ((digitValue?_eq_some_iff hbase).mp hd)
    · intro h
      obtain ⟨m, d, hm, hd, rfl⟩ := h.of_append
      exact ⟨m, ih.mpr hm, Option.map_eq_some_iff.mpr
        ⟨d, (digitValue?_eq_some_iff hbase).mpr hd, rfl⟩⟩

theorem Number.lt_pow {base : Nat} {digits : List Char} {n : Nat} (h : Number base digits n) :
    n < base ^ digits.length := by
  induction h with
  | nil => exact Nat.one_pos
  | @snoc digits n d c _ hc ih =>
    have hd : d < base := hc.1
    rw [List.length_append, List.length_singleton, Nat.pow_succ]
    calc base * n + d < base * n + base := Nat.add_lt_add_left hd _
      _ = base * (n + 1) := rfl
      _ ≤ base * base ^ digits.length := Nat.mul_le_mul_left _ ih
      _ = base ^ digits.length * base := Nat.mul_comm _ _

theorem Number.isDigit {base : Nat} {digits : List Char} {n : Nat} (h : Number base digits n) :
    ∀ c ∈ digits, ∃ d, IsDigit base c d := by
  induction h with
  | nil => rintro c ⟨⟩
  | snoc _ hc ih =>
    intro c hmem
    rcases List.mem_append.mp hmem with hmem | hmem
    · exact ih c hmem
    · exact ⟨_, List.mem_singleton.mp hmem ▸ hc⟩

theorem charOfCode?_eq_some_iff {n : Nat} {d : Char} : charOfCode? n = some d ↔ d.toNat = n := by
  unfold charOfCode?
  split_ifs with hvalid
  · constructor
    · rintro ⟨⟩
      rw [Char.ofNat, dif_pos hvalid]
      rfl
    · rintro rfl
      rw [Char.ofNat_toNat]
  · constructor
    · rintro ⟨⟩
    · rintro rfl
      -- a character has a valid code
      exact absurd d.valid hvalid

theorem exists_number {base : Nat} {digits : List Char} (h : ∀ c ∈ digits, ∃ d, IsDigit base c d) :
    ∃ n, Number base digits n := by
  induction digits using List.reverseRecOn with
  | nil => exact ⟨0, .nil⟩
  | append_singleton digits c ih =>
    obtain ⟨n, hn⟩ := ih fun x hx => h x (List.mem_append_left _ hx)
    obtain ⟨d, hd⟩ := h c (List.mem_append_right _ (List.mem_singleton_self c))
    exact ⟨_, .snoc hn hd⟩

theorem readDigits?_bind_eq_some_iff {base : Nat} (hbase : base ∈ bases) {digits : List Char}
    {d : Char} : (readDigits? base 0 digits).bind charOfCode? = some d ↔
      Number base digits d.toNat := by
  simp only [Option.bind_eq_some_iff, charOfCode?_eq_some_iff, readDigits?_eq_some_iff hbase,
    exists_eq_right']

/-- Backslashes and signs are no digits. -/
theorem not_isDigit : ∀ c ∈ ['\\', '+'], ∀ base ∈ bases, ∀ d, ¬ IsDigit base c d := by
  have hnone : ∀ c ∈ ['\\', '+'], ∀ base ∈ bases, digitValue? base c = none := by decide +kernel
  intro c hc base hbase d hd
  have := (digitValue?_eq_some_iff hbase).mpr hd
  rw [hnone c hc base hbase] at this
  cases this

/-! ### Hexadecimal digits -/

/-- The hexadecimal digits name the character. -/
def HexCode (digits : List Char) (d : Char) : Prop := Number 16 digits d.toNat

/-- The same with a plus sign in place of the first digit, or without. -/
def SignedHexCode (digits : List Char) (d : Char) : Prop :=
  HexCode digits d ∨ ∃ rest, digits = '+' :: rest ∧ HexCode rest d

theorem HexCode.ne {digits : List Char} {d x : Char} (h : HexCode digits d) (hx : x ∈ ['\\', '+']) :
    ∀ c ∈ digits, c ≠ x := by
  rintro c hc rfl
  obtain ⟨n, hn⟩ := h.isDigit c hc
  exact not_isDigit c hx 16 (by decide) n hn

theorem hexChar?_append {digits : List Char} (rest : List Char) {d : Char} :
    hexChar? digits.length (digits ++ rest) = some d ↔ SignedHexCode digits d := by
  have hread : ∀ {ds : List Char}, (readDigits? 16 0 ds).bind charOfCode? = some d ↔ HexCode ds d :=
    readDigits?_bind_eq_some_iff (by decide)
  simp only [hexChar?, List.take_left, if_true]
  split
  next ds =>
    rw [hread, SignedHexCode]
    constructor
    · exact fun h => .inr ⟨ds, rfl, h⟩
    · rintro (h | ⟨_, heq, h⟩)
      · -- a plus is no digit, so that there was a sign
        exact absurd rfl (h.ne (x := '+') (by decide) '+' (List.mem_cons_self ..))
      · cases heq
        exact h
  next hne =>
    rw [hread, SignedHexCode]
    refine ⟨.inl, fun h => h.resolve_right ?_⟩
    rintro ⟨ds, heq, -⟩
    exact hne ds heq

theorem hexChar?_eq_some_iff {n : Nat} {cs : List Char} {d : Char} :
    hexChar? n cs = some d ↔ ∃ digits rest, cs = digits ++ rest ∧ digits.length = n ∧
      SignedHexCode digits d := by
  constructor
  · intro h
    -- fewer characters than digits are refused
    have hlen : (cs.take n).length = n := by
      by_contra hlen
      simp only [hexChar?, if_neg hlen] at h
      cases h
    refine ⟨cs.take n, cs.drop n, (List.take_append_drop n cs).symm, hlen, ?_⟩
    rwa [← hexChar?_append (cs.drop n), List.take_append_drop, hlen]
  · rintro ⟨digits, rest, rfl, rfl, h⟩
    exact (hexChar?_append rest).mpr h

/-! ### Octal digits -/

/-- The octal digits in front of the rest, taken as long as there are any, but at most `n`. -/
structure OctalRun (n : Nat) (digits rest : List Char) : Prop where
  octal : ∀ c ∈ digits, ∃ d, IsDigit 8 c d
  length_le : digits.length ≤ n
  greedy : digits.length < n → ∀ c ∈ rest.head?, ∀ d, ¬ IsDigit 8 c d

theorem isOctal_iff {c : Char} : (digitValue? 8 c).isSome = true ↔ ∃ d, IsDigit 8 c d := by
  rw [Option.isSome_iff_exists]
  exact exists_congr fun d => digitValue?_eq_some_iff (by decide)

theorem OctalRun.octalDigits {n : Nat} {digits rest : List Char} (h : OctalRun n digits rest) :
    octalDigits n (digits ++ rest) = digits := by
  induction digits generalizing n with
  | nil =>
    cases n with
    | zero => rfl
    | succ n =>
      cases rest with
      | nil => rfl
      | cons c rest =>
        -- a run that is not full ends at no digit
        rw [List.nil_append, Escape.octalDigits, if_neg]
        rw [isOctal_iff]
        rintro ⟨d, hd⟩
        exact h.greedy (Nat.succ_pos n) c rfl d hd
  | cons c digits ih =>
    cases n with
    | zero => exact absurd h.length_le (Nat.not_succ_le_zero _)
    | succ n =>
      rw [List.cons_append, Escape.octalDigits,
        if_pos (isOctal_iff.mpr (h.octal c (List.mem_cons_self ..))), ih]
      exact ⟨fun x hx => h.octal x (List.mem_cons_of_mem _ hx), Nat.le_of_succ_le_succ h.length_le,
        fun hlt => h.greedy (Nat.succ_lt_succ hlt)⟩

theorem exists_octalRun (n : Nat) (cs : List Char) :
    ∃ digits rest, cs = digits ++ rest ∧ OctalRun n digits rest := by
  induction cs generalizing n with
  | nil => exact ⟨[], [], rfl, by simp, Nat.zero_le n, by simp⟩
  | cons c cs ih =>
    by_cases hc : ∃ d, IsDigit 8 c d
    · -- one more digit, unless the run is full
      cases n with
      | zero => exact ⟨[], c :: cs, rfl, by simp, Nat.le_refl 0, fun h => absurd h (by decide)⟩
      | succ n =>
        obtain ⟨digits, rest, rfl, hrun⟩ := ih n
        refine ⟨c :: digits, rest, rfl, ?_, Nat.succ_le_succ hrun.length_le,
          fun hlt => hrun.greedy (Nat.lt_of_succ_lt_succ hlt)⟩
        intro x hx
        rcases List.mem_cons.mp hx with rfl | hx
        · exact hc
        · exact hrun.octal x hx
    · refine ⟨[], c :: cs, rfl, by simp, Nat.zero_le n, ?_⟩
      rintro _ _ ⟨⟩ d hd
      exact hc ⟨d, hd⟩

/-- Three octal digits name a character. -/
theorem OctalRun.exists_number {digits rest : List Char} (h : OctalRun 3 digits rest) :
    ∃ d : Char, Number 8 digits d.toNat := by
  obtain ⟨n, hn⟩ := Escape.exists_number h.octal
  have hvalid : n.isValidChar := by
    left
    calc n < 8 ^ digits.length := hn.lt_pow
      _ ≤ 8 ^ 3 := Nat.pow_le_pow_right (by decide) h.length_le
      _ < 0xd800 := by decide
  refine ⟨Char.ofNat n, ?_⟩
  have := (charOfCode?_eq_some_iff (n := n) (d := Char.ofNat n)).mp (if_pos hvalid)
  rwa [this]

end CatalogQuery.Escape
