import CatalogQuery.Json
import CatalogQuery.Proofs.Decimal.Distinct

/-!
# Canonical JSON text is unambiguous

The text of a value is told from the texts of all others, also if something stands behind it that
does not go on a number: this is `Delimited`. The first character says of which `Shape` a value is.
A quoted text ends at the first quote that is not escaped (`writeString_append_inj`), and a row of
items ends at its closing bracket, because none of the items begins with that (`row_append_inj`).

`Json.compact_injective`: values with the same canonical text are equal, however deep they are and
whatever stands in their strings.
-/

namespace CatalogQuery.Json

/-! ### What follows a text -/

/-- The characters of the numbers in a text. -/
def numberChars : List Char := '+' :: numeric

/-- What begins here goes on no number. -/
def Ends (cs : List Char) : Prop := ∀ c ∈ cs.head?, c ∉ numberChars

theorem ends_nil : Ends [] := by
  intro c hc
  cases hc

theorem ends_cons {c : Char} (hc : c ∉ numberChars) (cs : List Char) : Ends (c :: cs) := by
  rintro _ ⟨⟩
  exact hc

/-- The text of `a` is the text of nothing else, and it is seen where it ends. -/
def Delimited {α : Type} (write : α → List Char) (a : α) : Prop :=
  ∀ b r s, Ends r → Ends s → write a ++ r = write b ++ s → a = b ∧ r = s

/-! ### Numbers -/

theorem takeWhile_number {cs r : List Char} (hcs : ∀ c ∈ cs, c ∈ numberChars) (hr : Ends r) :
    (cs ++ r).takeWhile (· ∈ numberChars) = cs := by
  rw [List.takeWhile_append_of_pos fun c hc => decide_eq_true (hcs c hc)]
  cases r with
  | nil => exact List.append_nil cs
  | cons c r =>
    rw [List.takeWhile_cons_of_neg (by simpa using hr c rfl), List.append_nil]

/-- The characters of a number are all that stand in front of what ends it. -/
theorem number_append_inj {cs ds r s : List Char} (hcs : ∀ c ∈ cs, c ∈ numberChars)
    (hds : ∀ c ∈ ds, c ∈ numberChars) (hr : Ends r) (hs : Ends s) (h : cs ++ r = ds ++ s) :
    cs = ds ∧ r = s := by
  have hsame : cs = ds := by rw [← takeWhile_number hcs hr, h, takeWhile_number hds hs]
  subst hsame
  exact ⟨rfl, List.append_cancel_left h⟩

/-- An integer is written with digits, perhaps after a minus sign. -/
theorem mem_writeInt (n : Int) : ∀ c ∈ writeInt n, c ∈ '-' :: "0123456789".toList := by
  intro c hc
  unfold writeInt at hc
  split_ifs at hc
  · rcases List.mem_cons.mp hc with rfl | hc
    · exact List.mem_cons_self
    · exact List.mem_cons_of_mem _ (mem_digits (isDigit_toDigits _ c hc))
  · exact List.mem_cons_of_mem _ (mem_digits (isDigit_toDigits _ c hc))

theorem toDigits_ne_minus (n : ℕ) (cs : List Char) : Nat.toDigits 10 n ≠ '-' :: cs := by
  intro h
  have hdigit := isDigit_toDigits n '-' (by rw [h]; exact List.mem_cons_self)
  cases hdigit

theorem toDigits_injective {m n : ℕ} (h : Nat.toDigits 10 m = Nat.toDigits 10 n) : m = n := by
  rw [← numeral_toDigits m, h, numeral_toDigits]

theorem writeInt_injective {m n : Int} (h : writeInt m = writeInt n) : m = n := by
  unfold writeInt at h
  split_ifs at h with hm hn hn
  · have habs := toDigits_injective ((List.cons_inj_right _).mp h)
    omega
  · exact absurd h.symm (toDigits_ne_minus _ _)
  · exact absurd h (toDigits_ne_minus _ _)
  · have habs := toDigits_injective h
    omega

theorem mem_write_float (x : FiniteDouble) : ∀ c ∈ (Json.float x).write, c ∈ numberChars := by
  intro c hc
  rw [write, DecimalStyle.toList_write _ x.finite] at hc
  split_ifs at hc
  · rcases List.mem_cons.mp hc with rfl | hc
    · decide
    · exact DecimalStyle.mem_writeSize _ x.finite c hc
  · exact DecimalStyle.mem_writeSize _ x.finite c hc

/-- A floating-point number is not written like an integer. -/
theorem write_float_ne_writeInt (x : FiniteDouble) (n : Int) :
    (Json.float x).write ≠ writeInt n := by
  intro h
  -- a point or an exponent tells the number from an integer
  have hmark : ∃ c ∈ (Json.float x).write, c ∉ '-' :: "0123456789".toList := by
    have hsize : ∀ c ∈ DecimalStyle.json.writeSize x.val, c ∈ (Json.float x).write := by
      intro c hc
      rw [write, DecimalStyle.toList_write _ x.finite]
      split_ifs
      · exact List.mem_cons_of_mem _ hc
      · exact hc
    rcases DecimalStyle.json.writeSize_marked x.finite with hmark | hmark
    · exact ⟨'.', hsize _ hmark, by decide⟩
    · exact ⟨'e', hsize _ hmark, by decide⟩
  obtain ⟨c, hc, hno⟩ := hmark
  rw [h] at hc
  exact hno (mem_writeInt n c hc)

/-! ### Quoted texts -/

/-- The code of a control character with these two hexadecimal digits. -/
def control? (high low : Char) : Option ℕ :=
  (List.range 32).find? fun n => Nat.digitChar (n / 16) = high ∧ Nat.digitChar (n % 16) = low

/-- The character that an escape with a single letter stands for. -/
def short (c : Char) : Char :=
  if c = 'n' then '\n'
  else if c = 'r' then '\r'
  else if c = 't' then '\t'
  else if c = 'b' then '\x08'
  else if c = 'f' then '\x0c'
  else c

/-- The character that stands in front inside a quoted text, and what follows it. -/
def readChar? : List Char → Option (Char × List Char)
  | '\\' :: 'u' :: '0' :: '0' :: high :: low :: rest =>
    (control? high low).map fun n => (Char.ofNat n, rest)
  | '\\' :: c :: rest => some (short c, rest)
  | c :: rest => some (c, rest)
  | [] => none

theorem control?_digits : ∀ n < 32,
    control? (Nat.digitChar (n / 16)) (Nat.digitChar (n % 16)) = some n := by decide

/-- **An escaped character is read back.** -/
theorem readChar?_escape (c : Char) (rest : List Char) :
    readChar? (escape c ++ rest) = some (c, rest) := by
  unfold escape
  split_ifs with hquote hbackslash hn hr ht hb hf hcontrol
  · rw [hquote]; rfl
  · rw [hbackslash]; rfl
  · rw [hn]; rfl
  · rw [hr]; rfl
  · rw [ht]; rfl
  · rw [hb]; rfl
  · rw [hf]; rfl
  · show (control? _ _).map _ = _
    rw [control?_digits _ hcontrol, Option.map_some, Char.ofNat_toNat]
    rfl
  · show readChar? (c :: rest) = _
    -- a character that is written as it is begins no escape
    unfold readChar?
    split
    · rename_i heq
      cases heq
      exact absurd rfl hbackslash
    · rename_i heq
      cases heq
      exact absurd rfl hbackslash
    · rename_i heq
      cases heq
      rfl
    · rename_i heq
      cases heq

/-- No escaped character begins with a quote. -/
theorem escape_ne_quote (c : Char) (r s : List Char) : escape c ++ r ≠ '"' :: s := by
  unfold escape
  split_ifs with hquote
  all_goals
    intro h
    cases h
  exact hquote rfl

/-- A row of escaped characters ends at the first quote. -/
theorem escapes_append_inj {cs ds r s : List Char}
    (h : cs.flatMap escape ++ '"' :: r = ds.flatMap escape ++ '"' :: s) : cs = ds ∧ r = s := by
  induction cs generalizing ds with
  | nil =>
    cases ds with
    | nil =>
      cases h
      exact ⟨rfl, rfl⟩
    | cons d ds =>
      rw [List.flatMap_cons, List.append_assoc] at h
      exact absurd h.symm (escape_ne_quote d _ _)
  | cons c cs ih =>
    rw [List.flatMap_cons, List.append_assoc] at h
    cases ds with
    | nil => exact absurd h (escape_ne_quote c _ _)
    | cons d ds =>
      rw [List.flatMap_cons, List.append_assoc] at h
      -- both sides are read one character further
      have hread := congrArg readChar? h
      rw [readChar?_escape, readChar?_escape, Option.some_inj, Prod.mk.injEq] at hread
      obtain ⟨rfl, hrest⟩ := hread
      obtain ⟨rfl, rfl⟩ := ih hrest
      exact ⟨rfl, rfl⟩

/-- **A quoted text ends where it stands**, whatever is in it. -/
theorem writeString_append_inj {a b : String} {r s : List Char}
    (h : writeString a ++ r = writeString b ++ s) : a = b ∧ r = s := by
  unfold writeString at h
  rw [List.cons_append, List.cons_append, List.append_assoc, List.append_assoc] at h
  obtain ⟨hab, rfl⟩ := escapes_append_inj ((List.cons_inj_right _).mp h)
  exact ⟨String.ext hab, rfl⟩

/-! ### Rows -/

section Rows

variable {α : Type}

/-- Texts with commas between them. -/
def row (write : α → List Char) : List α → List Char
  | [] => []
  | a :: rest => write a ++ rest.flatMap fun b => ',' :: write b

variable {write : α → List Char} {close : Char} {as bs : List α} {r s : List Char}

theorem ends_further (hclose : close ∉ numberChars) (as : List α) (r : List Char) :
    Ends ((as.flatMap fun b => ',' :: write b) ++ close :: r) := by
  cases as with
  | nil => exact ends_cons hclose r
  | cons a as => exact ends_cons (by decide) _

theorem further_append_inj (hclose : close ∉ ',' :: numberChars)
    (has : ∀ a ∈ as, Delimited write a)
    (h : (as.flatMap fun b => ',' :: write b) ++ close :: r
      = (bs.flatMap fun b => ',' :: write b) ++ close :: s) : as = bs ∧ r = s := by
  obtain ⟨hcomma, hends⟩ := not_or.mp (mt List.mem_cons.mpr hclose)
  -- a comma says that there is one more item, and the bracket that there is none
  induction as generalizing bs with
  | nil =>
    cases bs with
    | nil =>
      cases h
      exact ⟨rfl, rfl⟩
    | cons b bs =>
      cases h
      exact absurd rfl hcomma
  | cons a as ih =>
    obtain ⟨ha, has⟩ := List.forall_mem_cons.mp has
    cases bs with
    | nil =>
      cases h
      exact absurd rfl hcomma
    | cons b bs =>
      rw [List.flatMap_cons, List.flatMap_cons, List.append_assoc, List.append_assoc,
        List.cons_append, List.cons_append, List.cons_inj_right] at h
      obtain ⟨rfl, hrest⟩ := ha b _ _ (ends_further hends as r) (ends_further hends bs s) h
      obtain ⟨rfl, rfl⟩ := ih has hrest
      exact ⟨rfl, rfl⟩

/-- **A row ends at its closing bracket**, if no item begins with it. -/
theorem row_append_inj (hclose : close ∉ ',' :: numberChars)
    (hopen : ∀ a r s, write a ++ r ≠ close :: s) (has : ∀ a ∈ as, Delimited write a)
    (h : row write as ++ close :: r = row write bs ++ close :: s) : as = bs ∧ r = s := by
  have hends : close ∉ numberChars := fun hmem => hclose (List.mem_cons_of_mem _ hmem)
  cases as with
  | nil =>
    cases bs with
    | nil =>
      cases h
      exact ⟨rfl, rfl⟩
    | cons b bs =>
      rw [row, row, List.append_assoc] at h
      -- one row is at its end, where no item of the other can begin
      exact absurd h.symm (hopen b _ _)
  | cons a as =>
    obtain ⟨ha, has⟩ := List.forall_mem_cons.mp has
    cases bs with
    | nil =>
      rw [row, row, List.append_assoc] at h
      exact absurd h (hopen a _ _)
    | cons b bs =>
      rw [row, row, List.append_assoc, List.append_assoc] at h
      -- both have an item, which ends at the same place
      obtain ⟨rfl, hrest⟩ := ha b _ _ (ends_further hends as r) (ends_further hends bs s) h
      obtain ⟨rfl, rfl⟩ := further_append_inj hclose has hrest
      exact ⟨rfl, rfl⟩

end Rows

/-- A field of an object. -/
def writeField (f : String × Json) : List Char := writeString f.1 ++ ':' :: f.2.write

theorem writeItems_eq : ∀ vs : List Json, writeItems vs = row write vs
  | [] => rfl
  | [v] => (List.append_nil v.write).symm
  | v :: w :: rest => by
    rw [writeItems, writeItems_eq (w :: rest)]
    · rfl
    · exact List.cons_ne_nil w rest

theorem writeFields_eq : ∀ fs : List (String × Json), writeFields fs = row writeField fs
  | [] => rfl
  | [(k, v)] => (List.append_nil _).symm
  | (k, v) :: f :: rest => by
    rw [writeFields, writeFields_eq (f :: rest)]
    · simp [row, writeField]
    · exact List.cons_ne_nil f rest

/-! ### Values -/

/-- What the first character of a text tells. -/
inductive Shape where
  | null
  | bool (b : Bool)
  | number
  | string
  | array
  | object
  deriving DecidableEq

def shape : Json → Shape
  | .null => .null
  | .bool b => .bool b
  | .int _ | .float _ => .number
  | .str _ => .string
  | .arr _ => .array
  | .obj _ => .object

def Shape.ofChar (c : Char) : Shape :=
  if c = 'n' then .null
  else if c = 't' then .bool true
  else if c = 'f' then .bool false
  else if c = '"' then .string
  else if c = '[' then .array
  else if c = '\x7b' then .object
  else .number

theorem mem_write_of_number {v : Json} (hv : v.shape = .number) :
    v.write ≠ [] ∧ ∀ c ∈ v.write, c ∈ numberChars := by
  cases v with
  | int n =>
    have hall : ∀ c ∈ '-' :: "0123456789".toList, c ∈ numberChars := by decide
    refine ⟨?_, fun c hc => hall c (mem_writeInt n c hc)⟩
    show writeInt n ≠ []
    unfold writeInt
    split_ifs
    · exact List.cons_ne_nil _ _
    · exact Nat.toDigits_ne_nil
  | float x =>
    refine ⟨fun hnil => ?_, mem_write_float x⟩
    -- the text has a point or an exponent, so it has some character
    have hsome := DecimalStyle.json.writeSize_marked x.finite
    rw [write, DecimalStyle.toList_write _ x.finite] at hnil
    split_ifs at hnil
    rw [hnil] at hsome
    simp at hsome
  | null | bool | str | arr | obj => cases hv

theorem write_injective_of_number {v w : Json} (hv : v.shape = .number) (hw : w.shape = .number)
    (h : v.write = w.write) : v = w := by
  cases v with
  | int m =>
    cases w with
    | int n => exact congrArg Json.int (writeInt_injective h)
    | float y => exact absurd h.symm (write_float_ne_writeInt y m)
    | null | bool | str | arr | obj => cases hw
  | float x =>
    cases w with
    -- no number is written both as an integer and as a decimal
    | int n => exact absurd h (write_float_ne_writeInt x n)
    | float y =>
      obtain ⟨x, hx⟩ := x
      obtain ⟨y, hy⟩ := y
      obtain rfl := DecimalStyle.write_injective _ hx hy (String.ext h)
      rfl
    | null | bool | str | arr | obj => cases hw
  | null | bool | str | arr | obj => cases hv

/-- The first character of a text tells the shape, and closes nothing. -/
theorem head_write (v : Json) :
    ∃ c cs, v.write = c :: cs ∧ c ≠ ']' ∧ Shape.ofChar c = v.shape := by
  by_cases hv : v.shape = .number
  · -- numbers are made of digits and signs
    have hall : ∀ c ∈ numberChars, c ≠ ']' ∧ Shape.ofChar c = .number := by decide
    obtain ⟨hne, hmem⟩ := mem_write_of_number hv
    obtain ⟨c, cs, hcs⟩ := List.exists_cons_of_ne_nil hne
    have hc := hall c (hmem c (by rw [hcs]; exact List.mem_cons_self))
    exact ⟨c, cs, hcs, hc.1, hc.2.trans hv.symm⟩
  · cases v with
    | null => exact ⟨'n', _, rfl, by decide, rfl⟩
    | bool b =>
      cases b with
      | true => exact ⟨'t', _, rfl, by decide, rfl⟩
      | false => exact ⟨'f', _, rfl, by decide, rfl⟩
    | str s => exact ⟨'"', _, rfl, by decide, rfl⟩
    | arr vs => exact ⟨'[', _, rfl, by decide, rfl⟩
    | obj fs => exact ⟨'\x7b', _, rfl, by decide, rfl⟩
    | int | float => exact absurd rfl hv

theorem shape_eq_of_append {v w : Json} {r s : List Char} (h : v.write ++ r = w.write ++ s) :
    w.shape = v.shape := by
  obtain ⟨c, cs, hv, -, hshape⟩ := head_write v
  obtain ⟨d, ds, hw, -, hshape'⟩ := head_write w
  rw [hv, hw, List.cons_append, List.cons_append] at h
  rw [← hshape, ← hshape', (List.cons_eq_cons.mp h).1]

theorem delimited_of_number {v : Json} (hv : v.shape = .number) : Delimited write v := by
  intro w r s hr hs h
  have hw := (shape_eq_of_append h).trans hv
  obtain ⟨htext, hrest⟩ :=
    number_append_inj (mem_write_of_number hv).2 (mem_write_of_number hw).2 hr hs h
  exact ⟨write_injective_of_number hv hw htext, hrest⟩

/-- An item does not begin with the bracket that closes a row of items. -/
theorem write_ne_close (v : Json) (r s : List Char) : v.write ++ r ≠ ']' :: s := by
  obtain ⟨c, cs, hv, hc, -⟩ := head_write v
  rw [hv, List.cons_append]
  intro h
  exact hc (List.cons_eq_cons.mp h).1

theorem delimited_field {k : String} {v : Json} (hv : Delimited write v) :
    Delimited writeField (k, v) := by
  rintro ⟨k', v'⟩ r s hr hs h
  unfold writeField at h
  rw [List.append_assoc, List.append_assoc] at h
  obtain ⟨rfl, hrest⟩ := writeString_append_inj h
  rw [List.cons_append, List.cons_append, List.cons_inj_right] at hrest
  obtain ⟨rfl, rfl⟩ := hv v' r s hr hs hrest
  exact ⟨rfl, rfl⟩

mutual

/-- **The text of a value is told from the texts of all others**, and from what follows it. -/
theorem delimited : ∀ v : Json, Delimited write v
  | .int _ | .float _ => delimited_of_number rfl
  | .null => by
    intro w r s _ _ h
    -- the first character leaves one constructor, here and in the cases below
    have hshape := shape_eq_of_append h
    cases w with
    | null => exact ⟨rfl, List.append_cancel_left h⟩
    | _ => cases hshape
  | .bool b => by
    intro w r s _ _ h
    have hshape := shape_eq_of_append h
    cases w with
    | bool b' =>
      cases hshape
      exact ⟨rfl, List.append_cancel_left h⟩
    | _ => cases hshape
  | .str a => by
    intro w r s _ _ h
    have hshape := shape_eq_of_append h
    cases w with
    | str b =>
      obtain ⟨rfl, rfl⟩ := writeString_append_inj h
      exact ⟨rfl, rfl⟩
    | _ => cases hshape
  | .arr vs => by
    intro w r s _ _ h
    have hshape := shape_eq_of_append h
    cases w with
    | arr ws =>
      rw [write, write, writeItems_eq, writeItems_eq, List.cons_append, List.cons_append,
        List.cons_inj_right, List.append_assoc, List.append_assoc] at h
      obtain ⟨rfl, rfl⟩ := row_append_inj (by decide) write_ne_close (delimited_items vs) h
      exact ⟨rfl, rfl⟩
    | _ => cases hshape
  | .obj fs => by
    intro w r s _ _ h
    have hshape := shape_eq_of_append h
    cases w with
    | obj gs =>
      rw [write, write, writeFields_eq, writeFields_eq, List.cons_append, List.cons_append,
        List.cons_inj_right, List.append_assoc, List.append_assoc] at h
      have hopen : ∀ f r s, writeField f ++ r ≠ '\x7d' :: s := by
        intro f r s h
        cases h
      obtain ⟨rfl, rfl⟩ := row_append_inj (by decide) hopen (delimited_fields fs) h
      exact ⟨rfl, rfl⟩
    | _ => cases hshape

theorem delimited_items : ∀ vs : List Json, ∀ v ∈ vs, Delimited write v
  | [] => fun _ hv => by cases hv
  | v :: rest => List.forall_mem_cons.mpr ⟨delimited v, delimited_items rest⟩

theorem delimited_fields : ∀ fs : List (String × Json), ∀ f ∈ fs, Delimited writeField f
  | [] => fun _ hf => by cases hf
  | (_, v) :: rest =>
    List.forall_mem_cons.mpr ⟨delimited_field (delimited v), delimited_fields rest⟩

end

/-- **Canonical text is unambiguous**: distinct values have distinct texts. -/
theorem compact_injective {v w : Json} (h : v.compact = w.compact) : v = w := by
  apply (delimited v w [] [] ends_nil ends_nil _).1
  rw [List.append_nil, List.append_nil]
  exact String.ofList_injective h

end CatalogQuery.Json
