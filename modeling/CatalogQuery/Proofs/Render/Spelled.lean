import CatalogQuery.Proofs.Render.Conditions
import CatalogQuery.Proofs.Render.Capitals
import CatalogQuery.Proofs.Source.Brackets

/-!
# Normal forms of written queries

`Spelled ls cs` says that the text `cs` is made of words, marks and quoted texts, and that its words
are the names at the leaves `ls` and words that every normal form keeps. The text of a query is
spelled from its leaves (`Condition.Built.spelled`, `Call.Readable.spelled`).

Normalization keeps such a text if it keeps all names (`Spelled.normal`). In any case its result is
`Code`, and has as many capital letters outside quotes as the leaves after normalization
(`Spelled.code`).
-/

namespace CatalogQuery

open Grammar

/-- The capital letters that a leaf is written with outside quotes, if names are changed by `f`. -/
def Leaf.capitals (f : List Char → List Char) : Leaf → Nat
  | .name n => CatalogQuery.capitals (f n.toList)
  | .value .none | .value (.bool _) => 1
  | .value _ => 0

namespace Render

/-- The characters between words of a written query, beside quoted texts. -/
def marks : List Char := [' ', ',', '(', ')', '[', ']', '.', '-']

/-- No word goes on into the text, and no quoted text begins there. -/
def Apart (cs : List Char) : Prop := ∀ c ∈ cs.head?, c ∈ marks

theorem apart_cons {c : Char} (hc : c ∈ marks) (cs : List Char) : Apart (c :: cs) := by
  rintro _ ⟨⟩
  exact hc

/-- A text of words, marks and quoted texts, and the leaves that it spells. -/
inductive Spelled : List Leaf → List Char → Prop where
  | nil : Spelled [] []
  | name {n : String} {ls : List Leaf} {cs : List Char} (hn : IsWord n.toList) (hcs : Apart cs)
      (h : Spelled ls cs) : Spelled (.name n :: ls) (n.toList ++ cs)
  /-- A word that every normal form keeps, and values that have its capital letters. -/
  | word {w : List Char} (vs : List Value) {ls : List Leaf} {cs : List Char}
      (hw : ∀ c ∈ w, continues c = true) (hkept : Source.settle w = w)
      (hcapitals : ∀ f, (vs.map fun v => Leaf.capitals f (.value v)).sum = capitals w)
      (hcs : Apart cs) (h : Spelled ls cs) : Spelled (vs.map .value ++ ls) (w ++ cs)
  | mark {c : Char} (hc : c ∈ marks) {ls : List Leaf} {cs : List Char} (h : Spelled ls cs) :
      Spelled ls (c :: cs)
  | quoted (s : String) {ls : List Leaf} {cs : List Char} (h : Spelled ls cs) :
      Spelled (.value (.str s) :: ls) (Value.writeString s ++ cs)

/-! ### Normal forms -/

section Normal

open Source

variable {cs : List Char}

/-- Marks are kept, and code follows. -/
theorem normalizeFrom_mark {c : Char} (hc : c ∈ marks) (d : Nat) (w cs : List Char) :
    ∃ d', normalizeFrom (.code d) w (c :: cs)
      = settle w ++ c :: normalizeFrom (.code d') [] cs := by
  have hall : ∀ c ∈ marks, isWordChar c = false ∧ c ≠ '\n' ∧ c ≠ '#' ∧ c ≠ '\'' ∧ c ≠ '"' := by
    decide
  obtain ⟨hword, hbreak, hhash, hsingle, hdouble⟩ := hall c hc
  -- a bracket changes the depth, and no mark leaves the code
  have hzone : ∃ d', Zone.after d c = .code d' := by
    unfold Zone.after
    rw [if_neg (by simp [hsingle, hdouble]), if_neg hhash]
    split_ifs
    · exact ⟨_, rfl⟩
    · exact ⟨_, rfl⟩
    · exact ⟨_, rfl⟩
  obtain ⟨d', hd'⟩ := hzone
  refine ⟨d', ?_⟩
  rw [normalizeFrom_code hword hbreak hhash, hd']

/-- What was begun as a word is settled where the word ends. -/
theorem normalizeFrom_apart (hcs : Apart cs) (d : Nat) (w : List Char) :
    normalizeFrom (.code d) w cs = settle w ++ normalizeFrom (.code d) [] cs := by
  have hall : ∀ c ∈ marks, isWordChar c = false := by decide
  exact normalizeFrom_settle (fun c hc => hall c (hcs c hc)) d w

/-- What stands between quotation marks is kept. -/
theorem normalizeFrom_escape (d : Nat) (c : Char) :
    normalizeFrom (.quoted '\'' false d) [] (Value.escape c ++ cs)
      = Value.escape c ++ normalizeFrom (.quoted '\'' false d) [] cs := by
  unfold Value.escape
  split_ifs with hslash hquote hbreak htab hreturn
  · simp [normalizeFrom]
  · simp [normalizeFrom]
  · simp [normalizeFrom]
  · simp [normalizeFrom]
  · simp [normalizeFrom]
  · -- a character that is written as it is does not end the quoted text
    rw [List.singleton_append, normalizeFrom, if_neg (by decide), if_neg hslash,
      if_neg (by simp [hquote, hbreak])]
    rfl

/-- Quoted texts are kept. -/
theorem normalizeFrom_writeString (d : Nat) (s : String) :
    normalizeFrom (.code d) [] (Value.writeString s ++ cs)
      = Value.writeString s ++ normalizeFrom (.code d) [] cs := by
  -- by induction on the characters, each kept in the form in which it is written
  have hbody : ∀ ds : List Char, normalizeFrom (.quoted '\'' false d) []
      (ds.flatMap Value.escape ++ '\'' :: cs)
        = ds.flatMap Value.escape ++ '\'' :: normalizeFrom (.code d) [] cs := by
    intro ds
    induction ds with
    | nil => simp [normalizeFrom]
    | cons c ds ih =>
      rw [List.flatMap_cons, List.append_assoc, normalizeFrom_escape, ih, List.append_assoc]
  have htext : ∀ cs : List Char, Value.writeString s ++ cs
      = '\'' :: (s.toList.flatMap Value.escape ++ '\'' :: cs) := by
    intro cs
    simp [Value.writeString]
  have hword : isWordChar '\'' = false := by decide
  rw [htext, htext, normalizeFrom, if_neg (by simp [hword]), ← hbody]
  rfl

namespace Spelled

variable {ls : List Leaf}

/-- **Normalization keeps a text of whose names it keeps each.** -/
theorem normal (h : Spelled ls cs) (hkept : ∀ n, .name n ∈ ls → settle n.toList = n.toList)
    (d : Nat) : normalizeFrom (.code d) [] cs = cs := by
  -- the depth of brackets does not matter where there is no line break and no comment
  induction h generalizing d with
  | nil => rfl
  | name hn hcs _ ih =>
    have hrest := ih (fun n hn => hkept n (List.mem_cons_of_mem _ hn)) d
    rw [normalizeFrom_word hn.all, normalizeFrom_apart hcs, hrest, List.nil_append,
      hkept _ List.mem_cons_self]
  | word _ hw hword _ hcs _ ih =>
    have hrest := ih (fun n hn => hkept n (List.mem_append_right _ hn)) d
    rw [normalizeFrom_word hw, normalizeFrom_apart hcs, hrest, List.nil_append, hword]
  | mark hc _ ih =>
    obtain ⟨d', hd'⟩ := normalizeFrom_mark hc d [] _
    rw [hd', ih hkept d']
    rfl
  | quoted s _ ih =>
    have hrest := ih (fun n hn => hkept n (List.mem_cons_of_mem _ hn)) d
    rw [normalizeFrom_writeString, hrest]

theorem continues_settle {w : List Char} (hw : ∀ c ∈ w, continues c = true) :
    ∀ c ∈ settle w, continues c = true := by
  have hlowered : ∀ w ∈ lowered, w ∈ reservedWords := by decide
  unfold settle
  dsimp only
  split_ifs with hmem
  · exact continues_reservedWords _ (hlowered _ hmem)
  · exact hw

/-- Normalization does not put quotation marks behind words. -/
theorem head_normalizeFrom (hcs : Apart cs) (d : Nat) :
    ∀ c ∈ (normalizeFrom (.code d) [] cs).head?, c ≠ '\'' ∧ c ≠ '"' := by
  cases cs with
  | nil => rintro _ ⟨⟩
  | cons c cs =>
    have hall : ∀ c ∈ marks, c ≠ '\'' ∧ c ≠ '"' := by decide
    obtain ⟨d', hd'⟩ := normalizeFrom_mark (hcs c rfl) d [] cs
    rw [hd']
    rintro _ ⟨⟩
    exact hall c (hcs c rfl)

/-- **The normal form is code**, with the capital letters of the settled leaves outside quotes. -/
theorem code (h : Spelled ls cs) (d : Nat) :
    Code (ls.map (Leaf.capitals settle)).sum (normalizeFrom (.code d) [] cs) := by
  induction h generalizing d with
  | nil => exact .nil
  | name hn hcs _ ih =>
    -- a name is settled, and its capital letters are counted as settled
    rw [normalizeFrom_word hn.all, normalizeFrom_apart hcs, List.map_cons, List.sum_cons]
    exact .word (continues_settle hn.all) (head_normalizeFrom hcs d) (ih d)
  | @word w vs ls cs hw hword hcapitals hcs _ ih =>
    -- the word has the capital letters of its values, however they are settled
    have hsum : ((vs.map Leaf.value ++ ls).map (Leaf.capitals settle)).sum
        = capitals w + (ls.map (Leaf.capitals settle)).sum := by
      rw [List.map_append, List.sum_append, List.map_map, ← hcapitals settle]
      rfl
    rw [normalizeFrom_word hw, normalizeFrom_apart hcs, List.nil_append, hword, hsum]
    exact .word hw (head_normalizeFrom hcs d) (ih d)
  | @mark c hc ls cs _ ih =>
    -- marks have no capital letters
    have hall : ∀ c ∈ marks, c ∉ ['\'', '"', '#', '\\', '\t', '\r'] ∧ continues c = false ∧
        capitals [c] = 0 := by decide
    obtain ⟨hne, hcontinues, hcapitals⟩ := hall c hc
    obtain ⟨d', hd'⟩ := normalizeFrom_mark hc d [] cs
    have hcode := Code.char hne (by simp [hcontinues]) (ih d')
    rw [hcapitals, Nat.zero_add] at hcode
    rw [hd']
    exact hcode
  | quoted s _ ih =>
    rw [normalizeFrom_writeString, List.map_cons, List.sum_cons]
    have hcode := Code.quoted s (ih d)
    rwa [← Nat.zero_add (List.sum _)] at hcode

end Spelled

end Normal

/-! ### Written values -/

namespace Spelled

variable {ls : List Leaf} {cs : List Char}

/-- A word without capital letters that belongs to no leaf. -/
theorem plain {w : List Char} (hw : ∀ c ∈ w, continues c = true) (hkept : Source.settle w = w)
    (hcapitals : capitals w = 0) (hcs : Apart cs) (h : Spelled ls cs) : Spelled ls (w ++ cs) :=
  .word [] hw hkept (fun _ => hcapitals.symm) hcs h

/-- A leaf without words of its own. -/
theorem silent {v : Value} (hv : ∀ f, Leaf.capitals f (.value v) = 0) (hcs : Apart cs)
    (h : Spelled ls cs) : Spelled (.value v :: ls) cs := by
  have hsum : ∀ f, ([v].map fun v => Leaf.capitals f (.value v)).sum = capitals [] := by
    intro f
    rw [List.map_singleton, List.sum_singleton, hv]
    rfl
  exact .word [v] (w := []) (by simp) rfl hsum hcs h

theorem settle_numeric {w : List Char} (hw : ∀ c ∈ w, c ∈ numeric) :
    Source.settle w = w := by
  have hfirst : ∀ u ∈ Source.lowered, ¬ ∀ x ∈ u, x ∉ ['a', 'o', 'n'] := by decide
  have hlower : ∀ c ∈ numeric, c.toLower ∉ ['a', 'o', 'n'] := by decide
  unfold Source.settle
  dsimp only
  refine if_neg fun hmem => hfirst _ hmem fun x hx => ?_
  obtain ⟨c, hc, rfl⟩ := List.mem_map.mp hx
  exact hlower c (hw c hc)

/-- Numbers are made of words that belong to no leaf, and of marks. -/
theorem number {t : List Char} (ht : ∀ c ∈ t, c ∈ numeric) (hcs : Apart cs)
    (h : Spelled ls cs) : Spelled ls (t ++ cs) := by
  have hcapitals : ∀ w : List Char, (∀ c ∈ w, c ∈ numeric) → capitals w = 0 := by
    have hall : ∀ c ∈ numeric, ¬ c.isUpper = true := by decide
    exact fun w hw => List.countP_eq_zero.mpr fun c hc => hall c (hw c hc)
  have hcases : ∀ c ∈ numeric, continues c = true ∨ c ∈ marks := by decide
  -- the word that the text goes on with is put in front
  suffices hword : ∀ w : List Char, (∀ c ∈ w, c ∈ numeric) →
      (∀ c ∈ w, continues c = true) → Spelled ls (w ++ (t ++ cs)) from hword [] (by simp) (by simp)
  induction t with
  | nil => exact fun w hw hcontinues => .plain hcontinues (settle_numeric hw) (hcapitals w hw) hcs h
  | cons c t ih =>
    obtain ⟨hc, ht⟩ := List.forall_mem_cons.mp ht
    intro w hw hcontinues
    rcases hcases c hc with hword | hmark
    · have hlonger := ih ht (w ++ [c])
        (List.forall_mem_append.mpr ⟨hw, List.forall_mem_singleton.mpr hc⟩)
        (List.forall_mem_append.mpr ⟨hcontinues, List.forall_mem_singleton.mpr hword⟩)
      rwa [List.append_assoc] at hlonger
    · have hrest : Spelled ls (c :: (t ++ cs)) := .mark hmark (ih ht [] (by simp) (by simp))
      exact .plain hcontinues (settle_numeric hw) (hcapitals w hw) (apart_cons hmark _) hrest

theorem int (n : Int64) (hcs : Apart cs) (h : Spelled ls cs) :
    Spelled (.value (.int n) :: ls) ((Value.int n).write ++ cs) := by
  have hdigits : ∀ c ∈ Nat.toDigits 10 n.toInt.natAbs, c ∈ numeric :=
    fun c hc => mem_numeric_of_isDigit (isDigit_toDigits _ c hc)
  refine .number ?_ hcs (.silent (fun _ => rfl) hcs h)
  rw [Value.write, Json.writeInt]
  split_ifs
  · exact List.forall_mem_cons.mpr ⟨by decide, hdigits⟩
  · exact hdigits

theorem float {x : Double} (hx : x.isFinite = true) (hcs : Apart cs) (h : Spelled ls cs) :
    Spelled (.value (.float x) :: ls) ((Value.float x).write ++ cs) := by
  obtain ⟨n, hn, hwrite, -⟩ := Draft.readFloat?_writeSize hx
  have hsize := Numeral.mem_numeric hn
  rw [hwrite] at hsize
  refine .number ?_ hcs (.silent (fun _ => rfl) hcs h)
  rw [Value.write, DecimalStyle.toList_write _ hx]
  split_ifs
  · exact List.forall_mem_cons.mpr ⟨by decide, hsize⟩
  · exact hsize

/-- The literals that are words. -/
theorem literal {v : Value} (hv : v = .none ∨ ∃ b, v = .bool b) (hcs : Apart cs)
    (h : Spelled ls cs) : Spelled (.value v :: ls) (v.write ++ cs) := by
  have hword : (∀ c ∈ v.write, continues c = true) ∧ Source.settle v.write = v.write ∧
      capitals v.write = 1 ∧ ∀ f, Leaf.capitals f (.value v) = 1 := by
    rcases hv with rfl | ⟨b, rfl⟩
    · exact ⟨by decide, by decide, by decide, fun _ => rfl⟩
    · cases b
      · exact ⟨by decide, by decide, by decide, fun _ => rfl⟩
      · exact ⟨by decide, by decide, by decide, fun _ => rfl⟩
  obtain ⟨hcontinues, hkept, hcapitals, hleaf⟩ := hword
  refine .word [v] hcontinues hkept (fun f => ?_) hcs h
  rw [List.map_singleton, List.sum_singleton, hleaf, hcapitals]

end Spelled

mutual

/-- **A written value is spelled from its leaves.** -/
theorem spelled_value {ls : List Leaf} {cs : List Char} (hcs : Apart cs) (h : Spelled ls cs) :
    ∀ v : Value, v.Readable → Spelled (v.leaves.map Value.leaf ++ ls) (v.write ++ cs)
  | .none, _ => .literal (.inl rfl) hcs h
  | .bool b, _ => .literal (.inr ⟨b, rfl⟩) hcs h
  | .int n, _ => .int n hcs h
  | .float x, hv => by
    cases hv with
    | float hx => exact .float hx hcs h
  | .str s, _ => .quoted s h
  | .list vs, hv => by
    cases hv with
    | list hvs =>
      -- the brackets are marks around the items
      have hitems := spelled_items (.mark (c := ']') (by decide) h) (apart_cons (by decide) cs) vs hvs
      have htext : (Value.list vs).write ++ cs = '[' :: (Value.writeItems vs ++ ']' :: cs) := by
        simp [Value.write]
      rw [htext]
      exact .mark (by decide) hitems
  | .context c, hv => by
    cases hv with
    | context hc => exact .name hc.word hcs h

theorem spelled_items {ls : List Leaf} {cs : List Char} (h : Spelled ls cs) (hcs : Apart cs) :
    ∀ vs : List Value, (∀ v ∈ vs, v.Readable) →
      Spelled ((Value.leavesOfEach vs).map Value.leaf ++ ls) (Value.writeItems vs ++ cs)
  | [], _ => h
  | [v], hvs => by
    rw [Value.leavesOfEach, Value.leavesOfEach, List.append_nil]
    exact spelled_value hcs h v (hvs v List.mem_cons_self)
  | v :: w :: vs, hvs => by
    obtain ⟨hv, hvs⟩ := List.forall_mem_cons.mp hvs
    -- a comma and a blank between two items
    have hrest : Spelled ((Value.leavesOfEach (w :: vs)).map Value.leaf ++ ls)
        (',' :: ' ' :: (Value.writeItems (w :: vs) ++ cs)) :=
      .mark (by decide) (.mark (by decide) (spelled_items h hcs (w :: vs) hvs))
    have htext : Value.writeItems (v :: w :: vs) ++ cs
        = v.write ++ ',' :: ' ' :: (Value.writeItems (w :: vs) ++ cs) := by
      simp [Value.writeItems]
    rw [htext, Value.leavesOfEach, List.map_append, List.append_assoc]
    exact spelled_value (apart_cons (by decide) _) hrest v hv

end

/-! ### Written queries -/

/-- **A written call is spelled from its leaves.** -/
theorem spelled_call {ls : List Leaf} {cs : List Char} {c : Call} (hc : c.Readable)
    (h : Spelled ls cs) : Spelled (c.leaves ++ ls) (c.write ++ cs) := by
  have hitems := spelled_items (.mark (c := ')') (by decide) h) (apart_cons (by decide) cs)
    c.arguments hc.arguments
  have htext : c.write ++ cs
      = c.function.toList ++ '(' :: (Value.writeItems c.arguments ++ ')' :: cs) := by
    simp [Call.write]
  rw [htext]
  exact .name hc.name.word (apart_cons (by decide) _) (.mark (by decide) hitems)

/-- The words between operands. -/
theorem spelled_operator {ls : List Leaf} {cs w : List Char} (hw : w ∈ Source.lowered)
    (h : Spelled ls cs) : Spelled ls (w ++ ' ' :: cs) := by
  have hall : ∀ w ∈ Source.lowered, (∀ c ∈ w, continues c = true) ∧ Source.settle w = w ∧
      capitals w = 0 := by decide
  obtain ⟨hcontinues, hkept, hcapitals⟩ := hall w hw
  exact .plain hcontinues hkept hcapitals (apart_cons (by decide) cs) (.mark (by decide) h)

/-- A condition in parentheses or not. -/
theorem spelled_operand {ls : List Leaf} {cs : List Char} {c : Condition}
    (hc : ∀ {ls cs}, Spelled ls cs → Spelled (c.leaves ++ ls) (c.write ++ cs))
    (h : Spelled ls cs) : Spelled (c.leaves ++ ls) (c.writeOperand ++ cs) := by
  unfold Condition.writeOperand Condition.parenthesized
  split_ifs
  · have htext : '(' :: (c.write ++ [')']) ++ cs = '(' :: (c.write ++ ')' :: cs) := by simp
    rw [htext]
    exact .mark (by decide) (hc (.mark (by decide) h))
  · exact hc h

theorem spelled_further {ls : List Leaf} {cs w : List Char} (hw : w ∈ Source.lowered)
    {ds : List Condition} (hds : ∀ d ∈ ds, ∀ {ls cs}, Spelled ls cs →
      Spelled (d.leaves ++ ls) (d.write ++ cs)) (h : Spelled ls cs) :
    Spelled (Condition.leavesOfEach ds ++ ls) (Condition.writeFurther w ds ++ cs) := by
  induction ds with
  | nil => exact h
  | cons d ds ih =>
    obtain ⟨hd, hds⟩ := List.forall_mem_cons.mp hds
    have hrest := spelled_operand hd (ih hds)
    -- each further operand stands behind a blank, the word and a blank
    have htext : Condition.writeFurther w (d :: ds) ++ cs
        = ' ' :: (w ++ ' ' :: (d.writeOperand ++ (Condition.writeFurther w ds ++ cs))) := by
      rw [Condition.writeFurther, List.flatMap_cons, ← Condition.writeFurther]
      simp
    rw [htext, Condition.leavesOfEach, List.append_assoc]
    exact .mark (by decide) (spelled_operator hw hrest)

/-- A chain of operands with a word between them. -/
theorem spelled_chain {ls : List Leaf} {cs w : List Char} (hw : w ∈ Source.lowered)
    {ds : List Condition} (hne : ds ≠ []) (hds : ∀ d ∈ ds, ∀ {ls cs}, Spelled ls cs →
      Spelled (d.leaves ++ ls) (d.write ++ cs)) (h : Spelled ls cs) :
    Spelled (Condition.leavesOfEach ds ++ ls)
      (Condition.writeOperands (' ' :: (w ++ [' '])) ds ++ cs) := by
  obtain ⟨d, ds, rfl⟩ := List.exists_cons_of_ne_nil hne
  obtain ⟨hd, hds⟩ := List.forall_mem_cons.mp hds
  rw [Condition.writeOperands_cons, Condition.leavesOfEach, List.append_assoc, List.append_assoc]
  exact spelled_operand hd (spelled_further hw hds h)

/-- **A written condition is spelled from its leaves.** -/
theorem spelled_condition {c : Condition} (hc : c.Built Call.Readable) :
    ∀ {ls cs}, Spelled ls cs → Spelled (c.leaves ++ ls) (c.write ++ cs) := by
  -- a chain has a first operand
  have hne : ∀ {cs : List Condition}, 2 ≤ cs.length → cs ≠ [] := by
    rintro _ hmany rfl
    exact absurd hmany (by decide)
  induction hc with
  | all hmany _ ih =>
    intro ls cs h
    rw [Condition.leaves, Condition.write]
    exact spelled_chain (w := "and".toList) (by decide) (hne hmany) ih h
  | any hmany _ ih =>
    intro ls cs h
    rw [Condition.leaves, Condition.write]
    exact spelled_chain (w := "or".toList) (by decide) (hne hmany) ih h
  | @not c _ ih =>
    intro ls cs h
    have htext : (Condition.not c).write ++ cs
        = "not".toList ++ ' ' :: (c.writeOperand ++ cs) := by
      rw [Condition.write]
      simp [Condition.writeOperand]
    rw [Condition.leaves, htext]
    exact spelled_operator (by decide) (spelled_operand ih h)
  | call hc =>
    intro ls cs h
    exact spelled_call hc h

end Render

/-- The text of a condition of readable calls is spelled from its leaves. -/
theorem Condition.Built.spelled {c : Condition} (hc : c.Built Call.Readable) :
    Render.Spelled c.leaves c.write := by
  have h := Render.spelled_condition hc .nil
  rwa [List.append_nil, List.append_nil] at h

/-- The text of a readable call is spelled from its leaves. -/
theorem Call.Readable.spelled {c : Call} (hc : c.Readable) : Render.Spelled c.leaves c.write := by
  have h := Render.spelled_call hc .nil
  rwa [List.append_nil, List.append_nil] at h

end CatalogQuery
