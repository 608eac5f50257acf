import CatalogQuery.Proofs.Draft.Leaves
import CatalogQuery.Proofs.Grammar.Literals

/-!
# Capital letters outside quotes

Reading an expression uses up text, and what is read of a name or of a literal that is a word takes
its capital letters with it. `Code k cs` says that the text `cs` begins outside quotes and has `k`
capital letters there. The atoms that are read from such a text have no more capital letters than
the text has lost (`Reads.spends`): an atom with a capital letter has it from a place outside
quotes, and no two atoms have it from the same.
-/

namespace CatalogQuery

open Grammar

/-- The number of capital letters of a text. -/
def capitals (cs : List Char) : Nat := cs.countP Char.isUpper

theorem capitals_append (cs cs' : List Char) : capitals (cs ++ cs') = capitals cs + capitals cs' :=
  List.countP_append

namespace Grammar

/-! ### Text outside quotes -/

/-- A text that begins outside quotes, without comments, and the number of capital letters there.
A quoted text in it is as `Value.writeString` writes it, and no word stands right before it. -/
inductive Code : Nat → List Char → Prop where
  | nil : Code 0 []
  | char {c : Char} {k : Nat} {cs : List Char} (hc : c ∉ ['\'', '"', '#', '\\', '\t', '\r'])
      (hquote : continues c = true → ∀ d ∈ cs.head?, d ≠ '\'' ∧ d ≠ '"') (h : Code k cs) :
      Code (capitals [c] + k) (c :: cs)
  | quoted (s : String) {k : Nat} {cs : List Char} (h : Code k cs) :
      Code k (Value.writeString s ++ cs)

namespace Code

variable {k : Nat} {cs cs' : List Char}

/-- Blanks may be skipped. -/
theorem skipped (h : Code k cs) : Code k (skipped cs) := by
  induction h with
  | nil => exact .nil
  | @char c k cs hc hquote h ih =>
    -- a blank is the only character of code that is skipped
    by_cases hblank : c = ' '
    · subst hblank
      rw [skipped_blank, show capitals [' '] + k = k from Nat.zero_add k]
      exact ih
    · have hsolid : Solid c := by
        simp only [Solid, List.mem_cons, List.not_mem_nil, or_false, not_or] at hc ⊢
        exact ⟨hblank, hc.2.2.2.2.1, hc.2.2.2.2.2, hc.2.2.1, hc.2.2.2.1⟩
      rw [skipped_cons hsolid]
      exact .char hc hquote h
  | quoted s h =>
    have hsolid : Solid '\'' := by decide
    rw [show Value.writeString s ++ _ = '\'' :: _ from rfl, skipped_cons hsolid]
    exact .quoted s h

theorem skip {c : Cursor} (m : Mode) (h : Code k c.rest) : Code k (c.skip m).rest := by
  rw [Cursor.skip_rest, Mode.next]
  split
  · exact h.skipped
  · exact h

/-- A text without quotes may be passed over; its capital letters are gone. -/
theorem drop {w : List Char} (hw : ∀ c ∈ w, c ≠ '\'') (h : Code k (w ++ cs)) :
    ∃ k', Code k' cs ∧ capitals w + k' = k := by
  induction w generalizing k with
  | nil => exact ⟨k, h, Nat.zero_add k⟩
  | cons c w ih =>
    obtain ⟨hc, hw⟩ := List.forall_mem_cons.mp hw
    generalize htext : c :: w ++ cs = text at h
    cases h with
    | nil => cases htext
    | @char d k cs' _ _ h =>
      cases htext
      obtain ⟨k', hk', heq⟩ := ih hw h
      refine ⟨k', hk', ?_⟩
      rw [show c :: w = [c] ++ w from rfl, capitals_append, Nat.add_assoc, heq]
    | quoted s h =>
      -- a quoted text would begin with a quotation mark
      have hhead := congrArg List.head? htext
      cases hhead
      exact absurd rfl hc

/-- Where no quoted text begins, no quotation mark follows letters. -/
theorem unquoted (h : Code k cs) (hcs : ∀ c ∈ cs.head?, c ≠ '\'') : Unquoted cs := by
  induction h with
  | nil =>
    rintro u v heq _ c hc
    obtain ⟨-, rfl⟩ := List.append_eq_nil_iff.mp heq.symm
    cases hc
  | @char c k cs hc hquote _ ih =>
    intro u v heq hu d hd
    -- without letters the mark would be the first character itself; letters are followed by none
    cases u with
    | nil =>
      obtain rfl : c :: cs = v := heq
      cases hd
      simp only [List.mem_cons, not_or] at hc
      exact ⟨hc.1, hc.2.1⟩
    | cons x u =>
      obtain ⟨rfl, rfl⟩ := List.cons.inj heq
      obtain ⟨hx, hu⟩ := List.forall_mem_cons.mp hu
      exact ih (fun y hy => (hquote hx y hy).1) u v rfl hu d hd
  | quoted => exact absurd rfl (hcs '\'' rfl)

/-- A word in front of code is code. -/
theorem word {w : List Char} (hw : ∀ c ∈ w, continues c = true)
    (hcs : ∀ c ∈ cs.head?, c ≠ '\'' ∧ c ≠ '"') (h : Code k cs) :
    Code (capitals w + k) (w ++ cs) := by
  have hall : ∀ d ∈ ['\'', '"', '#', '\\', '\t', '\r'], continues d = false := by decide
  induction w with
  | nil => rwa [show capitals [] + k = k from Nat.zero_add k]
  | cons c w ih =>
    obtain ⟨hc, hw⟩ := List.forall_mem_cons.mp hw
    rw [show c :: w = [c] ++ w from rfl, capitals_append, Nat.add_assoc]
    refine .char ?_ ?_ (ih hw)
    · intro hmem
      rw [hall c hmem] at hc
      cases hc
    · intro _ d hd
      -- behind the last letter stands the code, behind the others a letter
      cases w with
      | nil => exact hcs d hd
      | cons x w =>
        cases hd
        have hx := hw _ List.mem_cons_self
        constructor
        · rintro rfl
          cases hx
        · rintro rfl
          cases hx

end Code

/-! ### Quoted texts -/

/-- A string is read from code as a whole, and code follows. -/
theorem Reads.string_code {m : Mode} (hm : m.records = true) {c c' : Cursor} {ts : List ParseTree}
    {k : Nat} (h : Reads m (.rule .string) c (some (c', ts))) (hk : Code k c.rest) :
    Code k c'.rest := by
  obtain ⟨cs, o⟩ := c
  by_cases hquote : ∀ x ∈ cs.head?, x ≠ '\''
  · -- no mark begins the text, so that no string is read
    cases h.unique (string_refuses (hk.unquoted hquote) o)
  · replace hk : Code k cs := hk
    cases hk with
    | nil => exact absurd (by rintro _ ⟨⟩) hquote
    | char hc =>
      refine absurd ?_ hquote
      rintro _ ⟨⟩ rfl
      exact hc (by simp)
    | @quoted s _ cs h' =>
      -- the quoted text that stands there is the string that is read
      obtain ⟨o', us, hreads, -⟩ := string_matches hm s cs o
      cases h.unique hreads
      exact h'

/-- No formatted string is read from code. -/
theorem Code.refuses_formatted {m : Mode} {k : Nat} {cs : List Char} (h : Code k cs) :
    Refuses m (.rule .formatted) cs := by
  by_cases hquote : ∀ x ∈ cs.head?, x ≠ '\''
  · exact formatted_refuses (h.unquoted hquote)
  · -- a formatted string begins with a letter
    have hhead : ∀ x ∈ cs.head?, x = '\'' := by
      cases cs with
      | nil => exact absurd (by rintro _ ⟨⟩) hquote
      | cons x cs =>
        rintro _ ⟨⟩
        by_contra hne
        exact hquote (by rintro _ ⟨⟩; exact hne)
    exact refuses_of_head 3 (by decide) (by decide) fun x hx => by
      rw [hhead x hx]
      exact ⟨fun _ => by decide, by decide⟩

end Grammar

/-! ### What reading spends -/

namespace Grammar

/-- The capital letters that an atom takes from the text. -/
def ParseTree.atomCapitals (t : ParseTree) : Nat :=
  match t.rule with
  | .ident => capitals t.text
  | .trueLit | .falseLit | .noneLit => 1
  | _ => 0

/-- The capital letters that the atoms of a tree take. -/
def ParseTree.capitals (t : ParseTree) : Nat := (t.atoms.map ParseTree.atomCapitals).sum

/-- The capital letters that the atoms of several trees take. -/
def ParseTree.capitalsOfEach (ts : List ParseTree) : Nat :=
  ((ParseTree.atomsOfEach ts).map ParseTree.atomCapitals).sum

theorem ParseTree.capitalsOfEach_append (ts us : List ParseTree) :
    capitalsOfEach (ts ++ us) = capitalsOfEach ts + capitalsOfEach us := by
  rw [capitalsOfEach, atomsOfEach_eq, List.flatMap_append, List.map_append, List.sum_append,
    capitalsOfEach, capitalsOfEach, atomsOfEach_eq, atomsOfEach_eq]

theorem ParseTree.capitalsOfEach_singleton (t : ParseTree) : capitalsOfEach [t] = t.capitals := by
  rw [capitalsOfEach, capitals, atomsOfEach, atomsOfEach, List.append_nil]

/-- The rules that stand outside quotes. A program is none of them, since it may be an import, which
holds anything. -/
def Rule.inCode : Rule → Bool
  | .program | .importStmt | .stringMark | .doubleQuoted | .singleQuoted | .doubleBody
  | .singleBody => false
  | _ => true

/-- The expression stands outside quotes, and it names rules only where nodes are recorded. -/
def Expr.inCode (records : Bool) : Expr → Bool
  | .nothing | .atEnd | .absent _ => true
  | .text t => t.all (· != '\'')
  | .anyCase _ => false
  | .char k => k != .any
  | .rule r => records && r.inCode
  | .seq a b | .choice a b => a.inCode records && b.inCode records
  | .optional a | .many a | .more a => a.inCode records

theorem inCode_body {r : Rule} (hr : r.inCode = true) (hstring : r ≠ .string)
    (hformatted : r ≠ .formatted) {m : Mode} (hm : m.records = true) :
    r.body.inCode (m.inside r.flavor).records = true := by
  have hrecords : (m.inside r.flavor).records = (r.flavor != .token) := by
    cases r.flavor <;> simp [Mode.inside, hm]
  rw [hrecords]
  cases r <;> first | decide | exact absurd rfl hstring | exact absurd rfl hformatted | cases hr

/-- No class but that of all characters has a quotation mark. -/
theorem ne_quote_of_holds {k : CharClass} {c : Char} (hk : k ≠ .any) (hc : k.holds c = true) :
    c ≠ '\'' := by
  rintro rfl
  cases k with
  | any => exact hk rfl
  | digit | letter | alphanumeric => cases hc

/-- What the node of a rule takes, if it is not what its parts take. -/
theorem Reads.node_capitals {m : Mode} {r : Rule} {c c' : Cursor} {ts : List ParseTree} {k : Nat}
    (h : Reads (m.inside r.flavor) r.body c (some (c', ts))) (hk : Code k c.rest)
    (hr : r ∈ [Rule.ident, .trueLit, .falseLit, .noneLit]) :
    ∃ k', Code k' c'.rest ∧ (c.nodeTo c' r ts).capitals + k' = k := by
  -- a name or a reserved word, which is read as a whole
  have hword : ∃ w, c.rest = w ++ c'.rest ∧ (∀ x ∈ w, continues x = true) ∧
      (c.nodeTo c' r ts).capitals = CatalogQuery.capitals w := by
    have hflavor : ∀ r ∈ [Rule.ident, .trueLit, .falseLit, .noneLit], r.flavor = .token := by decide
    rw [hflavor r hr] at h
    simp only [List.mem_cons, List.not_mem_nil, or_false] at hr
    rcases hr with rfl | rfl | rfl | rfl
    · obtain ⟨w, hw, hword, -⟩ := h.of_ident
      refine ⟨w, hw, hword.all, ?_⟩
      show CatalogQuery.capitals (c.textTo c') + 0 = CatalogQuery.capitals w
      rw [Cursor.textTo_eq hw, Nat.add_zero]
    · exact ⟨_, h.of_word rfl, by decide, rfl⟩
    · exact ⟨_, h.of_word rfl, by decide, rfl⟩
    · exact ⟨_, h.of_word rfl, by decide, rfl⟩
  obtain ⟨w, hw, hcontinues, hcapitals⟩ := hword
  rw [hw] at hk
  -- word characters are passed over with their capital letters
  obtain ⟨k', hk', heq⟩ := hk.drop fun x hx => by
    rintro rfl
    cases hcontinues _ hx
  exact ⟨k', hk', by rw [hcapitals, heq]⟩

/-- The atoms of a node that is no word are those of its parts, or one that takes nothing. -/
theorem capitals_node_le {r : Rule} (hr : r ∉ [Rule.ident, .trueLit, .falseLit, .noneLit])
    (b e : Nat) (text : List Char) (ts : List ParseTree) :
    (ParseTree.node r b e text ts).capitals ≤ ParseTree.capitalsOfEach ts := by
  rw [ParseTree.capitals, ParseTree.atoms]
  split
  · cases r <;> first | exact Nat.zero_le _ | exact absurd (by decide) hr
  · exact Nat.le_refl _

/-- Text outside quotes in which no node is found takes nothing. -/
theorem spends_text {w rest : List Char} {k : Nat} (hw : ∀ x ∈ w, x ≠ '\'')
    (hk : Code k (w ++ rest)) :
    ∃ k', Code k' rest ∧ ParseTree.capitalsOfEach [] + k' ≤ k := by
  obtain ⟨k', hk', heq⟩ := hk.drop hw
  refine ⟨k', hk', ?_⟩
  show 0 + k' ≤ k
  omega

/-- The second of two parts takes its letters from what the first one left. -/
theorem spends_append {us vs : List ParseTree} {rest : List Char} {k k₁ : Nat}
    (hfirst : ParseTree.capitalsOfEach us + k₁ ≤ k)
    (hsecond : ∃ k₂, Code k₂ rest ∧ ParseTree.capitalsOfEach vs + k₂ ≤ k₁) :
    ∃ k₂, Code k₂ rest ∧ ParseTree.capitalsOfEach (us ++ vs) + k₂ ≤ k := by
  obtain ⟨k₂, hk₂, hle⟩ := hsecond
  rw [ParseTree.capitalsOfEach_append]
  exact ⟨k₂, hk₂, by omega⟩

/-- **Atoms take their capital letters from outside quotes**, each from its own place. -/
theorem Reads.spends {m : Mode} {e : Expr} {c c' : Cursor} {ts : List ParseTree}
    (h : Reads m e c (some (c', ts))) (he : e.inCode m.records = true) {k : Nat}
    (hk : Code k c.rest) :
    ∃ k', Code k' c'.rest ∧ ParseTree.capitalsOfEach ts + k' ≤ k := by
  generalize ho : some (c', ts) = o at h
  -- what is left is code again, so that the next part of a sequence starts from code
  induction h generalizing c' ts k with
  | nothing | atEnd | optional_none | many_none | more_none | absent =>
    cases ho
    exact ⟨k, hk, Nat.le_of_eq (Nat.zero_add k)⟩
  | text h =>
    cases ho
    exact spends_text (fun x hx => by simpa using List.all_eq_true.mp he x hx) (h ▸ hk)
  | anyCase => cases he
  | @char m c cls x rest h hx =>
    cases ho
    have hne : x ≠ '\'' := ne_quote_of_holds (by simpa [Expr.inCode] using he) hx
    rw [h] at hk
    exact spends_text (w := [x]) (List.forall_mem_singleton.mpr hne) hk
  | @node m c c' r ts hm h ih =>
    cases ho
    have hr : r.inCode = true := by
      rw [Expr.inCode, hm] at he
      exact he
    rw [ParseTree.capitalsOfEach_singleton]
    -- the node of a word takes its own text, which is not recorded in parts
    by_cases hword : r ∈ [Rule.ident, .trueLit, .falseLit, .noneLit]
    · obtain ⟨k', hk', heq⟩ := h.node_capitals hk hword
      exact ⟨k', hk', Nat.le_of_eq heq⟩
    · have hnode := capitals_node_le hword c.offset c'.offset (c.textTo c') ts
      -- inside quotes the text is not code, so that a string is passed over as a whole
      by_cases hstring : r = .string
      · subst hstring
        exact ⟨k, Reads.string_code hm (.node hm h) hk, Nat.le_of_eq (Nat.zero_add k)⟩
      · have hformatted : r ≠ .formatted := by
          rintro rfl
          obtain ⟨cs, o⟩ := c
          cases (Reads.node hm h).unique (hk.refuses_formatted o)
        obtain ⟨k', hk', hle⟩ := ih (inCode_body hr hstring hformatted hm) hk rfl
        exact ⟨k', hk', Nat.le_trans (Nat.add_le_add_right hnode k') hle⟩
  | bare hm =>
    rw [Expr.inCode, hm] at he
    cases he
  | @seq m c c₁ c₂ a b us vs _ _ iha ihb =>
    cases ho
    obtain ⟨ha, hb⟩ := Bool.and_eq_true_iff.mp he
    obtain ⟨k₁, hk₁, hle⟩ := iha ha hk rfl
    exact spends_append hle (ihb hb (hk₁.skip m) rfl)
  | choice_left _ iha => exact iha (Bool.and_eq_true_iff.mp he).1 hk ho
  | choice_right _ _ _ ihb => exact ihb (Bool.and_eq_true_iff.mp he).2 hk ho
  | optional_some _ iha => exact iha he hk ho
  | many_some _ _ iha ihmore =>
    cases ho
    obtain ⟨k₁, hk₁, hle⟩ := iha he hk rfl
    exact spends_append hle (ihmore he hk₁ rfl)
  | @more_some m _ _ _ _ _ _ _ _ iha ihmore =>
    cases ho
    obtain ⟨k₁, hk₁, hle⟩ := iha he (hk.skip m) rfl
    exact spends_append hle (ihmore he hk₁ rfl)
  | atEnd_fails | text_fails | anyCase_fails | char_fails | rule_fails | seq_fails_left
  | seq_fails_right | absent_fails => cases ho

/-! ### Statements -/

/-- The statement of a program takes no more capital letters than there are outside quotes. -/
theorem Reads.program_capitals {c c' : Cursor} {ts : List ParseTree} {t : ParseTree} {k : Nat}
    (h : Reads .spaced Rule.program.body c (some (c', ts))) (hk : Code k c.rest)
    (hts : ts.filter (·.rule != .endOfInput) = [t]) (ht : t.rule = .exprStmt) :
    t.capitals ≤ k := by
  have hskip : ∀ c : Cursor, (∃ k' ≤ k, Code k' c.rest) → ∃ k' ≤ k, Code k' (c.skip .spaced).rest :=
    fun c ⟨k', hle, hk'⟩ => ⟨k', hle, hk'.skip .spaced⟩
  -- what stands around the statement only takes letters away
  have hseparators : ∀ (c c' : Cursor) (us : List ParseTree),
      Reads .spaced (.many separator) c (some (c', us)) → (∃ k' ≤ k, Code k' c.rest) →
        ∃ k' ≤ k, Code k' c'.rest := by
    rintro c c' us h ⟨k', hle, hk'⟩
    obtain ⟨k'', hk'', hle'⟩ := h.spends (by decide) hk'
    exact ⟨k'', by omega, hk''⟩
  obtain ⟨c₁, c₂, ⟨k', hle, hk'⟩, hreads⟩ :=
    h.program_statement hskip hseparators ⟨k, Nat.le_refl k, hk⟩ hts ht
  obtain ⟨k'', -, hle'⟩ := hreads.spends (by decide) hk'
  rw [ParseTree.capitalsOfEach_singleton] at hle'
  omega

end Grammar

/-- **The statement of a code text** takes no more capital letters than the text has outside
quotes. -/
theorem Source.statement_capitals_le {source : String} {cs : List Char} {t : ParseTree} {k : Nat}
    (h : Source.statement source cs = .ok t) (hk : Code k cs) : t.capitals ≤ k := by
  obtain ⟨tree, hparse, hfilter, hrule⟩ := Source.statement_ok h
  obtain ⟨c', hreads⟩ := parse_eq_ok_iff.mp hparse
  cases hreads with
  | bare hm => cases hm
  | node _ hbody => exact Reads.program_capitals hbody hk hfilter hrule

end CatalogQuery
