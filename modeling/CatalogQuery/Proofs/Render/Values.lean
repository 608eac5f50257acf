import CatalogQuery.Proofs.Render.Shown

/-!
# Written values are matched

A `Readable` value is one that a source can hold: its integers have a negative, its floating-point
numbers are finite and its contexts have names. Its text, before a comma, a closing bracket or the
end, is matched as an operand that shows the value (`Value.signed_matches`, `Value.expr_matches`).
-/

namespace CatalogQuery

open Grammar

/-- A value that a source can hold. -/
inductive Value.Readable : Value → Prop where
  | none : Readable .none
  | bool (b : Bool) : Readable (.bool b)
  | int {n : Int64} (hn : n ≠ Int64.minValue) : Readable (.int n)
  | float {x : Double} (hx : x.isFinite = true) : Readable (.float x)
  | str (s : String) : Readable (.str s)
  | list {vs : List Value} (h : ∀ v ∈ vs, v.Readable) : Readable (.list vs)
  | context {c : Context} (hc : IsName c.name) : Readable (.context c)

namespace Grammar

/-! ### Atoms -/

section Atoms

variable {m : Mode} {cs r w rest ds : List Char} {P : List ParseTree → Prop}

/-- No bracket opens there. -/
def Unbracketed (cs : List Char) : Prop := ∀ c ∈ cs.head?, c ≠ '(' ∧ c ≠ '[' ∧ c ≠ '\x7b'

theorem atom_of_literal (hcs : Unbracketed cs) (h : Matches m literal cs r P) :
    Matches m atom cs r P :=
  .choice_right (.rule (.seq_left (refuses_text_of_head fun c hc => (hcs c hc).1)))
    (.choice_right (.rule (.seq_left (refuses_text_of_head fun c hc => (hcs c hc).2.1)))
      (.choice_right (.rule (.seq_left (refuses_text_of_head fun c hc => (hcs c hc).2.2)))
        (.choice_left h)))

theorem atom_of_ident (hcs : Unbracketed cs) (hliteral : Refuses m literal cs)
    (h : Matches m (.rule .ident) cs r P) : Matches m atom cs r P :=
  .choice_right (.rule (.seq_left (refuses_text_of_head fun c hc => (hcs c hc).1)))
    (.choice_right (.rule (.seq_left (refuses_text_of_head fun c hc => (hcs c hc).2.1)))
      (.choice_right (.rule (.seq_left (refuses_text_of_head fun c hc => (hcs c hc).2.2)))
        (.choice_right hliteral h)))

theorem unbracketed_of_continues (hne : w ≠ []) (hw : ∀ c ∈ w, continues c = true) :
    Unbracketed (w ++ rest) := by
  obtain ⟨c, cs, rfl⟩ := List.exists_cons_of_ne_nil hne
  have hc := hw c List.mem_cons_self
  rintro _ ⟨⟩
  refine ⟨?_, ?_, ?_⟩
  all_goals
    rintro rfl
    cases hc

theorem sign_refuses (h : ∀ c ∈ cs.head?, c ≠ '+' ∧ c ≠ '-' ∧ c ≠ '~') :
    Refuses m (.rule .sign) cs :=
  .rule (.choice (refuses_text_of_head fun c hc => (h c hc).1)
    (.choice (refuses_text_of_head fun c hc => (h c hc).2.1)
      (refuses_text_of_head fun c hc => (h c hc).2.2)))

theorem sign_refuses_of_continues (hne : w ≠ []) (hw : ∀ c ∈ w, continues c = true) :
    Refuses m (.rule .sign) (w ++ rest) := by
  obtain ⟨c, cs, rfl⟩ := List.exists_cons_of_ne_nil hne
  have hc := hw c List.mem_cons_self
  apply sign_refuses
  rintro _ ⟨⟩
  refine ⟨?_, ?_, ?_⟩
  all_goals
    rintro rfl
    cases hc

/-- What follows an operand is no mark of a quoted text. -/
theorem Closed.unquoted (hrest : Closed rest) (hw : ∀ c ∈ w, continues c = true) :
    Unquoted (w ++ rest) := by
  have hall : ∀ c ∈ [',', ')', ']'], c ≠ '\'' ∧ c ≠ '"' := by decide
  exact unquoted_word hw hrest.ends fun c hc => hall c (hrest c hc)

/-- Neither digits nor a point begin a word. -/
theorem number_refuses (hw : IsWord w) :
    Refuses m (.rule .float) (w ++ rest) ∧ Refuses m (.rule .int) (w ++ rest) := by
  obtain ⟨c, cs, rfl, hc⟩ := hw.head
  -- no digit is a letter or an underscore
  have hdigit : c.isDigit = false := by
    have hall : ∀ d ∈ "0123456789".toList, (d.isAlpha || d == '_') = false := by decide
    by_contra hdigit
    rw [hall c (mem_digits (by simpa using hdigit))] at hc
    cases hc
  have hdigits : ∀ {m : Mode}, Refuses m digits (c :: cs ++ rest) :=
    digits_refuses (by rintro _ ⟨⟩; exact hdigit)
  have hpoint : ∀ d ∈ (c :: cs ++ rest).head?, d ≠ '.' := by
    rintro _ ⟨⟩ rfl
    cases hc
  exact ⟨.rule (.seq_left (.choice (.seq_left hdigits)
    (.choice (.seq_left (refuses_text_of_head hpoint)) (.seq_left hdigits)))),
    .rule (.seq_left hdigits)⟩

/-- A word that is a literal is matched as such. -/
theorem literal_of_word (hw : IsWord w) (hrest : Closed rest)
    (h : Matches m (Expr.oneOf [.rule .trueLit, .rule .falseLit, .rule .noneLit]) (w ++ rest) r P) :
    Matches m literal (w ++ rest) r P :=
  .choice_right (formatted_refuses (hrest.unquoted hw.all))
    (.choice_right (string_refuses (hrest.unquoted hw.all))
      (.choice_right (number_refuses hw).1 (.choice_right (number_refuses hw).2 h)))

/-- A name is not a literal. -/
theorem literal_refuses {n : String} (hn : IsName n) (hquote : Unquoted (n.toList ++ rest))
    (hrest : Ends rest) : Refuses m literal (n.toList ++ rest) := by
  -- the words for values are reserved, and a name is free
  have hkeyword : ∀ {r : Rule} {s : String}, r.body = word s → r.flavor = .token →
      s.toList ∈ reservedWords → Refuses m (.rule r) (n.toList ++ rest) := by
    intro r s hr hflavor hs
    refine keyword_refuses hr hflavor (continues_reservedWords _ hs) hn.word.all hrest ?_
    exact fun h => hn.free (h ▸ hs)
  exact .choice (formatted_refuses hquote) (.choice (string_refuses hquote)
    (.choice (number_refuses hn.word).1 (.choice (number_refuses hn.word).2
      (.choice (hkeyword (s := "True") rfl rfl (by decide))
        (.choice (hkeyword (s := "False") rfl rfl (by decide))
          (hkeyword (s := "None") rfl rfl (by decide)))))))

/-- A text that begins with a digit is not a string. -/
theorem quoted_refuses_digit (h : ∃ c ∈ cs.head?, c.isDigit = true) :
    Refuses m (.rule .formatted) cs ∧ Refuses m (.rule .string) cs := by
  have hall : ∀ c ∈ "0123456789".toList, Solid c ∧ (Expr.rule .formatted).begins 3 c = false ∧
      (Expr.rule .string).begins 3 c = false := by decide
  obtain ⟨c, hc, hdigit⟩ := h
  have hbegins := hall c (mem_digits hdigit)
  -- quoted texts begin with letters and quotation marks
  have hhead : ∀ d ∈ cs.head?, d = c := fun d hd => Option.mem_unique hd hc
  constructor
  · refine refuses_of_head 3 (by decide) (by decide) fun d hd => ?_
    rw [hhead d hd]
    exact ⟨fun _ => hbegins.1, hbegins.2.1⟩
  · refine refuses_of_head 3 (by decide) (by decide) fun d hd => ?_
    rw [hhead d hd]
    exact ⟨fun _ => hbegins.1, hbegins.2.2⟩

/-- What begins with a digit begins with no bracket and no sign. -/
theorem signed_of_number {Q : ParseTree → Prop} (hQ : Layered Q) (hrest : Quiet (skipped rest))
    (hdigit : ∃ c ∈ cs.head?, c.isDigit = true)
    (h : Matches .spaced (Expr.oneOf [.rule .float, .rule .int]) cs rest (Found Q)) :
    Matches .spaced (.rule .signed) cs (skipped rest) (Found Q) := by
  obtain ⟨hformatted, hstring⟩ := quoted_refuses_digit (m := .spaced) hdigit
  have hother : ∀ c ∈ cs.head?, c ∈ "0123456789".toList := by
    obtain ⟨d, hd, hdigit⟩ := hdigit
    exact fun c hc => Option.mem_unique hd hc ▸ mem_digits hdigit
  have hbrackets : ∀ c ∈ "0123456789".toList, c ≠ '(' ∧ c ≠ '[' ∧ c ≠ '\x7b' := by decide
  have hsigns : ∀ c ∈ "0123456789".toList, c ≠ '+' ∧ c ≠ '-' ∧ c ≠ '~' := by decide
  -- the alternatives before the numbers are refused
  have hliteral : Matches .spaced literal cs rest (Found Q) := by
    refine .choice_right hformatted (.choice_right hstring ?_)
    intro o
    obtain ⟨o', ts, hts, hv⟩ := h o
    refine ⟨o', ts, ?_, hv⟩
    cases hts with
    | choice_left hfloat => exact .choice_left hfloat
    | choice_right hfloat hint => exact .choice_right hfloat (.choice_left hint)
  exact signed_of_atom hQ hrest (sign_refuses fun c hc => hsigns c (hother c hc))
    (atom_of_literal (fun c hc => hbrackets c (hother c hc)) hliteral)

/-- A row of digits is matched as an operand. -/
theorem signed_of_row {Q : ParseTree → Prop} (hQ : Layered Q) (h : DigitRow ds w)
    (hrest : Closed (skipped rest)) (hnode : ∀ b e, Q (.node .int b e w [])) :
    Matches .spaced (.rule .signed) (w ++ rest) (skipped rest) (Found Q) := by
  have hall : ∀ c ∈ [',', ')', ']', ' ', '\t', '\r', '#', '\\'],
      continues c = false ∧ c ≠ '.' := by decide
  have hends : Ends rest := fun c hc => (hall c (hrest.head_of_skipped c hc)).1
  -- without a point the row is no decimal
  have hfloat : Refuses .spaced (.rule .float) (w ++ rest) :=
    float_refuses h hends fun c hc => (hall c (hrest.head_of_skipped c hc)).2
  refine signed_of_number hQ hrest.quiet (h.head rest) (.choice_right hfloat ?_)
  refine (int_matches rfl h hends).imp ?_
  rintro _ ⟨_, rfl, b, e, rfl⟩
  exact ⟨_, rfl, hnode b e⟩

end Atoms

end Grammar

namespace Value

/-! ### Words and numbers -/

section Leaves

variable {rest : List Char}

/-- The literals in the form of words are matched as operands. -/
theorem signed_of_keyword {w : List Char} {v : Value} (hw : IsWord w) (hrest : Closed rest)
    (h : Matches .spaced (Expr.oneOf [.rule .trueLit, .rule .falseLit, .rule .noneLit])
      (w ++ rest) rest (Found v.ShownBy)) :
    Matches .spaced (.rule .signed) (w ++ rest) rest (Found v.ShownBy) := by
  obtain ⟨c, cs, hcs, -⟩ := hw.head
  have hne : w ≠ [] := by simp [hcs]
  exact signed_of_closed (Draft.layered_shownBy v) hrest (sign_refuses_of_continues hne hw.all)
    (atom_of_literal (unbracketed_of_continues hne hw.all) (literal_of_word hw hrest h))

/-- A name is matched as an operand that shows its context. -/
theorem signed_of_context {c : Context} (hc : IsName c.name) (hrest : Closed rest) :
    Matches .spaced (.rule .signed) (c.name.toList ++ rest) rest (Found (Value.context c).ShownBy)
    := by
  obtain ⟨d, cs, hcs, -⟩ := hc.word.head
  have hne : c.name.toList ≠ [] := by simp [hcs]
  have hident : Matches .spaced (.rule .ident) (c.name.toList ++ rest) rest
      (Found (Value.context c).ShownBy) := by
    refine (ident_matches rfl hc.word hc.free hrest.ends).imp ?_
    rintro _ ⟨_, rfl, b, e, rfl⟩
    exact ⟨_, rfl, Draft.shownBy_context c⟩
  -- literals are tried first
  have hliteral := literal_refuses (m := .spaced) hc (hrest.unquoted hc.word.all) hrest.ends
  exact signed_of_closed (Draft.layered_shownBy _) hrest
    (sign_refuses_of_continues hne hc.word.all)
    (atom_of_ident (unbracketed_of_continues hne hc.word.all) hliteral hident)

/-- The digits of an integer are matched as an operand. -/
theorem signed_of_digits {n : Int64} (hn : 0 ≤ n.toInt) (hrest : Closed rest) :
    Matches .spaced (.rule .signed) (Nat.toDigits 10 n.toInt.natAbs ++ rest) rest
      (Found (Value.int n).ShownBy) := by
  have hrow := DigitRow.of_digits Nat.toDigits_ne_nil (isDigit_toDigits n.toInt.natAbs)
  have hsigned := signed_of_row (Draft.layered_shownBy _) hrow (by rwa [hrest.quiet.skipped])
    fun b e => Draft.shownBy_int hn
  rwa [hrest.quiet.skipped] at hsigned

/-- The size of a finite number is matched as an operand. -/
theorem signed_of_size {x : Double} (hx : x.isFinite = true) (hrest : Closed rest) :
    Matches .spaced (.rule .signed) (DecimalStyle.writeSize .rendered x ++ rest) rest
      (Found (Value.float ⟨false, x.rank⟩).ShownBy) := by
  obtain ⟨n, hn, hwrite, hread⟩ := Draft.readFloat?_writeSize hx
  -- the size is written as a numeral that is read back as the size
  rw [← hwrite]
  have hdigit : ∃ c ∈ (n.write ++ rest).head?, c.isDigit = true := by
    rw [Numeral.write, List.append_assoc]
    exact (DigitRow.of_digits hn.whole_ne_nil hn.whole).head _
  have hfloat : Matches .spaced (.rule .float) (n.write ++ rest) rest
      (Found (Value.float ⟨false, x.rank⟩).ShownBy) := by
    refine (float_matches rfl hn hrest.ends).imp ?_
    rintro _ ⟨_, rfl, b, e, rfl⟩
    exact ⟨_, rfl, Draft.shownBy_of_literal? (l := .float ⟨false, x.rank⟩)
      (congrArg (Option.map Literal.float) hread)⟩
  -- the rest is closed, so that nothing of it is skipped
  have hquiet : Quiet (skipped rest) := by
    rw [hrest.quiet.skipped]
    exact hrest.quiet
  have hsigned := signed_of_number (Draft.layered_shownBy _) hquiet hdigit (.choice_left hfloat)
  rwa [hrest.quiet.skipped] at hsigned

/-- A minus sign before an operand that shows a number. -/
theorem signed_of_minus {l k : Literal} {cs : List Char} (hsolid : ∀ c ∈ cs.head?, Solid c)
    (hl : Draft.applySign? ['-'] l = some k)
    (h : Matches .spaced (.rule .signed) cs rest (Found l.value.ShownBy)) :
    Matches .spaced (.rule .signed) ('-' :: cs) rest (Found k.value.ShownBy) := by
  have hskipped : skipped cs = cs := Mode.next_of_solid .spaced hsolid
  refine (signed_of_sign (by decide) (by rwa [hskipped])).imp ?_
  rintro _ ⟨_, rfl, b, e, text, b', e', t, rfl, ht⟩
  exact ⟨_, rfl, Draft.shownBy_neg ht hl⟩

theorem signed_of_int {n : Int64} (hn : n ≠ Int64.minValue) (hrest : Closed rest) :
    Matches .spaced (.rule .signed) ((Value.int n).write ++ rest) rest
      (Found (Value.int n).ShownBy) := by
  rw [write, Json.writeInt]
  by_cases hneg : n.toInt < 0
  · -- the digits are those of the number with the other sign
    have hbound : -2 ^ 63 < n.toInt := by
      have hle := n.le_toInt
      have hmin : n.toInt ≠ -2 ^ 63 := fun h => hn (Int64.toInt_inj.mp (h.trans rfl))
      omega
    have hlit : (Int64.ofInt (-n.toInt)).toInt = -n.toInt :=
      Int64.toInt_ofInt_of_le (by omega) (by omega)
    have hneg' : -Int64.ofInt (-n.toInt) = n := by
      rw [← Int64.ofInt_neg, Int.neg_neg, Int64.ofInt_toInt]
    have hne : Int64.ofInt (-n.toInt) ≠ Int64.minValue := by
      intro h
      rw [h, Int64.toInt_minValue] at hlit
      omega
    have hdigits := signed_of_digits (n := Int64.ofInt (-n.toInt)) (by omega) hrest
    rw [hlit, Int.natAbs_neg] at hdigits
    rw [if_pos hneg]
    refine signed_of_minus (l := .int (Int64.ofInt (-n.toInt))) (k := .int n) ?_ ?_ hdigits
    · exact (Operand.of_digits (.of_digits Nat.toDigits_ne_nil (isDigit_toDigits _))).solid
    · rw [Draft.applySign?, if_neg (by decide), if_pos ⟨rfl, hne⟩, hneg']
  · rw [if_neg hneg]
    exact signed_of_digits (by omega) hrest

theorem signed_of_float {x : Double} (hx : x.isFinite = true) (hrest : Closed rest) :
    Matches .spaced (.rule .signed) ((Value.float x).write ++ rest) rest
      (Found (Value.float x).ShownBy) := by
  have hsize := signed_of_size hx hrest
  rw [write, DecimalStyle.toList_write _ hx]
  obtain ⟨negative, rank⟩ := x
  cases negative with
  | true =>
    -- the minus stands in front of the size
    refine signed_of_minus (l := .float ⟨false, rank⟩) (k := .float ⟨true, rank⟩) ?_ rfl hsize
    obtain ⟨n, hn, hwrite, -⟩ := Draft.readFloat?_writeSize hx
    have hsolid : ∀ c ∈ (n.whole ++ (n.writeRest ++ rest)).head?, Solid c :=
      (Operand.of_digits (.of_digits hn.whole_ne_nil hn.whole)).solid
    rwa [← List.append_assoc, ← Numeral.write, hwrite] at hsolid
  | false => exact hsize

theorem signed_of_str (s : String) (hrest : Closed rest) :
    Matches .spaced (.rule .signed) ((Value.str s).write ++ rest) rest
      (Found (Value.str s).ShownBy) := by
  rw [write]
  -- formatted strings are tried first, and begin with a letter
  have hformatted : Refuses .spaced (.rule .formatted) (writeString s ++ rest) := by
    refine refuses_of_head 3 (by decide) (by decide) ?_
    rintro _ ⟨⟩
    decide
  have hstring : Matches .spaced (.rule .string) (writeString s ++ rest) rest
      (Found (Value.str s).ShownBy) := by
    refine (string_matches rfl s rest).imp ?_
    rintro _ ⟨_, rfl, b, e, text, b', e', text', b'', e'', rfl⟩
    exact ⟨_, rfl, Draft.shownBy_string s⟩
  refine signed_of_closed (Draft.layered_shownBy _) hrest (sign_refuses ?_)
    (atom_of_literal ?_ (.choice_right hformatted (.choice_left hstring)))
  · rintro _ ⟨⟩
    decide
  · rintro _ ⟨⟩
    decide

end Leaves

/-! ### Rows of values -/

/-- A text in which a row of values ends. -/
def Closing (cs : List Char) : Prop := ∀ c ∈ cs.head?, c ∈ [')', ']']

theorem Closing.closed {cs : List Char} (h : Closing cs) : Closed cs := by
  have hall : ∀ c ∈ [')', ']'], c ∈ [',', ')', ']'] := by decide
  exact fun c hc => hall c (h c hc)

/-- The values after the first, each after a comma and a blank. -/
def writeFurther (vs : List Value) : List Char := vs.flatMap fun v => ',' :: ' ' :: v.write

theorem writeItems_cons (v : Value) (vs : List Value) :
    writeItems (v :: vs) = v.write ++ writeFurther vs := by
  induction vs generalizing v with
  | nil => rw [writeItems]; simp [writeFurther]
  | cons w vs ih =>
    rw [writeItems, ih, writeFurther, writeFurther, List.flatMap_cons]
    · simp
    · simp

theorem closed_writeFurther {rest : List Char} (hrest : Closing rest) (vs : List Value) :
    Closed (writeFurther vs ++ rest) := by
  cases vs with
  | nil => exact hrest.closed
  | cons v vs =>
    rintro _ ⟨⟩
    decide

theorem forall₂_of_found {P : Value → ParseTree → Prop} {vs : List Value}
    {parts : List (List ParseTree)} (h : List.Forall₂ (fun v ts => Found (P v) ts) vs parts) :
    List.Forall₂ P vs parts.flatten := by
  induction h with
  | nil => exact .nil
  | cons hfound _ ih =>
    obtain ⟨t, rfl, ht⟩ := hfound
    exact .cons ht ih

/-- The values after the first are matched one by one. -/
theorem further_matches {item : Expr} {P : Value → ParseTree → Prop} {vs : List Value}
    {rest : List Char} (hrest : Closing rest)
    (hitem : ∀ v ∈ vs, ∀ rest, Closed rest → (∀ c ∈ (v.write ++ rest).head?, Solid c) ∧
      Matches .spaced item (v.write ++ rest) rest (Found (P v))) :
    Matches .spaced (.many (.seq (.lit ",") item)) (writeFurther vs ++ rest) rest
      fun ts => List.Forall₂ P vs ts := by
  have hnext : ∀ ws : List Value, Mode.spaced.next (writeFurther ws ++ rest)
      = writeFurther ws ++ rest := fun ws => (closed_writeFurther hrest ws).quiet.next _
  have hall : ∀ c ∈ [')', ']'], c ≠ ',' := by decide
  have hend : Refuses .spaced (.seq (.lit ",") item) rest :=
    .seq_left (refuses_text_of_head fun c hc => hall c (hrest c hc))
  -- a comma, a blank that is skipped, and the value
  have hone : ∀ v ∈ vs, ∀ ws : List Value, Matches .spaced (.seq (.lit ",") item)
      ((',' :: ' ' :: v.write) ++ (writeFurther ws ++ rest)) (writeFurther ws ++ rest)
      (Found (P v)) := by
    intro v hv ws
    obtain ⟨hsolid, hmatches⟩ := hitem v hv _ (closed_writeFurther hrest ws)
    have hblank : Mode.spaced.next (' ' :: (v.write ++ (writeFurther ws ++ rest)))
        = v.write ++ (writeFurther ws ++ rest) :=
      (skipped_blank _).trans (Mode.next_of_solid .spaced hsolid)
    rw [← hblank] at hmatches
    refine ((Matches.text (t := [','])).seq hmatches).imp ?_
    rintro _ ⟨_, _, rfl, rfl, hfound⟩
    exact hfound
  refine (matches_row (P := fun v ts => Found (P v) ts) hnext hone hend).imp ?_
  rintro _ ⟨parts, rfl, hparts⟩
  exact forall₂_of_found hparts

/-- Perhaps no items, or one and then what may stand after one. -/
theorem items_matches {item others : Expr} {P : Value → ParseTree → Prop} {vs : List Value}
    {rest : List Char} (hrest : Closing rest) (hempty : Refuses .spaced item rest)
    (hitem : ∀ v ∈ vs, ∀ rest, Closed rest → (∀ c ∈ (v.write ++ rest).head?, Solid c) ∧
      Matches .spaced item (v.write ++ rest) rest (Found (P v)))
    (hothers : ∀ ws Q, Matches .spaced
      (.seq (.many (.seq (.lit ",") item)) (.optional (.lit ","))) (writeFurther ws ++ rest) rest Q →
        Matches .spaced others (writeFurther ws ++ rest) rest Q) :
    Matches .spaced (.optional (.seq item others)) (writeItems vs ++ rest) rest
      fun ts => List.Forall₂ P vs ts := by
  cases vs with
  | nil =>
    refine (Matches.optional_none (.seq_left hempty)).imp ?_
    rintro _ rfl
    exact .nil
  | cons v vs =>
    obtain ⟨hv, hvs⟩ := List.forall_mem_cons.mp hitem
    have hclosed := closed_writeFurther hrest vs
    have hall : ∀ c ∈ [')', ']'], c ≠ ',' := by decide
    -- no comma is written behind the last item
    have hcomma : Matches .spaced (.optional (.lit ",")) (Mode.spaced.next rest) rest (· = []) := by
      rw [hrest.closed.quiet.next]
      exact .optional_none (refuses_text_of_head fun c hc => hall c (hrest c hc))
    have hfurther := hothers vs _ ((further_matches hrest hvs).seq hcomma)
    have hitems := (hv _ hclosed).2.seq (by rw [hclosed.quiet.next]; exact hfurther)
    rw [← List.append_assoc, ← writeItems_cons] at hitems
    refine (Matches.optional_some hitems).imp ?_
    rintro _ ⟨_, _, rfl, ⟨t, rfl, ht⟩, ts, _, rfl, hts, rfl⟩
    rw [List.append_nil]
    exact .cons ht hts

/-- The text of a row of values begins with no blank. -/
theorem solid_writeItems {vs : List Value} {rest : List Char} (hclosing : Closing rest)
    (hvs : ∀ v ∈ vs, ∀ rest, Closed rest → ∀ c ∈ (v.write ++ rest).head?, Solid c) :
    ∀ c ∈ (writeItems vs ++ rest).head?, Solid c := by
  cases vs with
  | nil => exact hclosing.closed.quiet.solid
  | cons v vs =>
    rw [writeItems_cons, List.append_assoc]
    exact hvs v List.mem_cons_self _ (closed_writeFurther hclosing vs)

/-! ### Values -/

/-- **A written value begins as an operand.** -/
theorem Readable.operand {v : Value} (hv : v.Readable) {rest : List Char} (hrest : Closed rest) :
    Operand (v.write ++ rest) := by
  cases hv with
  | none => exact .of_reserved (w := "None".toList) (by decide) hrest.ends (by decide) (by decide)
  | bool b =>
    cases b with
    | true => exact .of_reserved (w := "True".toList) (by decide) hrest.ends (by decide) (by decide)
    | false =>
      exact .of_reserved (w := "False".toList) (by decide) hrest.ends (by decide) (by decide)
  | @int n hn =>
    rw [write, Json.writeInt]
    -- a number begins with a minus or with a digit
    split_ifs with hneg
    · refine .of_head ?_
      rintro _ ⟨⟩
      decide
    · exact .of_digits (.of_digits Nat.toDigits_ne_nil (isDigit_toDigits _))
  | @float x hx =>
    rw [write, DecimalStyle.toList_write _ hx]
    split_ifs with hneg
    · refine .of_head ?_
      rintro _ ⟨⟩
      decide
    · obtain ⟨n, hn, hwrite, -⟩ := Draft.readFloat?_writeSize hx
      rw [← hwrite, Numeral.write, List.append_assoc]
      exact .of_digits (.of_digits hn.whole_ne_nil hn.whole)
  | str s =>
    rw [write]
    refine .of_head ?_
    rintro _ ⟨⟩
    decide
  | list h =>
    rw [write]
    refine .of_head ?_
    rintro _ ⟨⟩
    decide
  | @context c hc =>
    have hall : ∀ c ∈ [',', ')', ']'], c ≠ '=' := by decide
    rw [write]
    refine .of_name hc hrest.ends fun d hd => ?_
    rw [hrest.quiet.next] at hd
    exact hall d (hrest d hd)

/-- An item shows the value, as a whole expression. -/
def Item (v : Value) (t : ParseTree) : Prop := v.ShownBy t ∧ t.rule = .expr

/-- An operand that shows a value, as a whole expression. -/
theorem expr_of_signed {v : Value} (hv : v.Readable) {rest : List Char} (hrest : Closed rest)
    (h : Matches .spaced (.rule .signed) (v.write ++ rest) rest (Found v.ShownBy)) :
    Matches .spaced (.rule .expr) (v.write ++ rest) rest
      (Found v.Item) :=
  (expr_of_operand (Draft.layered_shownBy v) hrest (hv.operand hrest) h).and_rule

/-- A list is matched as an operand if its items are. -/
theorem signed_of_list {vs : List Value} {rest : List Char} (hrest : Closed rest)
    (hvs : ∀ v ∈ vs, ∀ rest, Closed rest → (∀ c ∈ (v.write ++ rest).head?, Solid c) ∧
      Matches .spaced (.rule .expr) (v.write ++ rest) rest (Found v.Item)) :
    Matches .spaced (.rule .signed) ((Value.list vs).write ++ rest) rest
      (Found (Value.list vs).ShownBy) := by
  have hclosing : Closing (']' :: rest) := by
    rintro _ ⟨⟩
    decide
  have hexpr : Refuses .spaced (.rule .expr) (']' :: rest) :=
    hclosing.closed.refuses 20 (by decide) (by decide) (by decide)
  -- what follows the first item does not begin a comprehension
  have hcomprehension : ∀ ws, Refuses .spaced (.manyOne (.rule .comprehension))
      (writeFurther ws ++ ']' :: rest) := fun ws =>
    (closed_writeFurther hclosing ws).refuses 2 (by decide) (by decide) (by decide)
  have hitems := items_matches hclosing hexpr hvs
    fun ws _ h => Matches.choice_right (hcomprehension ws) h
  -- nothing is skipped behind the bracket
  have hopen : Mode.spaced.next (writeItems vs ++ ']' :: rest) = writeItems vs ++ ']' :: rest :=
    Mode.next_of_solid _ (solid_writeItems hclosing fun v hv rest' hrest' => (hvs v hv _ hrest').1)
  have hclose : Matches .spaced (.lit "]") (Mode.spaced.next (']' :: rest)) rest (· = []) := by
    rw [hclosing.closed.quiet.next]
    exact .text (t := [']'])
  have hbody := (Matches.text (m := .spaced) (t := ['['])).seq
    (by rw [hopen]; exact hitems.seq hclose)
  have htext : (Value.list vs).write ++ rest = ['['] ++ (writeItems vs ++ ']' :: rest) := by
    rw [write]
    simp
  -- the node of the list has the items as its parts
  have hlist : Matches .spaced (.rule .list) ((Value.list vs).write ++ rest) rest
      (Found (Value.list vs).ShownBy) := by
    rw [htext]
    refine (Matches.rule (m := .spaced) (r := .list) rfl hbody).imp ?_
    rintro _ ⟨_, rfl, b, e, text, _, rfl, -, _, _, rfl, rfl, ts, _, rfl, hts, rfl⟩
    refine ⟨_, rfl, ?_⟩
    rw [List.nil_append, List.append_nil]
    refine Draft.shownBy_list (fun t ht => ?_) (hts.imp fun _ _ h => h.1)
    obtain ⟨v, -, -, hrule⟩ := exists_of_forall₂ hts ht
    exact hrule
  have hhead : ∀ c ∈ ((Value.list vs).write ++ rest).head?, c = '[' := by
    rw [htext]
    rintro _ ⟨⟩
    rfl
  refine signed_of_closed (Draft.layered_shownBy _) hrest (sign_refuses fun c hc => ?_)
    (.choice_right (.rule (.seq_left (refuses_text_of_head fun c hc => ?_))) (.choice_left hlist))
  · rw [hhead c hc]
    decide
  · rw [hhead c hc]
    decide

/-- **A written value is matched as an operand that shows it.** -/
theorem signed_matches {v : Value} (hv : v.Readable) :
    ∀ rest, Closed rest → Matches .spaced (.rule .signed) (v.write ++ rest) rest (Found v.ShownBy)
    := by
  induction hv with
  | none =>
    intro rest hrest
    -- the words for the other values are tried first
    refine signed_of_keyword (w := "None".toList) ⟨⟨'N', _, rfl, rfl⟩, by decide⟩ hrest ?_
    refine .choice_right ?_ (.choice_right ?_ ((keyword_matches rfl rfl rfl hrest.ends).imp ?_))
    · exact keyword_refuses (s := "True") rfl rfl (by decide) (by decide) hrest.ends (by decide)
    · exact keyword_refuses (s := "False") rfl rfl (by decide) (by decide) hrest.ends (by decide)
    · rintro _ ⟨_, rfl, b, e, rfl⟩
      exact ⟨_, rfl, Draft.shownBy_of_literal? (l := .none) rfl⟩
  | bool b =>
    intro rest hrest
    cases b with
    | true =>
      refine signed_of_keyword (w := "True".toList) ⟨⟨'T', _, rfl, rfl⟩, by decide⟩ hrest ?_
      refine .choice_left ((keyword_matches rfl rfl rfl hrest.ends).imp ?_)
      rintro _ ⟨_, rfl, b, e, rfl⟩
      exact ⟨_, rfl, Draft.shownBy_of_literal? (l := .bool true) rfl⟩
    | false =>
      refine signed_of_keyword (w := "False".toList) ⟨⟨'F', _, rfl, rfl⟩, by decide⟩ hrest ?_
      refine .choice_right ?_ (.choice_left ((keyword_matches rfl rfl rfl hrest.ends).imp ?_))
      · exact keyword_refuses (s := "True") rfl rfl (by decide) (by decide) hrest.ends (by decide)
      · rintro _ ⟨_, rfl, b, e, rfl⟩
        exact ⟨_, rfl, Draft.shownBy_of_literal? (l := .bool false) rfl⟩
  | int hn => exact fun rest hrest => signed_of_int hn hrest
  | float hx => exact fun rest hrest => signed_of_float hx hrest
  | str s => exact fun rest hrest => signed_of_str s hrest
  | @list vs h ih =>
    intro rest hrest
    refine signed_of_list hrest fun v hv rest' hrest' => ?_
    have hreadable := h v hv
    exact ⟨(hreadable.operand hrest').solid, expr_of_signed hreadable hrest' (ih v hv rest' hrest')⟩
  | context hc =>
    intro rest hrest
    rw [write]
    exact signed_of_context hc hrest

end Value

end CatalogQuery
