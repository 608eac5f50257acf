import CatalogQuery.Draft.Narrow
import CatalogQuery.Proofs.Grammar.Literals

/-!
# Matching through layers

An operand alone is matched by every level of operators above it, if none of the operators of these
levels follows: `negation_of_signed` climbs from signs to negations, and `expr_of_disjunction` from
there to whole expressions. What is found is a node under layers with one part each, so that a
property that is `Layered` passes through.

What follows an operand is `Quiet` if no operator but `and` and `or` begins there, and `Closed` if
it is a comma, a closing bracket or the end.
-/

namespace CatalogQuery.Grammar

/-- A property that holds of a layer with one part if it holds of the part. -/
def Layered (P : ParseTree → Prop) : Prop :=
  ∀ rule b e text t, Draft.isLayer rule = true → P t → P (.node rule b e text [t])

theorem flavor_of_isLayer {r : Rule} (h : Draft.isLayer r = true) : r.flavor = .spaced := by
  cases r <;> first | rfl | cases h

/-- What follows begins with no operator but perhaps `and` or `or`. -/
def Quiet (cs : List Char) : Prop := ∀ c ∈ cs.head?, c ∈ [',', ')', ']', 'a', 'o']

/-- What follows is a comma, a closing bracket or the end. -/
def Closed (cs : List Char) : Prop := ∀ c ∈ cs.head?, c ∈ [',', ')', ']']

theorem Closed.quiet {cs : List Char} (h : Closed cs) : Quiet cs := by
  have hall : ∀ c ∈ [',', ')', ']'], c ∈ [',', ')', ']', 'a', 'o'] := by decide
  exact fun c hc => hall c (h c hc)

theorem Closed.ends {cs : List Char} (h : Closed cs) : Ends cs := by
  have hall : ∀ c ∈ [',', ')', ']'], continues c = false := by decide
  exact fun c hc => hall c (h c hc)

/-- In front of such a text, blanks aside, no operand goes on. -/
theorem Closed.head_of_skipped {cs : List Char} (h : Closed (skipped cs)) :
    ∀ c ∈ cs.head?, c ∈ [',', ')', ']', ' ', '\t', '\r', '#', '\\'] := by
  intro c hc
  by_cases hsolid : Solid c
  · have hcs : skipped cs = cs := Mode.next_of_solid .spaced fun d hd => Option.mem_unique hc hd ▸ hsolid
    rw [hcs] at h
    exact List.mem_append_left _ (h c hc)
  · exact List.mem_append_right [',', ')', ']'] (not_not.mp hsolid)

theorem Quiet.solid {cs : List Char} (h : Quiet cs) : ∀ c ∈ cs.head?, Solid c := by
  have hall : ∀ c ∈ [',', ')', ']', 'a', 'o'], Solid c := by decide
  exact fun c hc => hall c (h c hc)

theorem Quiet.next {cs : List Char} (h : Quiet cs) (m : Mode) : m.next cs = cs :=
  m.next_of_solid h.solid

theorem Quiet.skipped {cs : List Char} (h : Quiet cs) : skipped cs = cs := h.next .spaced

/-- An operator that begins with none of the characters that may follow is refused. -/
theorem Quiet.refuses {m : Mode} {e : Expr} {cs : List Char} (h : Quiet cs) (n : Nat)
    (hsteady : e.steady = true) (he : e.nullable = false)
    (hbegins : ∀ c ∈ [',', ')', ']', 'a', 'o'], e.begins n c = false) : Refuses m e cs :=
  refuses_of_head n hsteady he fun c hc => ⟨fun _ => h.solid c hc, hbegins c (h c hc)⟩

theorem Closed.refuses {m : Mode} {e : Expr} {cs : List Char} (h : Closed cs) (n : Nat)
    (hsteady : e.steady = true) (he : e.nullable = false)
    (hbegins : ∀ c ∈ [',', ')', ']'], e.begins n c = false) : Refuses m e cs :=
  refuses_of_head n hsteady he fun c hc => ⟨fun _ => h.quiet.solid c hc, hbegins c (h c hc)⟩

/-! ### Where operands begin -/

/-- Nothing that may stand in front of an operand begins there, and nothing is skipped. -/
structure Operand (cs : List Char) : Prop where
  solid : ∀ c ∈ cs.head?, Solid c
  kwNot : Refuses .spaced (.rule .kwNot) cs
  kwLambda : Refuses .spaced (.rule .kwLambda) cs
  keywordArg : Refuses .spaced (.rule .keywordArg) cs
  starArg : Refuses .spaced (.rule .starArg) cs

/-- The characters other than letters that arguments and conditions begin with. -/
def openers : List Char := "'[(+-0123456789".toList

theorem opener_of_isDigit {c : Char} (h : c.isDigit = true) : c ∈ openers := by
  have hall : ∀ c ∈ "0123456789".toList, c ∈ openers := by decide
  exact hall c (mem_digits h)

/-- An operand that does not begin with a word. -/
theorem Operand.of_head {cs : List Char} (h : ∀ c ∈ cs.head?, c ∈ openers) : Operand cs := by
  have hall : ∀ c ∈ openers, Solid c := by decide
  have hsolid : ∀ c ∈ cs.head?, Solid c := fun c hc => hall c (h c hc)
  have hrefuses : ∀ r ∈ [Rule.kwNot, .kwLambda, .keywordArg, .starArg],
      Refuses .spaced (.rule r) cs := by
    have hsteady : ∀ r ∈ [Rule.kwNot, .kwLambda, .keywordArg, .starArg],
        (Expr.rule r).steady = true ∧ (Expr.rule r).nullable = false := by decide
    -- with two characters to look at, none of the words begins at an opener
    have hbegins : ∀ r ∈ [Rule.kwNot, .kwLambda, .keywordArg, .starArg],
        ∀ c ∈ openers, (Expr.rule r).begins 2 c = false := by decide
    intro r hr
    refine refuses_of_head 2 (hsteady r hr).1 (hsteady r hr).2 fun c hc => ?_
    exact ⟨fun _ => hsolid c hc, hbegins r hr c (h c hc)⟩
  exact ⟨hsolid, hrefuses _ (by simp), hrefuses _ (by simp), hrefuses _ (by simp),
    hrefuses _ (by simp)⟩

theorem Operand.of_digits {ds w rest : List Char} (h : DigitRow ds w) : Operand (w ++ rest) := by
  obtain ⟨d, hd, hdigit⟩ := h.head rest
  exact .of_head fun c hc => Option.mem_unique hd hc ▸ opener_of_isDigit hdigit

/-- A text that begins with another character does not begin with a given one. -/
theorem refuses_text_of_head {m : Mode} {d : Char} {t cs : List Char}
    (h : ∀ c ∈ cs.head?, c ≠ d) : Refuses m (.text (d :: t)) cs := by
  refine .text ?_
  rintro ⟨u, rfl⟩
  exact h d rfl rfl

theorem solid_of_continues {c : Char} (h : continues c = true) : Solid c := by
  have hall : ∀ d ∈ [' ', '\t', '\r', '#', '\\'], continues d = false := by decide
  intro hc
  rw [hall c hc] at h
  cases h

/-- An operand that begins with a word. -/
theorem Operand.of_word {w rest : List Char} (hne : w ≠ []) (hw : ∀ c ∈ w, continues c = true)
    (hrest : Ends rest) (hnot : w ≠ "not".toList) (hlambda : w ≠ "lambda".toList)
    (hkeyword : Refuses .spaced (.rule .keywordArg) (w ++ rest)) : Operand (w ++ rest) := by
  obtain ⟨c, cs, rfl⟩ := List.exists_cons_of_ne_nil hne
  have hc : continues c = true := hw c List.mem_cons_self
  refine ⟨?_, keyword_refuses rfl rfl (by decide) hw hrest hnot,
    keyword_refuses rfl rfl (by decide) hw hrest hlambda, hkeyword, .rule (.seq_left ?_)⟩
  · rintro _ ⟨⟩
    exact solid_of_continues hc
  · -- a word does not begin with a star
    have hstar : ∀ d ∈ (c :: cs ++ rest).head?, d ≠ '*' := by
      rintro _ ⟨⟩ rfl
      cases hc
    exact .choice (refuses_text_of_head hstar) (refuses_text_of_head hstar)

/-- An operand that begins with a name, unless an equals sign follows. -/
theorem Operand.of_name {n : String} {rest : List Char} (hn : IsName n) (hrest : Ends rest)
    (hequals : ∀ c ∈ (Mode.spaced.next rest).head?, c ≠ '=') : Operand (n.toList ++ rest) := by
  obtain ⟨c, cs, hcs, -⟩ := hn.word.head
  have hkeyword : Refuses .spaced (.rule .keywordArg) (n.toList ++ rest) :=
    .rule (.seq_right (ident_matches rfl hn.word hn.free hrest)
      (.seq_left (refuses_text_of_head hequals)))
  refine .of_word (by simp [hcs]) hn.word.all hrest ?_ ?_ hkeyword
  · exact fun h => hn.free (by rw [h]; decide)
  · exact fun h => hn.free (by rw [h]; decide)

/-- An operand that begins with a literal in the form of a word. -/
theorem Operand.of_reserved {w rest : List Char} (hw : w ∈ reservedWords) (hrest : Ends rest)
    (hnot : w ≠ "not".toList) (hlambda : w ≠ "lambda".toList) : Operand (w ++ rest) := by
  have hne : ∀ w ∈ reservedWords, w ≠ [] := by decide
  exact .of_word (hne w hw) (continues_reservedWords w hw) hrest hnot hlambda
    (.rule (.seq_left (ident_refuses hw hrest)))

/-! ### Layers -/

section Layers

variable {P : ParseTree → Prop} {cs r : List Char}

/-- A layer with one part. -/
theorem Matches.layer {rule : Rule} (hrule : Draft.isLayer rule = true) (hP : Layered P)
    (h : Matches .spaced rule.body cs r (Found P)) : Matches .spaced (.rule rule) cs r (Found P) := by
  have h' : Matches (Mode.spaced.inside rule.flavor) rule.body cs r (Found P) := by
    rw [flavor_of_isLayer hrule]
    exact h
  refine (Matches.rule rfl h').imp ?_
  rintro _ ⟨_, rfl, b, e, text, _, rfl, -, t, rfl, ht⟩
  exact ⟨_, rfl, hP rule b e text t hrule ht⟩

/-- An operand before something that does not match and may be missing. -/
theorem Matches.alone {a b : Expr} {rest : List Char} (h : Matches .spaced a cs rest (Found P))
    (hb : Matches .spaced b (skipped rest) (skipped rest) (· = [])) :
    Matches .spaced (.seq a b) cs (skipped rest) (Found P) := by
  refine (h.seq hb).imp ?_
  rintro _ ⟨_, _, rfl, ⟨t, rfl, ht⟩, rfl⟩
  exact ⟨t, by simp, ht⟩

theorem Matches.alone_quiet {a b : Expr} (h : Matches .spaced a cs r (Found P)) (hr : Quiet r)
    (hb : Matches .spaced b r r (· = [])) : Matches .spaced (.seq a b) cs r (Found P) := by
  have halone := h.alone (by rw [hr.skipped]; exact hb)
  rwa [hr.skipped] at halone

/-- A chain with a single operand. -/
theorem Matches.chain {operand operator : Expr} (h : Matches .spaced operand cs r (Found P))
    (hr : Quiet r) (hoperator : Refuses .spaced operator r) :
    Matches .spaced (Grammar.chain operand operator) cs r (Found P) :=
  h.alone_quiet hr (.many_none (.seq_left hoperator))

/-- The node that a rule finds is a node of the rule. -/
theorem Matches.and_rule {rule : Rule} (h : Matches .spaced (.rule rule) cs r (Found P)) :
    Matches .spaced (.rule rule) cs r (Found fun t => P t ∧ t.rule = rule) := by
  intro o
  obtain ⟨o', ts, hts, t, rfl, ht⟩ := h o
  refine ⟨o', _, hts, t, rfl, ht, ?_⟩
  cases hts with
  | node => rfl
  | bare hm => cases hm

/-- A primary expression that no power follows, and no sign precedes. -/
theorem signed_of_primary {rest : List Char} (hP : Layered P) (hr : Quiet (skipped rest))
    (hsign : Refuses .spaced (.rule .sign) cs)
    (h : Matches .spaced (.rule .primary) cs rest (Found P)) :
    Matches .spaced (.rule .signed) cs (skipped rest) (Found P) := by
  have hpower : Matches .spaced (.optional (.seq (.lit "**") (.rule .signed))) (skipped rest)
      (skipped rest) (· = []) :=
    .optional_none (hr.refuses 0 (by decide) (by decide) (by decide))
  have hpowers : Matches .spaced (.rule .power) cs (skipped rest) (Found P) :=
    .layer rfl hP (h.alone hpower)
  exact .layer rfl hP (.choice_right (.seq_left hsign) hpowers)

/-- An atom that no trailer and no power follows, and no sign precedes. -/
theorem signed_of_atom {rest : List Char} (hP : Layered P) (hr : Quiet (skipped rest))
    (hsign : Refuses .spaced (.rule .sign) cs)
    (h : Matches .spaced atom cs rest (Found P)) :
    Matches .spaced (.rule .signed) cs (skipped rest) (Found P) := by
  have htrailer : Matches .spaced (.many trailer) (skipped rest) (skipped rest) (· = []) :=
    .many_none (hr.refuses 2 (by decide) (by decide) (by decide))
  have hprimary : Matches .spaced (.rule .primary) cs (skipped rest) (Found P) :=
    .layer rfl hP (h.alone htrailer)
  have hr' : Quiet (skipped (skipped rest)) := by rwa [hr.skipped]
  have hskipped := signed_of_primary hP hr' hsign hprimary
  rwa [hr.skipped] at hskipped

/-- An atom in front of a comma, a closing bracket or the end. -/
theorem signed_of_closed (hP : Layered P) (hr : Closed r)
    (hsign : Refuses .spaced (.rule .sign) cs) (h : Matches .spaced atom cs r (Found P)) :
    Matches .spaced (.rule .signed) cs r (Found P) := by
  have hsigned := signed_of_atom hP (by rw [hr.quiet.skipped]; exact hr.quiet) hsign h
  rwa [hr.quiet.skipped] at hsigned

/-- A sign in front of an operand. -/
theorem signed_of_sign {s : Char} {u : List Char} (hs : s ∈ ['+', '-'])
    (h : Matches .spaced (.rule .signed) (skipped u) r (Found P)) :
    Matches .spaced (.rule .signed) (s :: u) r (Found fun t => ∃ b e text b' e' operand,
      t = .node .signed b e text [.node .sign b' e' [s] [], operand] ∧ P operand) := by
  have hbody : Matches .spaced Rule.sign.body (s :: u) u (· = []) := by
    simp only [List.mem_cons, List.not_mem_nil, or_false] at hs
    rcases hs with rfl | rfl
    · exact .choice_left (.text (t := ['+']))
    · exact .choice_right (refuses_text_of_head (by rintro _ ⟨⟩; decide))
        (.choice_left (.text (t := ['-'])))
  -- the node of the sign has the sign as its text
  have hsign : Matches .spaced (.rule .sign) (s :: u) u
      (Found fun t => ∃ b e, t = .node .sign b e [s] []) := by
    refine (Matches.rule (m := .spaced) (r := .sign) rfl hbody).imp ?_
    rintro _ ⟨_, rfl, b, e, text, _, rfl, htext, rfl⟩
    have htext : [s] ++ u = text ++ u := htext
    exact ⟨_, rfl, b, e, by rw [List.append_cancel_right htext]⟩
  have hseq := hsign.seq (m := .spaced) h
  refine (Matches.rule (m := .spaced) (r := .signed) rfl (.choice_left hseq)).imp ?_
  rintro _ ⟨_, rfl, b, e, text, _, rfl, -, _, _, rfl, ⟨_, rfl, b', e', rfl⟩, t, rfl, ht⟩
  exact ⟨_, rfl, b, e, text, b', e', t, rfl, ht⟩

/-- Arithmetic and comparisons with a single operand. -/
theorem negation_of_signed (hP : Layered P) (hr : Quiet r)
    (hnot : Refuses .spaced (.rule .kwNot) cs)
    (h : Matches .spaced (.rule .signed) cs r (Found P)) :
    Matches .spaced (.rule .negation) cs r (Found P) := by
  have hproduct : Matches .spaced (.rule .product) cs r (Found P) :=
    .layer rfl hP (h.chain hr (hr.refuses 1 (by decide) (by decide) (by decide)))
  have hsum : Matches .spaced (.rule .sum) cs r (Found P) :=
    .layer rfl hP (hproduct.chain hr (hr.refuses 1 (by decide) (by decide) (by decide)))
  have hcomparison : Matches .spaced (.rule .comparison) cs r (Found P) :=
    .layer rfl hP (hsum.chain hr (hr.refuses 2 (by decide) (by decide) (by decide)))
  exact .layer rfl hP (.choice_right (.seq_left hnot) hcomparison)

/-- A disjunction that is a whole expression. -/
theorem expr_of_disjunction (hP : Layered P) (hr : Closed r)
    (hlambda : Refuses .spaced (.rule .kwLambda) cs)
    (h : Matches .spaced (.rule .disjunction) cs r (Found P)) :
    Matches .spaced (.rule .expr) cs r (Found P) := by
  have hif : Refuses .spaced (.rule .kwIf) r :=
    hr.refuses 1 (by decide) (by decide) (by decide)
  have hconditional : Matches .spaced (.rule .conditional) cs r (Found P) :=
    .layer rfl hP (h.alone_quiet hr.quiet (.optional_none (.seq_left hif)))
  exact .layer rfl hP (.choice_right (.rule (.seq_left hlambda)) hconditional)

/-- A negation that is a whole expression. -/
theorem expr_of_negation (hP : Layered P) (hr : Closed r)
    (hlambda : Refuses .spaced (.rule .kwLambda) cs)
    (h : Matches .spaced (.rule .negation) cs r (Found P)) :
    Matches .spaced (.rule .expr) cs r (Found P) := by
  have hconjunction : Matches .spaced (.rule .conjunction) cs r (Found P) :=
    .layer rfl hP (h.chain hr.quiet (hr.refuses 1 (by decide) (by decide) (by decide)))
  have hdisjunction : Matches .spaced (.rule .disjunction) cs r (Found P) :=
    .layer rfl hP (hconjunction.chain hr.quiet (hr.refuses 1 (by decide) (by decide) (by decide)))
  exact expr_of_disjunction hP hr hlambda hdisjunction

/-- An operand that is a whole expression. -/
theorem expr_of_operand (hP : Layered P) (hr : Closed r) (hcs : Operand cs)
    (h : Matches .spaced (.rule .signed) cs r (Found P)) :
    Matches .spaced (.rule .expr) cs r (Found P) :=
  expr_of_negation hP hr hcs.kwLambda (negation_of_signed hP hr.quiet hcs.kwNot h)

/-- `not` in front of a negation. -/
theorem negation_of_not {u : List Char} (hu : Ends u)
    (h : Matches .spaced (.rule .negation) (skipped u) r (Found P)) :
    Matches .spaced (.rule .negation) ("not".toList ++ u) r (Found fun t =>
      ∃ b e text word operand, t = .node .negation b e text [word, operand] ∧ P operand) := by
  have hword := keyword_matches (m := .spaced) (r := .kwNot) (s := "not") rfl rfl rfl hu
  have hbody : Matches .spaced (.seq (.rule .kwNot) (.rule .negation)) ("not".toList ++ u) r _ :=
    hword.seq h
  refine (Matches.rule (m := .spaced) (r := .negation) rfl (.choice_left hbody)).imp ?_
  rintro _ ⟨_, rfl, b, e, text, _, rfl, -, _, _, rfl, ⟨_, rfl, b', e', rfl⟩, t, rfl, ht⟩
  exact ⟨_, rfl, b, e, text, _, t, rfl, ht⟩

/-- A single item in parentheses, with anything that is skipped around it. -/
theorem matches_parenthesized {item comma : Expr} {u v : List Char}
    (hcomma : Refuses .spaced comma (')' :: r))
    (h : Matches .spaced item (skipped u) v (Found P)) (hv : skipped v = ')' :: r) :
    Matches .spaced (.sequence [.lit "(", commaList item comma, .lit ")"]) ('(' :: u) r (Found P)
    := by
  have hclosed : Closed (')' :: r) := by
    rintro _ ⟨⟩
    decide
  -- no comma follows the item
  have hnone : Matches .spaced (.seq (.many (.seq comma item)) (.optional comma))
      (Mode.spaced.next v) (')' :: r) (· = []) := by
    have hnext : Mode.spaced.next v = ')' :: r := hv
    rw [hnext]
    refine .seq_nil (.many_none (.seq_left hcomma)) ?_
    rw [hclosed.quiet.next]
    exact .optional_none hcomma
  have hclose : Matches .spaced (.lit ")") (Mode.spaced.next (')' :: r)) r (· = []) := by
    rw [hclosed.quiet.next]
    exact .text (t := [')'])
  have hopen : Matches .spaced (.lit "(") ('(' :: u) u (· = []) := .text (t := ['('])
  refine (hopen.seq ((Matches.optional_some (h.seq hnone)).seq hclose)).imp ?_
  rintro _ ⟨_, _, rfl, rfl, _, _, rfl, ⟨_, _, rfl, ⟨t, rfl, ht⟩, rfl⟩, rfl⟩
  exact ⟨t, rfl, ht⟩

/-- An expression in parentheses, with anything that is skipped around it. -/
theorem group_of_expr {u v : List Char} (hP : Layered P)
    (h : Matches .spaced (.rule .expr) (skipped u) v (Found P)) (hv : skipped v = ')' :: r) :
    Matches .spaced (.rule .group) ('(' :: u) r (Found P) :=
  .layer rfl hP (matches_parenthesized
    (.rule (refuses_text_of_head (by rintro _ ⟨⟩; decide))) h hv)

/-- An expression in parentheses is an operand, and leaves no trace but its layers. -/
theorem negation_of_expr {u v rest : List Char} (hP : Layered P)
    (h : Matches .spaced (.rule .expr) (skipped u) v (Found P)) (hv : skipped v = ')' :: rest)
    (hr : Quiet (skipped rest)) :
    Matches .spaced (.rule .negation) ('(' :: u) (skipped rest) (Found P) := by
  -- neither a word nor a sign begins with a parenthesis
  have hrefuses : ∀ r ∈ [Rule.kwNot, .sign], Refuses .spaced (.rule r) ('(' :: u) := by
    have hall : ∀ r ∈ [Rule.kwNot, .sign], (Expr.rule r).steady = true ∧
        (Expr.rule r).nullable = false ∧ (Expr.rule r).begins 1 '(' = false := by decide
    intro r hmem
    refine refuses_of_head 1 (hall r hmem).1 (hall r hmem).2.1 ?_
    rintro _ ⟨⟩
    exact ⟨fun _ => by decide, (hall r hmem).2.2⟩
  exact negation_of_signed hP hr (hrefuses _ (by simp))
    (signed_of_atom hP hr (hrefuses _ (by simp)) (.choice_left (group_of_expr hP h hv)))

end Layers

end CatalogQuery.Grammar
