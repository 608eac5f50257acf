import CatalogQuery.Proofs.Render.Values

/-!
# Written calls are matched

The text of a `Readable` call is matched as a primary expression from which narrowing makes a draft
of the call again (`Call.Readable.primary_matches`), and as an operand of a condition
(`Call.Readable.negation_matches`). `Start` is what is known of the place where a condition begins.
-/

namespace CatalogQuery

open Grammar

/-- A call that a source can hold. -/
structure Call.Readable (c : Call) : Prop where
  name : IsName c.function
  arguments : ∀ v ∈ c.arguments, v.Readable

/-- The call is of a function of the catalog and has one argument for each parameter. -/
def Call.Fits (catalog : Catalog) (c : Call) : Prop :=
  ∃ f, catalog.find? c.function = some f ∧ c.arguments.length = f.arity

/-- The draft is of the function that the call names, and its arguments denote those of the call. -/
structure DraftCall.Denotes (catalog : Catalog) (d : DraftCall) (c : Call) : Prop where
  found : catalog.find? c.function = some d.function
  arguments : List.Forall₂ RawArg.Denotes d.arguments c.arguments

/-- Narrowing makes of the node a draft that denotes the call, wherever the call fits. -/
def Call.ShownBy (c : Call) (t : ParseTree) : Prop :=
  ∀ r, c.Fits r.catalog → ∃ d : DraftCall, d.Denotes r.catalog c ∧
    (∀ around, Draft.ofTree r around t = .ok (.call d)) ∧ Draft.aggregationOfTree r t = .ok d

namespace Draft

theorem layered_shownBy_call (c : Call) : Layered c.ShownBy := by
  intro rule b e text t hrule ht r hr
  obtain ⟨d, hd, hfilter, haggregation⟩ := ht r hr
  refine ⟨d, hd, fun around => ?_, ?_⟩
  · rw [ofTree_layer hrule, hfilter]
  · rw [aggregationOfTree_layer hrule, haggregation]

/-- **A name before expressions in parentheses** is narrowed to a call of the function of that name,
if there are as many as it has parameters. -/
theorem narrow_call {r : Reading} {name : String} {f : Function} {b e b' e' b'' e'' : Nat}
    {text text' : List Char} {ts : List ParseTree} (hfind : r.catalog.find? name = some f)
    (hts : ∀ t ∈ ts, t.rule = .expr) (harity : ts.length = f.arity) {t : ParseTree}
    (ht : t = .node .primary b e text
      [.node .ident b' e' name.toList [], .node .call b'' e'' text' ts]) :
    (∀ around, ofTree r around t = .ok (.call ⟨f, ts.map (argument r)⟩)) ∧
      aggregationOfTree r t = .ok ⟨f, ts.map (argument r)⟩ := by
  subst ht
  -- expressions are no keyword arguments and have no stars
  have hplain : ts.find? (fun a => a.rule == .keywordArg || a.rule == .starArg) = none := by
    rw [List.find?_eq_none]
    intro t ht
    simp [hts t ht]
  have hlength : (ts.map (argument r)).length = f.arity := by rw [List.length_map, harity]
  -- the name is looked up, and the arity is right
  have hcall : ∀ around, callOf r around (.node .primary b e text
      [.node .ident b' e' name.toList [], .node .call b'' e'' text' ts])
      = .ok ⟨f, ts.map (argument r)⟩ := by
    intro around
    have hname : String.ofList (ParseTree.node .ident b' e' name.toList []).text = name :=
      String.ofList_toList
    unfold callOf
    dsimp only [ParseTree.children]
    rw [if_pos ⟨rfl, rfl⟩, hname, hfind, hplain]
    dsimp only
    rw [if_pos hlength]
  refine ⟨fun around => ?_, ?_⟩
  · rw [ofTree_primary (by simp), hcall]
    rfl
  · rw [aggregationOfTree_several (by simp), if_pos rfl, hcall]

/-- A name before a row of items in parentheses shows the call. -/
theorem shownBy_call {c : Call} {b e b' e' b'' e'' : Nat} {text text' : List Char}
    {ts : List ParseTree} (hts : List.Forall₂ Value.Item c.arguments ts) :
    c.ShownBy (.node .primary b e text
      [.node .ident b' e' c.function.toList [], .node .call b'' e'' text' ts]) := by
  rintro r ⟨f, hf, harity⟩
  have hrules : ∀ t ∈ ts, t.rule = .expr := by
    intro t ht
    obtain ⟨v, -, -, hrule⟩ := exists_of_forall₂ hts ht
    exact hrule
  refine ⟨⟨f, ts.map (argument r)⟩, ⟨hf, ?_⟩,
    narrow_call hf hrules (hts.length_eq.symm.trans harity) rfl⟩
  exact List.forall₂_map_left_iff.mpr (hts.flip.imp fun t v h => h.1 r)

end Draft

namespace Value

/-- A written value is matched as an argument. -/
theorem Readable.argument_matches {v : Value} (hv : v.Readable) {rest : List Char}
    (hrest : Closed rest) : (∀ c ∈ (v.write ++ rest).head?, Solid c) ∧
      Matches .spaced argument (v.write ++ rest) rest (Found v.Item) := by
  have hoperand := hv.operand hrest
  exact ⟨hoperand.solid, .choice_right hoperand.keywordArg
    (.choice_right hoperand.starArg (expr_of_signed hv hrest (signed_matches hv rest hrest)))⟩

end Value

/-! ### Names in front of parentheses -/

section Named

variable {n : String} {u rest : List Char} {P : ParseTree → Prop}

theorem ends_open (u : List Char) : Ends ('(' :: u) := by
  rintro _ ⟨⟩
  rfl

theorem atom_of_name (hn : IsName n) (u : List Char) :
    Matches .spaced atom (n.toList ++ '(' :: u) ('(' :: u)
      (Found fun t => ∃ b e, t = .node .ident b e n.toList []) := by
  obtain ⟨d, cs, hcs, -⟩ := hn.word.head
  have hne : n.toList ≠ [] := by simp [hcs]
  have hunquoted : Unquoted (n.toList ++ '(' :: u) := by
    refine unquoted_word hn.word.all (ends_open u) ?_
    rintro _ ⟨⟩
    decide
  exact atom_of_ident (unbracketed_of_continues hne hn.word.all)
    (literal_refuses (m := .spaced) hn hunquoted (ends_open u))
    (ident_matches rfl hn.word hn.free (ends_open u))

/-- A name in front of arguments in parentheses. -/
theorem primary_of_call (hn : IsName n)
    (h : Matches .spaced (.rule .call) ('(' :: u) rest (Found P)) (hrest : Quiet (skipped rest)) :
    Matches .spaced (.rule .primary) (n.toList ++ '(' :: u) rest (Found fun t =>
      ∃ b e text b' e' args,
        t = .node .primary b e text [.node .ident b' e' n.toList [], args] ∧ P args) := by
  -- no second trailer follows
  have hend : Refuses .spaced trailer (Mode.spaced.next rest) :=
    hrest.refuses 2 (by decide) (by decide) (by decide)
  have hopen : Mode.spaced.next ('(' :: u) = '(' :: u :=
    Mode.next_of_solid _ (by rintro _ ⟨⟩; decide)
  have htrailers := Matches.many_some (Matches.choice_left h) (.more_none hend)
  have hbody := (atom_of_name hn u).seq (by rw [hopen]; exact htrailers)
  refine (Matches.rule (m := .spaced) (r := .primary) rfl hbody).imp ?_
  rintro _ ⟨_, rfl, b, e, text, _, rfl, -, _, _, rfl, ⟨_, rfl, b', e', rfl⟩, _, _, rfl,
    ⟨args, rfl, hargs⟩, rfl⟩
  exact ⟨_, rfl, b, e, text, b', e', args, rfl, hargs⟩

/-- A primary expression that begins with a name is an operand. -/
theorem negation_of_primary (hn : IsName n) (hP : Layered P)
    (h : Matches .spaced (.rule .primary) (n.toList ++ '(' :: u) rest (Found P))
    (hrest : Quiet (skipped rest)) :
    Matches .spaced (.rule .negation) (n.toList ++ '(' :: u) (skipped rest) (Found P) := by
  obtain ⟨d, cs, hcs, -⟩ := hn.word.head
  have hne : n.toList ≠ [] := by simp [hcs]
  have hnot : Refuses .spaced (.rule .kwNot) (n.toList ++ '(' :: u) :=
    keyword_refuses rfl rfl (by decide) hn.word.all (ends_open u)
      fun h => hn.free (by rw [h]; decide)
  exact negation_of_signed hP hrest hnot
    (signed_of_primary hP hrest (sign_refuses_of_continues hne hn.word.all) h)

end Named

namespace Call

/-- The text behind the name of a call. -/
def writeArguments (vs : List Value) : List Char := '(' :: (Value.writeItems vs ++ [')'])

theorem write_eq (c : Call) : c.write = c.function.toList ++ writeArguments c.arguments := rfl

/-- Written arguments are matched in their parentheses. -/
theorem arguments_match {vs : List Value} (hvs : ∀ v ∈ vs, v.Readable) (rest : List Char) :
    Matches .spaced (.rule .call) (writeArguments vs ++ rest) rest (Found fun t =>
      ∃ b e text ts, t = .node .call b e text ts ∧ List.Forall₂ Value.Item vs ts) := by
  have hclosing : Value.Closing (')' :: rest) := by
    rintro _ ⟨⟩
    decide
  -- no argument begins with the closing parenthesis
  have hargument : Refuses .spaced argument (')' :: rest) :=
    hclosing.closed.refuses 20 (by decide) (by decide) (by decide)
  have hitems := Value.items_matches hclosing hargument
    (fun v hv _ hrest' => (hvs v hv).argument_matches hrest') fun _ _ h => h
  have hopen : Mode.spaced.next (Value.writeItems vs ++ ')' :: rest)
      = Value.writeItems vs ++ ')' :: rest :=
    Mode.next_of_solid _ (Value.solid_writeItems hclosing
      fun v hv _ hrest' => ((hvs v hv).argument_matches hrest').1)
  have hclose : Matches .spaced (.lit ")") (Mode.spaced.next (')' :: rest)) rest (· = []) := by
    rw [hclosing.closed.quiet.next]
    exact .text (t := [')'])
  have hbody := (Matches.text (m := .spaced) (t := ['('])).seq
    (by rw [hopen]; exact hitems.seq hclose)
  have htext : writeArguments vs ++ rest = ['('] ++ (Value.writeItems vs ++ ')' :: rest) := by
    simp [writeArguments]
  rw [htext]
  refine (Matches.rule (m := .spaced) (r := .call) rfl hbody).imp ?_
  rintro _ ⟨_, rfl, b, e, text, _, rfl, -, _, _, rfl, rfl, ts, _, rfl, hts, rfl⟩
  rw [List.nil_append, List.append_nil]
  exact ⟨_, rfl, b, e, text, ts, rfl, hts⟩

/-- **A written call is matched as a primary expression that shows it.** -/
theorem Readable.primary_matches {c : Call} (hc : c.Readable) {rest : List Char}
    (hrest : Quiet (skipped rest)) :
    Matches .spaced (.rule .primary) (c.write ++ rest) rest (Found c.ShownBy) := by
  rw [write_eq, List.append_assoc]
  refine (primary_of_call hc.name (arguments_match hc.arguments rest) hrest).imp ?_
  rintro _ ⟨_, rfl, b, e, text, b', e', _, rfl, b'', e'', text', ts, rfl, hts⟩
  exact ⟨_, rfl, Draft.shownBy_call hts⟩

end Call

/-! ### Beginnings -/

/-- Where a condition begins: no blank, no separator, and no word that begins another kind of
expression or statement. -/
structure Start (cs : List Char) : Prop where
  solid : ∀ c ∈ cs.head?, Solid c
  separator : Refuses .spaced separator cs
  kwLambda : Refuses .spaced (.rule .kwLambda) cs
  kwImport : Refuses .spaced (.rule .kwImport) cs
  kwFrom : Refuses .spaced (.rule .kwFrom) cs

theorem separator_refuses {m : Mode} {cs : List Char}
    (h : ∀ c ∈ cs.head?, c ≠ '\n' ∧ c ≠ '\r' ∧ c ≠ ';') : Refuses m separator cs :=
  .choice (.choice (refuses_text_of_head fun c hc => (h c hc).1)
    (.choice (refuses_text_of_head fun c hc => (h c hc).2.1)
      (refuses_text_of_head fun c hc => (h c hc).2.1)))
    (refuses_text_of_head fun c hc => (h c hc).2.2)

theorem separator_refuses_of_continues {m : Mode} {cs : List Char}
    (h : ∀ c ∈ cs.head?, continues c = true) : Refuses m separator cs := by
  have hall : ∀ d ∈ ['\n', '\r', ';'], continues d = false := by decide
  have hne : ∀ c ∈ cs.head?, ∀ d ∈ ['\n', '\r', ';'], c ≠ d := by
    rintro c hc d hd rfl
    have hcontinues := h c hc
    rw [hall c hd] at hcontinues
    cases hcontinues
  exact separator_refuses fun c hc =>
    ⟨hne c hc _ (by simp), hne c hc _ (by simp), hne c hc _ (by simp)⟩

theorem Start.of_word {w rest : List Char} (hne : w ≠ []) (hw : ∀ c ∈ w, continues c = true)
    (hrest : Ends rest) (hlambda : w ≠ "lambda".toList) (himport : w ≠ "import".toList)
    (hfrom : w ≠ "from".toList) : Start (w ++ rest) := by
  obtain ⟨c, cs, rfl⟩ := List.exists_cons_of_ne_nil hne
  have hhead : ∀ x ∈ (c :: cs ++ rest).head?, continues x = true := by
    rintro _ ⟨⟩
    exact hw c List.mem_cons_self
  exact ⟨fun x hx => solid_of_continues (hhead x hx), separator_refuses_of_continues hhead,
    keyword_refuses rfl rfl (by decide) hw hrest hlambda,
    keyword_refuses rfl rfl (by decide) hw hrest himport,
    keyword_refuses rfl rfl (by decide) hw hrest hfrom⟩

theorem Start.of_open (cs : List Char) : Start ('(' :: cs) := by
  have hsolid : ∀ c ∈ ('(' :: cs).head?, Solid c := by
    rintro _ ⟨⟩
    decide
  -- no word begins with a parenthesis
  have hrefuses : ∀ r ∈ [Rule.kwLambda, .kwImport, .kwFrom],
      Refuses .spaced (.rule r) ('(' :: cs) := by
    have hsteady : ∀ r ∈ [Rule.kwLambda, .kwImport, .kwFrom], (Expr.rule r).steady = true ∧
        (Expr.rule r).nullable = false ∧ (Expr.rule r).begins 1 '(' = false := by decide
    intro r hr
    obtain ⟨hsteady, hnullable, hbegins⟩ := hsteady r hr
    refine refuses_of_head 1 hsteady hnullable ?_
    rintro _ ⟨⟩
    exact ⟨fun _ => by decide, hbegins⟩
  exact ⟨hsolid, separator_refuses (by rintro _ ⟨⟩; decide), hrefuses _ (by simp),
    hrefuses _ (by simp), hrefuses _ (by simp)⟩

/-- A condition that begins with a name in front of a parenthesis. -/
theorem Start.of_name {n : String} (hn : IsName n) (u : List Char) :
    Start (n.toList ++ '(' :: u) := by
  obtain ⟨d, cs, hcs, -⟩ := hn.word.head
  have hne : ∀ w ∈ reservedWords, n.toList ≠ w := fun _ hw h => hn.free (h ▸ hw)
  exact .of_word (by simp [hcs]) hn.word.all (ends_open u) (hne _ (by decide)) (hne _ (by decide))
    (hne _ (by decide))

namespace Call.Readable

variable {c : Call} {rest : List Char}

theorem start (hc : c.Readable) (rest : List Char) : Start (c.write ++ rest) := by
  rw [write_eq, List.append_assoc]
  exact .of_name hc.name _

/-- **A written call is matched as a negation that shows it.** -/
theorem negation_matches (hc : c.Readable) (hrest : Quiet (skipped rest)) :
    Matches .spaced (.rule .negation) (c.write ++ rest) (skipped rest) (Found c.ShownBy) := by
  have hprimary := hc.primary_matches hrest
  rw [write_eq, List.append_assoc] at hprimary ⊢
  exact negation_of_primary hc.name (Draft.layered_shownBy_call c) hprimary hrest

end Call.Readable

end CatalogQuery
