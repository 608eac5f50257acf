import CatalogQuery.Proofs.Draft.Narrow

/-!
# Narrowing and snippets

Narrowing attaches to what it keeps, and to what it refuses, the piece of the source that a node was
made from. The pieces play no part in what is kept: a map of trees that `Keeps` what narrowing looks
at, and that goes along with a map `f` of snippets, gives the same drafts and the same refusals but
for their snippets, to which `f` is applied (`argument_mapPieces`, `ofTree_mapPieces`,
`aggregationOfTree_mapPieces`).
-/

namespace CatalogQuery

open Grammar

/-- A computation with its result and its error changed. -/
def mapBoth {ε ε' α β : Type} (k : ε → ε') (h : α → β) : Except ε α → Except ε' β
  | .ok a => .ok (h a)
  | .error e => .error (k e)

section Both

variable {ε ε' α β γ δ : Type} {k : ε → ε'} {h : α → β} {h' : γ → δ} {x y : Except ε α}

/-- What is the same when changed goes on to what is the same when changed. -/
theorem mapBoth_bind (hxy : mapBoth k h x = mapBoth k h y) {u v : α → Except ε γ}
    (huv : ∀ a b, h a = h b → mapBoth k h' (u a) = mapBoth k h' (v b)) :
    mapBoth k h' (x.bind u) = mapBoth k h' (y.bind v) := by
  cases x with
  | ok a =>
    cases y with
    | ok b => exact huv a b (Except.ok.inj hxy)
    | error e => cases hxy
  | error e =>
    cases y with
    | ok b => cases hxy
    | error e' => exact congrArg Except.error (Except.error.inj hxy)

theorem mapBoth_map (hxy : mapBoth k h x = mapBoth k h y) {u v : α → γ}
    (huv : ∀ a b, h a = h b → h' (u a) = h' (v b)) :
    mapBoth k h' (x.map u) = mapBoth k h' (y.map v) := by
  cases x with
  | ok a =>
    cases y with
    | ok b => exact congrArg Except.ok (huv a b (Except.ok.inj hxy))
    | error e => cases hxy
  | error e =>
    cases y with
    | ok b => cases hxy
    | error e' => exact congrArg Except.error (Except.error.inj hxy)

end Both

/-! ### Drafts with other snippets -/

section Maps

variable (f : Snippet → Snippet)

namespace RawArg

mutual

/-- The argument with `f` applied to its snippets. -/
def mapPieces : RawArg → RawArg
  | .literal l piece => .literal l (f piece)
  | .list items piece => .list (mapPiecesEach items) (f piece)
  | .name n piece => .name n (f piece)
  | .unsupported piece => .unsupported (f piece)

def mapPiecesEach : List RawArg → List RawArg
  | [] => []
  | a :: rest => a.mapPieces :: mapPiecesEach rest

end

theorem mapPiecesEach_eq (as : List RawArg) : mapPiecesEach f as = as.map (mapPieces f) := by
  induction as with
  | nil => rfl
  | cons a as ih => rw [mapPiecesEach, ih, List.map_cons]

theorem snippet_mapPieces (a : RawArg) : (a.mapPieces f).snippet = f a.snippet := by
  cases a <;> rw [mapPieces] <;> rfl

end RawArg

/-- The call with `f` applied to its snippets. -/
def DraftCall.mapPieces (c : DraftCall) : DraftCall :=
  { c with arguments := c.arguments.map (RawArg.mapPieces f) }

namespace Draft

mutual

/-- The draft with `f` applied to its snippets. -/
def mapPieces : Draft → Draft
  | .all ds => .all (mapPiecesEach ds)
  | .any ds => .any (mapPiecesEach ds)
  | .not d => .not d.mapPieces
  | .call c => .call (c.mapPieces f)

def mapPiecesEach : List Draft → List Draft
  | [] => []
  | d :: rest => d.mapPieces :: mapPiecesEach rest

end

theorem mapPiecesEach_eq (ds : List Draft) : mapPiecesEach f ds = ds.map (mapPieces f) := by
  induction ds with
  | nil => rfl
  | cons d ds ih => rw [mapPiecesEach, ih, List.map_cons]

end Draft

/-- The error with `f` applied to its snippets. -/
def QueryError.mapPieces : QueryError → QueryError
  | malformed expected place source => malformed expected place source
  | noStatement source => noStatement source
  | severalStatements statements => severalStatements (statements.map f)
  | notAnExpression s => notAnExpression (f s)
  | unsupported construct surroundings s => unsupported construct surroundings (f s)
  | unknownFunction name s => unknownFunction name (f s)
  | wrongArity name expected actual s => wrongArity name expected actual (f s)
  | invalidArgument s => invalidArgument (f s)
  | contextNotAllowed parameter s => contextNotAllowed parameter (f s)
  | contextNotFound name s => contextNotFound name (f s)
  | invalidValue parameter type why s => invalidValue parameter type why (f s)

end Maps

/-! ### Trees with other snippets -/

namespace Grammar.ParseTree.Everywhere

variable {P Q : ParseTree → Prop} {t : ParseTree}

theorem self (h : t.Everywhere P) : P t := by
  cases h with
  | node h _ => exact h

theorem children (h : t.Everywhere P) : ∀ u ∈ t.children, u.Everywhere P := by
  cases h with
  | node _ hts => exact hts

theorem children_self (h : t.Everywhere P) : ∀ u ∈ t.children, P u := fun u hu =>
  (h.children u hu).self

theorem of_forall (h : ∀ t, P t) (t : ParseTree) : t.Everywhere P := by
  cases t with
  | node rule b e text ts => exact .node (h _) fun u hu => of_forall h u

/-- Induction on the nodes of a tree that all have a property. -/
theorem induct (h : t.Everywhere P)
    (node : ∀ t, t.Everywhere P → (∀ u ∈ t.children, Q u) → Q t) : Q t := by
  induction h with
  | node h hts ih => exact node _ (.node h hts) ih

end Grammar.ParseTree.Everywhere

namespace Draft

/-- A map of trees keeps what narrowing looks at in a node: the rule, the parts, and the text of
names, literals and signs. -/
structure Keeps (g : ParseTree → ParseTree) (t : ParseTree) : Prop where
  rule : (g t).rule = t.rule
  children : (g t).children = t.children.map g
  name : t.rule = .ident → (g t).text = t.text
  literal : literal? (g t) = literal? t
  sign : ∀ sign operand, t.rule = .signed → t.children = [sign, operand] → (g sign).text = sign.text

/-! What narrowing reads a node as, by the number of its parts. -/

section Nodes

variable (r : Reading) {around : Surroundings} {t child operand : ParseTree}

theorem argument_single (h : t.children = [child]) :
    argument r t = if isLayer t.rule then argument r child
      else if t.rule = .list then .list (arguments r [child]) (snippet r t)
      else literalOr (snippet r t) (literal? t) := by
  cases t
  obtain rfl := h
  rw [argument]
  rfl

theorem argument_signed {sign : ParseTree} (hrule : t.rule = .signed)
    (h : t.children = [sign, operand]) :
    argument r t = applySign sign.text (argument r operand) (snippet r t) := by
  cases t
  obtain rfl := h
  obtain rfl := hrule
  rw [argument]

/-- What an argument is read as if it is neither under a layer nor signed. -/
theorem argument_several (hsingle : t.children.length ≠ 1)
    (hsigned : t.rule = .signed → t.children.length ≠ 2) :
    argument r t
      = if t.rule = .ident then .name (String.ofList t.text) (snippet r t)
        else if t.rule = .group ∨ (t.rule = .list ∧ !t.children.any (·.rule == .comprehension)) then
          .list (arguments r t.children) (snippet r t)
        else literalOr (snippet r t) (literal? t) := by
  cases t with
  | node rule b e text ts =>
    rw [argument]
    · rfl
    · rintro child rfl
      exact hsingle rfl
    · rintro sign operand rfl rfl
      exact hsigned rfl rfl

theorem callOf_pair {callee args : ParseTree} (h : t.children = [callee, args]) :
    callOf r around t
      = if callee.rule = .ident ∧ args.rule = .call then
          match r.catalog.find? (String.ofList callee.text) with
          | none => .error (.unknownFunction (String.ofList callee.text) (snippet r t))
          | some function =>
            match args.children.find? fun a => a.rule == .keywordArg || a.rule == .starArg with
            | some a => .error (refuse r .call a)
            | none =>
              if args.children.length = function.arity then
                .ok ⟨function, args.children.map (argument r)⟩
              else .error (.wrongArity function.name function.arity args.children.length (snippet r t))
        else .error (refuse r around t) := by
  -- the arguments are counted after they were read
  have hlength : args.children.length = (args.children.map (argument r)).length :=
    (List.length_map _).symm
  obtain ⟨rule, b, e, text, ts⟩ := t
  obtain rfl : ts = [callee, args] := h
  rw [hlength]
  rfl

theorem callOf_other (h : t.children.length ≠ 2) :
    callOf r around t = .error (refuse r around t) := by
  unfold callOf
  split
  · rename_i hpair
    exact absurd (congrArg List.length hpair) h
  · rfl

theorem ofTree_single (h : t.children = [child]) :
    ofTree r around t = if isLayer t.rule then ofTree r around child else .error (refuse r around t) := by
  cases t
  obtain rfl := h
  rw [ofTree]
  rfl

theorem ofTree_not {word : ParseTree} (hrule : t.rule = .negation)
    (h : t.children = [word, operand]) :
    ofTree r around t = (ofTree r .negation operand).map .not := by
  cases t
  obtain rfl := h
  obtain rfl := hrule
  rw [ofTree]

/-- A node with several parts, or with none, that does not negate its operand. -/
theorem ofTree_chain (hsingle : t.children.length ≠ 1)
    (hnot : t.rule = .negation → t.children.length ≠ 2) :
    ofTree r around t
      = if t.rule = .disjunction then (operands r .conjunction t.children).map .any
        else if t.rule = .conjunction then (operands r .negation t.children).map .all
        else if t.rule = .primary then (callOf r around t).map .call
        else .error (refuse r around t) := by
  cases t with
  | node rule b e text ts =>
    rw [ofTree]
    · rfl
    · rintro child rfl
      exact hsingle rfl
    · rintro word operand rfl rfl
      exact hnot rfl rfl

theorem operands_cons {rule : Rule} {ts : List ParseTree} :
    operands r rule (t :: ts)
      = if t.rule = rule then
          (ofTree r .chain t).bind fun d => (operands r rule ts).map (d :: ·)
        else operands r rule ts := by
  rw [operands]
  cases ofTree r .chain t <;> rfl

theorem aggregationOfTree_single (h : t.children = [child]) :
    aggregationOfTree r t = if isLayer t.rule then aggregationOfTree r child
      else .error (refuse r .topLevel t) := by
  cases t
  obtain rfl := h
  rw [aggregationOfTree]
  rfl

theorem aggregationOfTree_call (hsingle : t.children.length ≠ 1) :
    aggregationOfTree r t
      = if t.rule = .primary then callOf r .topLevel t
        else if t.rule = .disjunction ∨ t.rule = .conjunction ∨ t.rule = .negation then
          .error (refuse r .aggregation t)
        else .error (refuse r .topLevel t) := by
  cases t with
  | node rule b e text ts => exact aggregationOfTree_several hsingle

end Nodes

section Pieces

variable {f : Snippet → Snippet} {g : ParseTree → ParseTree} {r r' : Reading}
  {around : Surroundings} {t : ParseTree} {ts : List ParseTree}

/-- The first node of some rules among the parts of a node. -/
theorem find?_rule (hts : ∀ t ∈ ts, Keeps g t) (p : Rule → Bool) :
    (ts.map g).find? (fun t => p t.rule) = (ts.find? fun t => p t.rule).map g := by
  induction ts with
  | nil => rfl
  | cons t ts ih =>
    obtain ⟨ht, hts⟩ := List.forall_mem_cons.mp hts
    rw [List.map_cons, List.find?_cons, List.find?_cons, ht.rule, ih hts]
    cases p t.rule <;> rfl

theorem any_rule (hts : ∀ t ∈ ts, Keeps g t) (p : Rule → Bool) :
    (ts.map g).any (fun t => p t.rule) = ts.any fun t => p t.rule := by
  rw [← List.isSome_find?, ← List.isSome_find?, find?_rule hts, Option.isSome_map]

theorem construct_eq (h : Keeps g t) (hts : ∀ u ∈ t.children, Keeps g u) :
    construct (g t) = construct t := by
  have hany := any_rule hts (· == .comprehension)
  have hlast : (t.children.map g).getLast?.map ParseTree.rule
      = t.children.getLast?.map ParseTree.rule := by
    rw [List.getLast?_map, Option.map_map]
    cases hlast : t.children.getLast? with
    | none => rfl
    | some u => exact congrArg some (hts u (List.mem_of_getLast? hlast)).rule
  unfold construct
  rw [h.rule, h.children, hany, hlast]

theorem literalOr_mapPieces (piece : Snippet) (l? : Option Literal) :
    (literalOr piece l?).mapPieces f = literalOr (f piece) l? := by
  cases l? <;> rw [literalOr, RawArg.mapPieces] <;> rfl

theorem applySign_mapPieces (sign : List Char) (a : RawArg) (piece : Snippet) :
    (applySign sign a piece).mapPieces f = applySign sign (a.mapPieces f) (f piece) := by
  cases a with
  | literal l _ => exact literalOr_mapPieces piece _
  | list | name | unsupported => rfl

theorem arguments_mapPieces (hts : ∀ t ∈ ts, Keeps g t)
    (ih : ∀ t ∈ ts, (argument r' (g t)).mapPieces f = (argument r t).mapPieces f) :
    (arguments r' (ts.map g)).map (RawArg.mapPieces f)
      = (arguments r ts).map (RawArg.mapPieces f) := by
  induction ts with
  | nil => rfl
  | cons t ts ihts =>
    obtain ⟨ht, hts⟩ := List.forall_mem_cons.mp hts
    obtain ⟨iht, ih⟩ := List.forall_mem_cons.mp ih
    rw [List.map_cons, arguments, arguments, ht.rule]
    -- commas are commas in both trees
    split_ifs
    · exact ihts hts ih
    · rw [List.map_cons, List.map_cons, iht, ihts hts ih]

variable (hpiece : ∀ t, f (snippet r' (g t)) = f (snippet r t))

include hpiece

/-- **Arguments are the same** but for their snippets. By induction on the tree; the cases are by
the number of parts, as those of `argument` are. -/
theorem argument_mapPieces (ht : t.Everywhere (Keeps g)) :
    (argument r' (g t)).mapPieces f = (argument r t).mapPieces f := by
  refine ht.induct (Q := fun t => (argument r' (g t)).mapPieces f = (argument r t).mapPieces f)
    fun t ht ih => ?_
  have h : Keeps g t := ht.self
  have hts : ∀ u ∈ t.children, Keeps g u := ht.children_self
  -- rows of items and literals are read in several branches below
  have hitems : (RawArg.list (arguments r' (t.children.map g)) (snippet r' (g t))).mapPieces f
      = (RawArg.list (arguments r t.children) (snippet r t)).mapPieces f := by
    rw [RawArg.mapPieces, RawArg.mapPieces, RawArg.mapPiecesEach_eq, RawArg.mapPiecesEach_eq,
      arguments_mapPieces hts ih, hpiece]
  have hliteral : (literalOr (snippet r' (g t)) (literal? (g t))).mapPieces f
      = (literalOr (snippet r t) (literal? t)).mapPieces f := by
    rw [literalOr_mapPieces, literalOr_mapPieces, hpiece, h.literal]
  by_cases hsingle : t.children.length = 1
  · obtain ⟨child, hchild⟩ := List.length_eq_one_iff.mp hsingle
    have hmapped : (g t).children = [g child] := by rw [h.children, hchild, List.map_singleton]
    rw [hchild, List.map_singleton] at hitems
    rw [argument_single r' hmapped, argument_single r hchild, h.rule]
    split_ifs
    · exact ih child (hchild ▸ List.mem_singleton_self child)
    · exact hitems
    · exact hliteral
  · by_cases hsigned : t.rule = .signed ∧ t.children.length = 2
    · obtain ⟨hrule, htwo⟩ := hsigned
      obtain ⟨sign, operand, hchildren⟩ := List.length_eq_two.mp htwo
      have hmapped : (g t).children = [g sign, g operand] := by rw [h.children, hchildren]; rfl
      have hoperand := ih operand (by rw [hchildren]; simp)
      rw [argument_signed r' (h.rule.trans hrule) hmapped, argument_signed r hrule hchildren,
        applySign_mapPieces, applySign_mapPieces, hpiece, h.sign sign operand hrule hchildren, hoperand]
    · have hnotsigned : t.rule = .signed → t.children.length ≠ 2 := fun h h' => hsigned ⟨h, h'⟩
      rw [argument_several r hsingle hnotsigned, argument_several r'
        (by rwa [h.children, List.length_map]) (by rwa [h.rule, h.children, List.length_map]), h.rule,
        h.children, any_rule hts (· == .comprehension)]
      split_ifs with hname
      · rw [RawArg.mapPieces, RawArg.mapPieces, hpiece, h.name hname]
      · exact hitems
      · exact hliteral

theorem refuse_mapPieces (h : Keeps g t) (hts : ∀ u ∈ t.children, Keeps g u) :
    (refuse r' around (g t)).mapPieces f = (refuse r around t).mapPieces f := by
  rw [refuse, refuse, QueryError.mapPieces, QueryError.mapPieces, hpiece, construct_eq h hts]

variable (hcatalog : r'.catalog = r.catalog)

include hcatalog

/-- **Calls are the same**, and so are their refusals, but for their snippets. -/
theorem callOf_mapPieces (ht : t.Everywhere (Keeps g)) :
    mapBoth (QueryError.mapPieces f) (DraftCall.mapPieces f) (callOf r' around (g t))
      = mapBoth (QueryError.mapPieces f) (DraftCall.mapPieces f) (callOf r around t) := by
  have hrefuse : (refuse r' around (g t)).mapPieces f = (refuse r around t).mapPieces f :=
    refuse_mapPieces hpiece ht.self ht.children_self
  by_cases htwo : t.children.length = 2
  · obtain ⟨callee, args, hchildren⟩ := List.length_eq_two.mp htwo
    have hmapped : (g t).children = [g callee, g args] := by rw [ht.self.children, hchildren]; rfl
    have hcallee : Keeps g callee := ht.children_self callee (by simp [hchildren])
    have hargs : args.Everywhere (Keeps g) := ht.children args (by simp [hchildren])
    have hgiven := find?_rule hargs.children_self fun rule => rule == .keywordArg || rule == .starArg
    rw [callOf_pair r' hmapped, callOf_pair r hchildren, hcallee.rule, hargs.self.rule]
    split_ifs with hrules
    · -- the function, what is given by keyword and the number of arguments are found alike; the
      -- snippets differ in the call, in the errors and in the arguments
      rw [hcallee.name hrules.1, hcatalog, hargs.self.children, hgiven, List.length_map]
      cases r.catalog.find? (String.ofList callee.text) with
      | none => simp only [mapBoth, QueryError.mapPieces, hpiece]
      | some function =>
        cases hfound : args.children.find? fun a => a.rule == .keywordArg || a.rule == .starArg with
        | some a =>
          have ha := hargs.children a (List.mem_of_find?_eq_some hfound)
          exact congrArg Except.error (refuse_mapPieces hpiece ha.self ha.children_self)
        | none =>
          dsimp only [Option.map_none]
          split_ifs
          · have harguments : ((args.children.map g).map (argument r')).map (RawArg.mapPieces f)
                = (args.children.map (argument r)).map (RawArg.mapPieces f) := by
              rw [List.map_map, List.map_map, List.map_map]
              exact List.map_congr_left fun a ha => argument_mapPieces hpiece (hargs.children a ha)
            simp only [mapBoth, DraftCall.mapPieces, harguments]
          · simp only [mapBoth, QueryError.mapPieces, hpiece]
    · exact congrArg Except.error hrefuse
  · rw [callOf_other r htwo, callOf_other r' (by rwa [ht.self.children, List.length_map])]
    exact congrArg Except.error hrefuse

omit hpiece hcatalog in
theorem operands_mapPieces (hts : ∀ t ∈ ts, Keeps g t)
    (ih : ∀ t ∈ ts, ∀ around, mapBoth (QueryError.mapPieces f) (mapPieces f) (ofTree r' around (g t))
      = mapBoth (QueryError.mapPieces f) (mapPieces f) (ofTree r around t)) (rule : Rule) :
    mapBoth (QueryError.mapPieces f) (mapPiecesEach f) (operands r' rule (ts.map g))
      = mapBoth (QueryError.mapPieces f) (mapPiecesEach f) (operands r rule ts) := by
  induction ts with
  | nil => rfl
  | cons t ts ihts =>
    obtain ⟨ht, hts⟩ := List.forall_mem_cons.mp hts
    obtain ⟨iht, ih⟩ := List.forall_mem_cons.mp ih
    have hrest := ihts hts ih
    rw [List.map_cons, operands_cons, operands_cons, ht.rule]
    split_ifs
    · -- the first operand, and if it is no refusal, the others
      refine mapBoth_bind (iht .chain) fun d' d hd => mapBoth_map hrest fun ds' ds hds => ?_
      rw [mapPiecesEach, mapPiecesEach, hd, hds]
    · exact hrest

/-- **Conditions are the same**, and so are their refusals, but for their snippets. By induction on
the tree, as for arguments. -/
theorem ofTree_mapPieces (ht : t.Everywhere (Keeps g)) (around : Surroundings) :
    mapBoth (QueryError.mapPieces f) (mapPieces f) (ofTree r' around (g t))
      = mapBoth (QueryError.mapPieces f) (mapPieces f) (ofTree r around t) := by
  refine ht.induct (Q := fun t => ∀ around,
    mapBoth (QueryError.mapPieces f) (mapPieces f) (ofTree r' around (g t))
      = mapBoth (QueryError.mapPieces f) (mapPieces f) (ofTree r around t))
    (fun t ht ih around => ?_) around
  have h : Keeps g t := ht.self
  have hts : ∀ u ∈ t.children, Keeps g u := ht.children_self
  -- refusals differ in their snippets only
  have hrefuse : mapBoth (QueryError.mapPieces f) (mapPieces f) (.error (refuse r' around (g t)))
      = mapBoth (QueryError.mapPieces f) (mapPieces f) (.error (refuse r around t)) :=
    congrArg Except.error (refuse_mapPieces hpiece h hts)
  by_cases hsingle : t.children.length = 1
  · obtain ⟨child, hchild⟩ := List.length_eq_one_iff.mp hsingle
    -- one part, which is narrowed where a layer stands
    have hmapped : (g t).children = [g child] := by rw [h.children, hchild, List.map_singleton]
    rw [ofTree_single r' hmapped, ofTree_single r hchild, h.rule]
    split_ifs
    · exact ih child (hchild ▸ List.mem_singleton_self child) around
    · exact hrefuse
  · by_cases hnot : t.rule = .negation ∧ t.children.length = 2
    · obtain ⟨hrule, htwo⟩ := hnot
      obtain ⟨word, operand, hchildren⟩ := List.length_eq_two.mp htwo
      -- a negation
      have hmapped : (g t).children = [g word, g operand] := by rw [h.children, hchildren]; rfl
      rw [ofTree_not r' (h.rule.trans hrule) hmapped, ofTree_not r hrule hchildren]
      refine mapBoth_map (ih operand (by simp [hchildren]) .negation) fun d' d hd => ?_
      rw [mapPieces, mapPieces, hd]
    · -- chains and calls
      have hchain : t.rule = .negation → t.children.length ≠ 2 := fun h h' => hnot ⟨h, h'⟩
      rw [ofTree_chain r hsingle hchain, ofTree_chain r' (by rwa [h.children, List.length_map])
        (by rwa [h.rule, h.children, List.length_map]), h.rule, h.children]
      split_ifs
      · refine mapBoth_map (operands_mapPieces hts ih _) fun ds' ds hds => ?_
        rw [mapPieces, mapPieces, hds]
      · refine mapBoth_map (operands_mapPieces hts ih _) fun ds' ds hds => ?_
        rw [mapPieces, mapPieces, hds]
      · refine mapBoth_map (callOf_mapPieces hpiece hcatalog ht) fun c' c hc => ?_
        rw [mapPieces, mapPieces, hc]
      · exact hrefuse

/-- **The call of an aggregation is the same**, and so is its refusal, but for their snippets. -/
theorem aggregationOfTree_mapPieces (ht : t.Everywhere (Keeps g)) :
    mapBoth (QueryError.mapPieces f) (DraftCall.mapPieces f) (aggregationOfTree r' (g t))
      = mapBoth (QueryError.mapPieces f) (DraftCall.mapPieces f) (aggregationOfTree r t) := by
  refine ht.induct (Q := fun t =>
    mapBoth (QueryError.mapPieces f) (DraftCall.mapPieces f) (aggregationOfTree r' (g t))
      = mapBoth (QueryError.mapPieces f) (DraftCall.mapPieces f) (aggregationOfTree r t))
    fun t ht ih => ?_
  have h : Keeps g t := ht.self
  have hrefuse : ∀ around : Surroundings,
      mapBoth (QueryError.mapPieces f) (DraftCall.mapPieces f) (.error (refuse r' around (g t)))
        = mapBoth (QueryError.mapPieces f) (DraftCall.mapPieces f) (.error (refuse r around t)) :=
    fun around => congrArg Except.error (refuse_mapPieces hpiece h ht.children_self)
  -- a layer is looked through, a call is narrowed, all else is refused
  by_cases hsingle : t.children.length = 1
  · obtain ⟨child, hchild⟩ := List.length_eq_one_iff.mp hsingle
    have hmapped : (g t).children = [g child] := by rw [h.children, hchild, List.map_singleton]
    rw [aggregationOfTree_single r' hmapped, aggregationOfTree_single r hchild, h.rule]
    split_ifs
    · exact ih child (hchild ▸ List.mem_singleton_self child)
    · exact hrefuse .topLevel
  · rw [aggregationOfTree_call r hsingle,
      aggregationOfTree_call r' (by rwa [h.children, List.length_map]), h.rule]
    split_ifs
    · exact callOf_mapPieces hpiece hcatalog ht
    · exact hrefuse .aggregation
    · exact hrefuse .topLevel

end Pieces

end Draft

end CatalogQuery
