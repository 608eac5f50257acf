import CatalogQuery.Parse
import CatalogQuery.Proofs.Basic
import CatalogQuery.Proofs.Grammar.Shape

/-!
# What narrowing can do

Each function of the narrowing pass has one lemma that says what it did when it succeeded on a tree
of the grammar: `ofTree_cases` for conditions, `callOf_ok` for calls, `argument_cases` for arguments
and `statement_ok` for whole sources. Later proofs use these and do not unfold the pass.
-/

namespace CatalogQuery

open Grammar

namespace Draft

/-! ### Conditions -/

/-- What `ofTree` did on a node: it looked through a layer, or it kept a negation, a chain of
operands, or a call. -/
inductive Narrowed (r : Reading) (around : Surroundings) (rule : Rule) (tree : ParseTree)
    (ts : List ParseTree) : Draft → Prop where
  | layer {child d} (hts : ts = [child]) (hrule : isLayer rule = true)
      (h : ofTree r around child = .ok d) : Narrowed r around rule tree ts d
  | not {word operand d} (hts : ts = [word, operand]) (hrule : rule = .negation)
      (hword : word.rule = .kwNot) (h : ofTree r .negation operand = .ok d) :
      Narrowed r around rule tree ts (.not d)
  | any {ds} (hts : Alternates .conjunction .kwOr ts) (hmany : ts.length ≠ 1)
      (hrule : rule = .disjunction) (h : operands r .conjunction ts = .ok ds) :
      Narrowed r around rule tree ts (.any ds)
  | all {ds} (hts : Alternates .negation .kwAnd ts) (hmany : ts.length ≠ 1)
      (hrule : rule = .conjunction) (h : operands r .negation ts = .ok ds) :
      Narrowed r around rule tree ts (.all ds)
  | call {c} (hrule : rule = .primary) (h : callOf r around tree = .ok c) :
      Narrowed r around rule tree ts (.call c)

/-- **What narrowing keeps of a condition.** -/
theorem ofTree_cases {r : Reading} {around : Surroundings} {rule : Rule} {b e : Nat}
    {text : List Char} {ts : List ParseTree} {d : Draft} (hts : ParseTree.Branches rule ts)
    (h : ofTree r around (.node rule b e text ts) = .ok d) :
    Narrowed r around rule (.node rule b e text ts) ts d := by
  unfold ofTree at h
  split at h
  · rename_i heq
    cases heq
    split at h
    · rename_i hrule
      exact .layer rfl hrule h
    · cases h
  · rename_i heq
    cases heq
    obtain ⟨d', hd', rfl⟩ := map_eq_ok h
    exact .not rfl rfl hts.negation.1 hd'
  · rename_i hsingle hnot heq
    cases heq
    -- one part would have been looked through
    have hmany : ts.length ≠ 1 := fun hlen => by
      obtain ⟨child, rfl⟩ := List.length_eq_one_iff.mp hlen
      exact hsingle _ rfl
    split_ifs at h with h1 h2 h3
    · subst h1
      obtain ⟨ds, hds, rfl⟩ := map_eq_ok h
      exact .any hts.disjunction hmany rfl hds
    · subst h2
      obtain ⟨ds, hds, rfl⟩ := map_eq_ok h
      exact .all hts.conjunction hmany rfl hds
    · obtain ⟨c, hc, rfl⟩ := map_eq_ok h
      exact .call h3 hc

theorem ofTree_layer {r : Reading} {around : Surroundings} {rule : Rule} {b e : Nat}
    {text : List Char} {t : ParseTree} (hrule : isLayer rule = true) :
    ofTree r around (.node rule b e text [t]) = ofTree r around t := by
  rw [ofTree, if_pos hrule]

section Nodes

variable {r : Reading} {around : Surroundings} {b e : Nat} {text : List Char} {ts : List ParseTree}

/-- A node with several parts, or with none, that is no negation. -/
theorem ofTree_several {rule : Rule} (hmany : ts.length ≠ 1) (hrule : rule ≠ .negation) :
    ofTree r around (.node rule b e text ts) =
      if rule = .disjunction then (operands r .conjunction ts).map .any
      else if rule = .conjunction then (operands r .negation ts).map .all
      else if rule = .primary then (callOf r around (.node rule b e text ts)).map .call
      else .error (refuse r around (.node rule b e text ts)) := by
  rw [ofTree]
  · rintro child rfl
    exact hmany rfl
  · exact fun _ _ h _ => hrule h

theorem ofTree_disjunction (hmany : ts.length ≠ 1) :
    ofTree r around (.node .disjunction b e text ts) = (operands r .conjunction ts).map .any := by
  rw [ofTree_several hmany (by decide), if_pos rfl]

theorem ofTree_conjunction (hmany : ts.length ≠ 1) :
    ofTree r around (.node .conjunction b e text ts) = (operands r .negation ts).map .all := by
  rw [ofTree_several hmany (by decide), if_neg (by decide), if_pos rfl]

theorem ofTree_primary (hmany : ts.length ≠ 1) :
    ofTree r around (.node .primary b e text ts)
      = (callOf r around (.node .primary b e text ts)).map .call := by
  rw [ofTree_several hmany (by decide), if_neg (by decide), if_neg (by decide), if_pos rfl]

theorem aggregationOfTree_several {rule : Rule} (hmany : ts.length ≠ 1) :
    aggregationOfTree r (.node rule b e text ts) =
      if rule = .primary then callOf r .topLevel (.node rule b e text ts)
      else if rule = .disjunction ∨ rule = .conjunction ∨ rule = .negation then
        .error (refuse r .aggregation (.node rule b e text ts))
      else .error (refuse r .topLevel (.node rule b e text ts)) := by
  rw [aggregationOfTree]
  rintro child rfl
  exact hmany rfl

end Nodes

/-- The operands of a chain are narrowed one by one; the nodes of other rules are passed over. -/
theorem operands_forall₂ {r : Reading} {rule : Rule} {ts : List ParseTree} {ds : List Draft}
    (h : operands r rule ts = .ok ds) :
    List.Forall₂ (fun t d => ofTree r .chain t = .ok d) (ts.filter (·.rule = rule)) ds := by
  induction ts generalizing ds with
  | nil => cases h; exact .nil
  | cons t ts ih =>
    rw [operands] at h
    -- what stands between the operands has another rule
    by_cases ht : t.rule = rule
    · rw [if_pos ht] at h
      rw [List.filter_cons_of_pos (by simpa using ht)]
      split at h
      · rename_i d hd
        obtain ⟨ds', hds', rfl⟩ := map_eq_ok h
        exact .cons hd (ih hds')
      · cases h
    · rw [if_neg ht] at h
      rw [List.filter_cons_of_neg (by simpa using ht)]
      exact ih h

/-! ### Calls -/

/-- **What narrowing keeps of a call**: the function of the catalog that the callee names, and all
arguments, as many as the function has parameters. -/
theorem callOf_ok {r : Reading} {around : Surroundings} {tree : ParseTree} {c : DraftCall}
    (h : callOf r around tree = .ok c) :
    ∃ callee args, tree.children = [callee, args] ∧ callee.rule = .ident ∧ args.rule = .call ∧
      r.catalog.find? (String.ofList callee.text) = some c.function ∧
      c.arguments = args.children.map (argument r) ∧
      c.arguments.length = c.function.parameters.length := by
  unfold callOf at h
  split at h
  · rename_i callee args hchildren
    split at h
    · rename_i hrules
      dsimp only at h
      split at h
      · cases h
      · rename_i f hf
        split at h
        · cases h
        · split at h
          · rename_i harity
            cases h
            -- found in the catalog, nothing spread or named, and the right number
            exact ⟨callee, args, hchildren, hrules.1, hrules.2, hf, rfl, harity⟩
          · cases h
    · cases h
  · cases h

/-- What narrowing keeps of an aggregation: a call, under any number of layers. -/
theorem aggregationOfTree_cases {r : Reading} {rule : Rule} {b e : Nat} {text : List Char}
    {ts : List ParseTree} {c : DraftCall}
    (h : aggregationOfTree r (.node rule b e text ts) = .ok c) :
    (∃ child, ts = [child] ∧ isLayer rule = true ∧ aggregationOfTree r child = .ok c) ∨
      rule = .primary ∧ callOf r .topLevel (.node rule b e text ts) = .ok c := by
  unfold aggregationOfTree at h
  split at h
  · rename_i child heq
    cases heq
    split at h
    · rename_i hrule
      exact .inl ⟨child, rfl, hrule, h⟩
    · cases h
  · rename_i heq
    cases heq
    dsimp only at h
    split_ifs at h with hrule
    -- conditions are refused as aggregations
    exact .inr ⟨hrule, h⟩

theorem aggregationOfTree_layer {r : Reading} {rule : Rule} {b e : Nat} {text : List Char}
    {t : ParseTree} (hrule : isLayer rule = true) :
    aggregationOfTree r (.node rule b e text [t]) = aggregationOfTree r t := by
  rw [aggregationOfTree, if_pos hrule]

/-! ### Arguments -/

/-- What `argument` did on a node: it looked through a layer, or it read a sign, a name, a row of
items or a literal. -/
inductive Argued (r : Reading) (rule : Rule) (tree : ParseTree) (ts : List ParseTree) :
    RawArg → Prop where
  | layer {child} (hts : ts = [child]) (hrule : isLayer rule = true) :
      Argued r rule tree ts (argument r child)
  | signed {sign operand} (hts : ts = [sign, operand]) (hrule : rule = .signed)
      (hsign : sign.rule = .sign) :
      Argued r rule tree ts (applySign sign.text (argument r operand) (snippet r tree))
  | name (hrule : rule = .ident) :
      Argued r rule tree ts (.name (String.ofList tree.text) (snippet r tree))
  | items (hrule : rule = .group ∨ rule = .list) :
      Argued r rule tree ts (.list (arguments r ts) (snippet r tree))
  | literal : Argued r rule tree ts (literalOr (snippet r tree) (literal? tree))

/-- **What narrowing keeps of an argument.** -/
theorem argument_cases (r : Reading) {rule : Rule} {b e : Nat} {text : List Char}
    {ts : List ParseTree} (hts : ParseTree.Branches rule ts) :
    Argued r rule (.node rule b e text ts) ts (argument r (.node rule b e text ts)) := by
  unfold argument
  split
  · rename_i heq
    cases heq
    split_ifs with hlayer hlist
    · exact .layer rfl hlayer
    · exact .items (.inr hlist)
    · exact .literal
  · rename_i heq
    cases heq
    -- of two parts of a signed operand the first is the sign
    exact .signed rfl rfl hts.signed.1
  · rename_i heq
    cases heq
    dsimp only
    split_ifs with hname hitems
    · exact .name hname
    · exact .items (hitems.imp id And.left)
    · exact .literal

section Catalogs

variable (source normal : List Char) (catalog : Catalog)

mutual

/-- Arguments are read without the catalog. -/
theorem argument_catalog (catalog' : Catalog) :
    ∀ t, argument ⟨source, normal, catalog⟩ t = argument ⟨source, normal, catalog'⟩ t
  | .node rule b e text ts => by
    unfold argument
    split
    · rename_i child heq
      cases heq
      split_ifs
      · exact argument_catalog catalog' child
      · -- a list of one item
        rw [arguments_catalog catalog' [child]]
        rfl
      · rfl
    · rename_i operand heq
      cases heq
      rw [argument_catalog catalog' operand]
      rfl
    · rename_i heq
      cases heq
      rw [arguments_catalog catalog' ts]
      rfl

theorem arguments_catalog (catalog' : Catalog) :
    ∀ ts, arguments ⟨source, normal, catalog⟩ ts = arguments ⟨source, normal, catalog'⟩ ts
  | [] => rfl
  | t :: rest => by
    rw [arguments, arguments, argument_catalog catalog' t, arguments_catalog catalog' rest]

end

end Catalogs

/-- The items of a bracket, without its commas. -/
theorem arguments_eq (r : Reading) (ts : List ParseTree) :
    arguments r ts = (ts.filter (·.rule ≠ .comma)).map (argument r) := by
  induction ts with
  | nil => rfl
  | cons t ts ih =>
    rw [arguments]
    by_cases ht : t.rule = .comma
    · rw [if_pos ht, ih, List.filter_cons_of_neg (by simpa using ht)]
    · rw [if_neg ht, ih, List.filter_cons_of_pos (by simpa using ht), List.map_cons]

end Draft

/-! ### Sources -/

/-- **What is kept of a source**: it has one statement, an expression, and beside it only the end
of the input. -/
theorem Source.statement_ok {source : String} {normal : List Char} {t : ParseTree}
    (h : Source.statement source normal = .ok t) :
    ∃ tree, Grammar.parse normal = .ok tree ∧
      tree.children.filter (·.rule != .endOfInput) = [t] ∧ t.rule = .exprStmt := by
  unfold Source.statement at h
  dsimp only at h
  split at h
  · cases h
  · rename_i tree htree
    split at h
    · cases h
    · rename_i s hs
      split at h
      · rename_i hrule
        cases h
        -- no import and no assignment
        exact ⟨tree, htree, hs, hrule⟩
      · cases h
    · cases h

/-- A program of one expression is kept. -/
theorem Source.statement_of_reads {cs : List Char} {c : Cursor} {tree t final : ParseTree}
    (h : Reads .spaced (.rule .program) ⟨cs, 0⟩ (some (c, [tree])))
    (hchildren : tree.children = [t, final]) (ht : t.rule = .exprStmt)
    (hfinal : final.rule = .endOfInput) (source : String) : Source.statement source cs = .ok t := by
  have hparse : Grammar.parse cs = .ok tree := parse_eq_ok_iff.mpr ⟨c, h⟩
  -- only the end of the input stands beside the expression
  have hfilter : tree.children.filter (·.rule != .endOfInput) = [t] := by
    simp [hchildren, ht, hfinal]
  unfold statement
  rw [hparse]
  dsimp only
  rw [hfilter]
  dsimp only
  rw [if_pos ht]

/-- **What is kept of a source is narrowed**, as its only statement. -/
theorem Source.draft_eq_ok_iff {δ : Type} {narrow : Reading → ParseTree → Except QueryError δ}
    {source : String} {catalog : Catalog} {d : δ} :
    Source.draft narrow source catalog = .ok d ↔
      ∃ t, Source.statement source (Source.normalizeChars source.toList) = .ok t ∧
        narrow ⟨source.toList, Source.normalizeChars source.toList, catalog⟩ t = .ok d := by
  unfold Source.draft
  dsimp only
  constructor
  · intro h
    split at h
    · rename_i t ht
      exact ⟨t, ht, h⟩
    · cases h
  · rintro ⟨t, ht, hd⟩
    rw [ht]
    exact hd

end CatalogQuery
