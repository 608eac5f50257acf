import CatalogQuery.Proofs.Draft.Leaves
import CatalogQuery.Proofs.Grammar.InStep

/-!
# Supported drafts

Whatever is below an argument that is supported throughout, it is no call (`argument_no_call`). So
the calls of a draft that is supported throughout are all calls of its tree, and each argument of
each of them is supported (`ofTree_supported`): narrowing passes over no part of a call.
-/

namespace CatalogQuery

open Grammar

namespace Grammar.ParseTree

/-- A word, a sign, a comma or the end holds no call. -/
theorem Grown.no_call_of_isMark {t : ParseTree} (ht : t.Grown) (h : Branches.isMark t.rule = true) :
    t.Everywhere (·.rule ≠ .call) := by
  obtain ⟨rule, b, e, text, ts⟩ := t
  obtain rfl : ts = [] := ht.branches.of_isMark h
  refine .node ?_ (by simp)
  rintro (rfl : rule = .call)
  cases h

/-- A name or a literal holds no call. -/
theorem Grown.no_call_of_isAtom {t : ParseTree} (ht : t.Grown) (h : isAtom t.rule = true) :
    t.Everywhere (·.rule ≠ .call) := by
  obtain ⟨rule, b, e, text, ts⟩ := t
  have hrule : rule ≠ .call := by
    rintro rfl
    cases h
  -- atoms are tokens, or strings, whose parts are strings
  have hcases : rule.flavor = .token ∨ rule ∈ .string :: .formatted :: quoteRules := by
    cases rule <;> first | (cases h; done) | decide
  refine .node hrule fun u hu => ?_
  rcases hcases with htoken | hquoted
  · rw [ht.branches.leaf htoken] at hu
    cases hu
  · exact (ht.branches.grown u hu).ne_of_mem_quoteRules (by decide)
      (ht.branches.mem_quoteRules hquoted u hu)

end Grammar.ParseTree

namespace Draft

variable {r : Reading} {t : ParseTree}

theorem isLayer_ne_call {rule : Rule} (h : isLayer rule = true) : rule ≠ .call := by
  rintro rfl
  cases h

/-- **No call is below a supported argument.** -/
theorem argument_no_call (r : Reading) (ht : t.Grown) :
    (argument r t).Supported → t.Everywhere (·.rule ≠ .call) := by
  refine ParseTree.Grown.induct ?_ ht
  intro rule b e text ts hgrown ih hs
  have hts := hgrown.branches
  have hcases : Argued r rule (.node rule b e text ts) ts (argument r (.node rule b e text ts)) :=
    argument_cases r hts
  generalize argument r (.node rule b e text ts) = a at hcases hs
  cases hcases with
  | @layer child hchild hrule =>
    subst hchild
    exact .node (isLayer_ne_call hrule) (by simpa using ih child (by simp) hs)
  | @signed sign operand hchildren hrule hsign =>
    subst hchildren hrule
    obtain ⟨l, l', piece', hoperand, -, -⟩ := applySign_supported hs
    have hsign' := (hts.grown sign (by simp)).no_call_of_isMark (by rw [hsign]; rfl)
    have hoperand' := ih operand (by simp) (hoperand ▸ .literal l piece')
    exact .node (by rintro ⟨⟩) (by simpa using ⟨hsign', hoperand'⟩)
  | name hrule => exact hgrown.no_call_of_isAtom (by subst hrule; rfl)
  | items hrule =>
    cases hs with
    | list _ hs =>
      refine .node (by rcases hrule with rfl | rfl <;> rintro ⟨⟩) fun u hu => ?_
      -- the children of brackets are commas and items
      by_cases hcomma : u.rule = .comma
      · exact (hts.grown u hu).no_call_of_isMark (by rw [hcomma]; rfl)
      · refine ih u hu (hs _ ?_)
        rw [arguments_eq]
        exact List.mem_map_of_mem (List.mem_filter.mpr ⟨hu, by simpa using hcomma⟩)
  | literal =>
    obtain ⟨l, hl, -⟩ := literalOr_supported hs
    exact hgrown.no_call_of_isAtom (isAtom_of_literal? hl)

/-- The node is no call, or its arguments are supported throughout. -/
def CallsSupported (r : Reading) (t : ParseTree) : Prop :=
  t.rule = .call → ∀ a ∈ t.children, (argument r a).Supported

theorem callsSupported_of_no_call (h : t.Everywhere (·.rule ≠ .call)) :
    t.Everywhere (CallsSupported r) :=
  h.imp fun _ hne hcall => absurd hcall hne

/-- What is called is a name, so that the arguments of a supported call are all there is. -/
theorem callOf_supported {around : Surroundings} {c : DraftCall} (ht : t.Grown)
    (hrule : t.rule = .primary) (h : callOf r around t = .ok c) (hs : c.Supported) :
    t.Everywhere (CallsSupported r) := by
  obtain ⟨callee, args, hchildren, hcallee, hargs, -, harguments, -⟩ := callOf_ok h
  obtain ⟨rule, b, e, text, ts⟩ := t
  obtain rfl : rule = .primary := hrule
  obtain rfl : ts = [callee, args] := hchildren
  have hgrown := ht.branches.grown
  have hcallee' := (hgrown callee (by simp)).no_call_of_isAtom (by rw [hcallee]; rfl)
  have hsupported : ∀ a ∈ args.children, (argument r a).Supported := fun a ha =>
    hs _ (harguments ▸ List.mem_map_of_mem ha)
  have hargs' := hgrown args (by simp)
  obtain ⟨arule, ab, ae, atext, as⟩ := args
  -- the call itself by what narrowing has kept, and below its arguments there is no other
  have hall : (ParseTree.node arule ab ae atext as).Everywhere (CallsSupported r) :=
    .node (fun _ => hsupported) fun a ha => callsSupported_of_no_call
      (argument_no_call r (hargs'.branches.grown a ha) (hsupported a ha))
  exact .node (by rintro ⟨⟩) (by simpa using ⟨callsSupported_of_no_call hcallee', hall⟩)

/-- The operands of a chain, and the words between them. -/
theorem operands_supported {rule : Rule} {ts : List ParseTree} {ds : List Draft}
    (hgrown : ∀ t ∈ ts, t.Grown)
    (hmarks : ∀ t ∈ ts, t.rule = rule ∨ ParseTree.Branches.isMark t.rule = true)
    (hkept : ∀ t ∈ ts, ∀ around d, ofTree r around t = .ok d → d.Supported →
      t.Everywhere (CallsSupported r))
    (h : operands r rule ts = .ok ds) (hs : ∀ c ∈ callsOfEach ds, c.Supported) :
    ∀ t ∈ ts, t.Everywhere (CallsSupported r) := by
  intro t ht
  by_cases hrule : t.rule = rule
  · obtain ⟨d, hd, hof⟩ := exists_of_forall₂ (operands_forall₂ h).flip
      (List.mem_filter.mpr ⟨ht, by simpa using hrule⟩)
    exact hkept t ht _ d hof (supported_each_iff.mp hs d hd)
  · -- the words between the operands hold no calls
    exact callsSupported_of_no_call
      ((hgrown t ht).no_call_of_isMark ((hmarks t ht).resolve_left hrule))

/-- **All calls of a supported condition are supported**, wherever they are in its tree. -/
theorem ofTree_supported (ht : t.Grown) :
    ∀ around d, ofTree r around t = .ok d → d.Supported → t.Everywhere (CallsSupported r) := by
  refine ParseTree.Grown.induct ?_ ht
  intro rule b e text ts hgrown ih around d h hs
  have hts := hgrown.branches
  -- the node itself is no row of arguments
  have hne : ∀ {rule'}, rule = rule' → rule' ≠ .call →
      CallsSupported r (.node rule b e text ts) := by
    rintro _ rfl hne hcall
    exact absurd hcall hne
  cases ofTree_cases hts h with
  | @layer child _ hchild hrule h' =>
    subst hchild
    exact .node (hne rfl (isLayer_ne_call hrule)) (by simpa using ih child (by simp) _ _ h' hs)
  | @not word operand d hchildren hrule hword h' =>
    subst hchildren
    have hword' := (hts.grown word (by simp)).no_call_of_isMark (by rw [hword]; rfl)
    have hoperand := ih operand (by simp) _ _ h' hs
    exact .node (hne hrule (by decide))
      (by simpa using ⟨callsSupported_of_no_call hword', hoperand⟩)
  | any halt hmany hrule h' =>
    refine .node (hne hrule (by decide)) (operands_supported hts.grown (fun t ht => ?_) ih h' hs)
    exact (halt.rule_eq t ht).imp id fun hword => by rw [hword]; rfl
  | all halt hmany hrule h' =>
    refine .node (hne hrule (by decide)) (operands_supported hts.grown (fun t ht => ?_) ih h' hs)
    exact (halt.rule_eq t ht).imp id fun hword => by rw [hword]; rfl
  | call hrule h' => exact callOf_supported hgrown hrule h' (hs _ (by simp [calls]))

theorem aggregationOfTree_supported {c : DraftCall} (ht : t.Grown)
    (h : aggregationOfTree r t = .ok c) (hs : c.Supported) : t.Everywhere (CallsSupported r) := by
  revert h
  refine ParseTree.Grown.induct ?_ ht
  intro rule b e text ts hgrown ih h
  rcases aggregationOfTree_cases h with ⟨child, hchild, hrule, h'⟩ | ⟨hrule, h'⟩
  · subst hchild
    refine .node ?_ (by simpa using ih child (by simp) h')
    exact fun hcall => absurd hcall (isLayer_ne_call hrule)
  · exact callOf_supported hgrown hrule h' hs

end Draft

/-- Beside the statement of a source there is only the end of the input. -/
theorem Source.callsSupported_of_statement {source : String} {normal : List Char} {r : Reading}
    {tree t : ParseTree} (hparse : Grammar.parse normal = .ok tree)
    (h : Source.statement source normal = .ok t) (ht : t.Everywhere (Draft.CallsSupported r)) :
    tree.Everywhere (Draft.CallsSupported r) := by
  obtain ⟨tree', hparse', hfilter, -⟩ := Source.statement_ok h
  cases hparse.symm.trans hparse'
  refine ParseTree.Everywhere.of_statement hparse hfilter (fun u hu hcall => ?_) ht
  rw [hcall] at hu
  rcases hu with hu | hu <;> cases hu

end CatalogQuery
