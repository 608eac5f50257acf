import CatalogQuery.Proofs.Draft.Narrow
import CatalogQuery.Proofs.Grammar.Spans

/-!
# Narrowing cuts snippets out of the source

A snippet is `Exact` if its text is what the source has between its two offsets. The snippets of
drafts and refusals are made of nodes, and nodes are cut out of the source: `argument_exact` for
arguments, `callOf_exact` for calls, `ofTree_exact` and `aggregationOfTree_exact` for statements.
-/

namespace CatalogQuery

open Grammar

/-- The pieces of the source that an error shows. -/
def QueryError.snippets : QueryError → List Snippet
  | malformed .. | noStatement _ => []
  | severalStatements statements => statements
  | notAnExpression s | unsupported _ _ s | unknownFunction _ s | wrongArity _ _ _ s
  | invalidArgument s | contextNotAllowed _ s | contextNotFound _ s | invalidValue _ _ _ s => [s]

/-- The piece that an error points at is the first that it shows. -/
theorem QueryError.head?_snippets (e : QueryError) : e.snippets.head? = e.snippet? := by
  cases e <;> rfl

/-! ### Exact snippets -/

/-- The text of the snippet is what a source has between its offsets. -/
def Snippet.Exact (source : List Char) (s : Snippet) : Prop :=
  Source.piece? s.start s.stop source = some s.text.toList

def QueryError.Exact (source : List Char) (e : QueryError) : Prop :=
  ∀ s ∈ e.snippets, s.Exact source

def ParseError.Exact (source : List Char) : ParseError → Prop
  | .query e => e.Exact source
  | .similarity _ => True

/-- All snippets in an argument are exact. -/
inductive RawArg.Exact (source : List Char) : RawArg → Prop where
  | literal (l : Literal) {piece : Snippet} (h : piece.Exact source) : Exact source (.literal l piece)
  | list {items : List RawArg} {piece : Snippet} (h : piece.Exact source)
      (hitems : ∀ a ∈ items, a.Exact source) : Exact source (.list items piece)
  | name (n : String) {piece : Snippet} (h : piece.Exact source) : Exact source (.name n piece)
  | unsupported {piece : Snippet} (h : piece.Exact source) : Exact source (.unsupported piece)

theorem RawArg.Exact.snippet {source : List Char} {a : RawArg} (h : a.Exact source) :
    a.snippet.Exact source := by
  cases h with
  | literal _ h => exact h
  | list h _ => exact h
  | name _ h => exact h
  | unsupported h => exact h

def DraftCall.Exact (source : List Char) (c : DraftCall) : Prop :=
  ∀ a ∈ c.arguments, a.Exact source

/-- All snippets in a draft are exact. -/
inductive Draft.Exact (source : List Char) : Draft → Prop where
  | all {ds : List Draft} (h : ∀ d ∈ ds, d.Exact source) : Exact source (.all ds)
  | any {ds : List Draft} (h : ∀ d ∈ ds, d.Exact source) : Exact source (.any ds)
  | not {d : Draft} (h : d.Exact source) : Exact source (.not d)
  | call {c : DraftCall} (h : c.Exact source) : Exact source (.call c)

/-- A computation gives results of one property and errors of another. -/
def Gives {ε α : Type} (E : ε → Prop) (P : α → Prop) : Except ε α → Prop
  | .ok a => P a
  | .error e => E e

theorem Gives.map {ε α β : Type} {E : ε → Prop} {P : α → Prop} {Q : β → Prop} {x : Except ε α}
    (h : Gives E P x) {f : α → β} (hf : ∀ a, P a → Q (f a)) : Gives E Q (x.map f) := by
  cases x with
  | ok a => exact hf a h
  | error e => exact h

theorem Gives.bind {ε α β : Type} {E : ε → Prop} {P : α → Prop} {Q : β → Prop} {x : Except ε α}
    (h : Gives E P x) {f : α → Except ε β} (hf : ∀ a, P a → Gives E Q (f a)) :
    Gives E Q (x.bind f) := by
  cases x with
  | ok a => exact hf a h
  | error e => exact h

/-! ### Narrowing -/

namespace Draft

variable (r : Reading)

/-- The snippet of a node is exact if the node is cut out of the source. -/
theorem snippet_exact {t : ParseTree} (h : t.Cut r.source) : (snippet r t).Exact r.source := by
  cases h with
  | @node _ b e _ _ hpiece _ =>
    obtain ⟨w, hw⟩ := hpiece
    show Source.piece? b e r.source = some (String.toList (String.ofList
      ((Source.piece? b e r.source).getD (Source.slice b e r.normal))))
    rw [hw, Option.getD_some, String.toList_ofList]

theorem refuse_exact {around : Surroundings} {t : ParseTree} (h : t.Cut r.source) :
    (refuse r around t).Exact r.source :=
  List.forall_mem_singleton.mpr (snippet_exact r h)

theorem literalOr_exact {piece : Snippet} {source : List Char} (h : piece.Exact source)
    (l? : Option Literal) : (literalOr piece l?).Exact source := by
  cases l? with
  | none => exact .unsupported h
  | some l => exact .literal l h

theorem applySign_exact {piece : Snippet} {source : List Char} (h : piece.Exact source)
    (sign : List Char) (operand : RawArg) : (applySign sign operand piece).Exact source := by
  cases operand with
  | literal l piece' => exact literalOr_exact h _
  | list | name | unsupported => exact .unsupported h

/-- **An argument has exact snippets only.** -/
theorem argument_exact {t : ParseTree} (ht : t.Grown) :
    t.Cut r.source → (argument r t).Exact r.source := by
  refine ParseTree.Grown.induct ?_ ht
  intro rule b e text ts hgrown ih hcut
  have hpiece := snippet_exact r hcut
  have hcases : Argued r rule (.node rule b e text ts) ts (argument r (.node rule b e text ts)) :=
    argument_cases r hgrown.branches
  generalize argument r (.node rule b e text ts) = a at hcases ⊢
  cases hcut with
  | node _ hts =>
    cases hcases with
    | @layer child hchild _ =>
      have hmem : child ∈ ts := hchild ▸ List.mem_singleton_self child
      exact ih child hmem (hts child hmem)
    | signed => exact applySign_exact hpiece _ _
    | name => exact .name _ hpiece
    | items =>
      refine .list hpiece fun a ha => ?_
      -- the items of a list are the arguments below it
      rw [arguments_eq] at ha
      obtain ⟨t, ht, rfl⟩ := List.mem_map.mp ha
      have hmem := List.mem_of_mem_filter ht
      exact ih t hmem (hts t hmem)
    | literal => exact literalOr_exact hpiece _

/-- **A call has exact snippets only**, and so has the refusal of one. -/
theorem callOf_exact {around : Surroundings} {t : ParseTree} (ht : t.Grown) (hcut : t.Cut r.source) :
    Gives (QueryError.Exact r.source) (DraftCall.Exact r.source) (callOf r around t) := by
  have hpiece := snippet_exact r hcut
  obtain ⟨rule, b, e, text, ts⟩ := t
  have hgrown := ht.branches.grown
  cases hcut with
  | node hnode hts =>
    unfold callOf
    split
    · rename_i callee args hchildren
      cases hchildren
      obtain ⟨arule, ab, ae, atext, ats⟩ := args
      have hargs : ParseTree.node arule ab ae atext ats ∈ [callee, .node arule ab ae atext ats] :=
        List.mem_cons_of_mem _ (List.mem_singleton_self _)
      have hats := (hgrown _ hargs).branches.grown
      cases hts _ hargs with
      | node _ hcuts =>
        split_ifs
        · dsimp only
          split
          · exact List.forall_mem_singleton.mpr hpiece
          · split
            · rename_i a ha
              -- the snippet of a keyword argument is its own piece
              exact refuse_exact r (hcuts a (List.mem_of_find?_eq_some ha))
            · split_ifs
              · intro a ha
                obtain ⟨t, ht, rfl⟩ := List.mem_map.mp ha
                -- each argument has its own snippets
                exact argument_exact r (hats t ht) (hcuts t ht)
              · exact List.forall_mem_singleton.mpr hpiece
        · exact List.forall_mem_singleton.mpr hpiece
    · exact List.forall_mem_singleton.mpr hpiece

mutual

/-- **A condition has exact snippets only**, and so has the refusal of one. -/
theorem ofTree_exact : ∀ (around : Surroundings) (t : ParseTree), t.Grown → t.Cut r.source →
    Gives (QueryError.Exact r.source) (Draft.Exact r.source) (ofTree r around t)
  | around, .node rule b e text ts, hgrown, hcut => by
    have hbranches := hgrown.branches.grown
    have hts : ∀ t ∈ ts, t.Cut r.source := by
      cases hcut with
      | node _ hts => exact hts
    unfold ofTree
    split
    · rename_i child heq
      cases heq
      split_ifs
      · exact ofTree_exact around child (hbranches _ (by simp)) (hts _ (by simp))
      · exact refuse_exact r hcut
    · rename_i operand heq
      cases heq
      -- a negation has the snippets of its operand
      exact (ofTree_exact .negation operand (hbranches _ (by simp)) (hts _ (by simp))).map
        fun _ => .not
    · rename_i heq
      cases heq
      split_ifs
      · exact (operands_exact .conjunction ts hbranches hts).map fun _ => .any
      · exact (operands_exact .negation ts hbranches hts).map fun _ => .all
      · exact (callOf_exact r hgrown hcut).map fun _ => .call
      · exact refuse_exact r hcut

theorem operands_exact : ∀ (rule : Rule) (ts : List ParseTree), (∀ t ∈ ts, t.Grown) →
    (∀ t ∈ ts, t.Cut r.source) →
    Gives (QueryError.Exact r.source) (fun ds => ∀ d ∈ ds, Draft.Exact r.source d)
      (operands r rule ts)
  | _, [], _, _ => by simp [operands, Gives]
  | rule, t :: rest, hgrown, hcut => by
    obtain ⟨ht, hrest⟩ := List.forall_mem_cons.mp hgrown
    obtain ⟨htcut, hrestcut⟩ := List.forall_mem_cons.mp hcut
    have htree := ofTree_exact .chain t ht htcut
    have hoperands := operands_exact rule rest hrest hrestcut
    rw [operands]
    split_ifs
    · -- the first operand that is refused gives the snippet
      cases hd : ofTree r .chain t with
      | ok d =>
        rw [hd] at htree
        exact hoperands.map fun ds hds => List.forall_mem_cons.mpr ⟨htree, hds⟩
      | error e =>
        rw [hd] at htree
        exact htree
    · exact hoperands

end

/-- **The call of an aggregation has exact snippets only**, and so has its refusal. -/
theorem aggregationOfTree_exact : ∀ t : ParseTree, t.Grown → t.Cut r.source →
    Gives (QueryError.Exact r.source) (DraftCall.Exact r.source) (aggregationOfTree r t)
  | .node rule b e text ts, hgrown, hcut => by
    have hbranches := hgrown.branches.grown
    have hts : ∀ t ∈ ts, t.Cut r.source := by
      cases hcut with
      | node _ hts => exact hts
    unfold aggregationOfTree
    split
    · rename_i child heq
      cases heq
      split_ifs
      · exact aggregationOfTree_exact child (hbranches _ (by simp)) (hts _ (by simp))
      · exact refuse_exact r hcut
    · rename_i heq
      cases heq
      dsimp only
      split_ifs
      · -- only a call is an aggregation
        exact callOf_exact r hgrown hcut
      · exact refuse_exact r hcut
      · exact refuse_exact r hcut

end Draft

end CatalogQuery
