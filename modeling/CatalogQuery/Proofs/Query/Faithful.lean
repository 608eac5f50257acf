import CatalogQuery.Proofs.Query.Accepted

/-!
# Nothing of a source is lost

The atoms of the parse tree of a source and the leaves of the query that it is accepted as
correspond one to one, in the same order (`parseFilter_leaves`): narrowing and resolution drop
nothing, repeat nothing and move nothing. This is about catalogs without indexes, since an index
may put a text in the place of a literal.
-/

namespace CatalogQuery

open Grammar

/-- What a query has in the place of a literal: its value, or a number that differs in its sign or
is an integer widened to a floating-point number. -/
inductive Literal.Shows : Literal → Value → Prop where
  | same (l : Literal) : Shows l l.value
  | negInt (n : Int64) : Shows (.int n) (.int (-n))
  | negFloat (x : Double) : Shows (.float x) (.float x.neg)
  | widened (n : Int64) : Shows (.int n) (.float (Binary.ofInt n.toInt))
  | negWidened (n : Int64) : Shows (.int n) (.float (Binary.ofInt (-n).toInt))

/-- A leaf of a query stands for an atom of the source. -/
inductive StandsFor : Leaf → ParseTree → Prop where
  | name {t : ParseTree} (ht : t.rule = .ident) : StandsFor (.name (String.ofList t.text)) t
  | literal {t : ParseTree} {l : Literal} {v : Value} (ht : Draft.literal? t = some l)
      (hv : l.Shows v) : StandsFor (.value v) t

/-- What narrowing and then resolution make of an atom stands for it. -/
theorem StandsFor.of_becomes {t : ParseTree} {l l' : Leaf} (hread : Draft.ReadAs t l)
    (hbecomes : Resolve.Becomes l l') : StandsFor l' t := by
  cases hbecomes with
  | name => cases hread with | name ht => exact .name ht
  | @value v w hcast =>
    generalize hl : Leaf.value v = l at hread
    cases hread with
    | name => cases hl
    | @literal l ht =>
      -- the literal itself, which may be widened
      cases hl
      refine .literal ht ?_
      cases l with
      | int n =>
        cases hcast with
        | same => exact .same _
        | widened => exact .widened n
      | none | bool | float | str => cases hcast; exact .same _
    | @negInt n ht =>
      -- or its negative
      cases hl
      cases hcast with
      | same => exact .literal ht (.negInt n)
      | widened => exact .literal ht (.negWidened n)
    | @negFloat x ht =>
      cases hl
      cases hcast
      exact .literal ht (.negFloat x)

/-- **Nothing of an accepted source is dropped, repeated or moved.** The leaves of the query stand
for the atoms of the parse tree from left to right, and the calls of the query are the calls of the
parse tree in their order. -/
theorem parseFilter_leaves {source : String} {catalog : Catalog} {contexts : List Context}
    {q : Query Condition} (hplain : catalog.Plain)
    (h : (parseFilter source catalog contexts).result = .ok q) :
    ∃ tree, Grammar.parse (Source.normalizeChars source.toList) = .ok tree ∧
      List.Forall₂ StandsFor q.root.leaves tree.atoms ∧
      q.root.calls.map (fun c => c.function.toList) = tree.callees := by
  obtain ⟨t, d, ht, hd, hroot, -⟩ := parseFilter_eq_ok_iff.mp h
  obtain ⟨tree, hparse, hgrown, hatoms, hcallees⟩ := Source.statement_atoms ht
  have hwell := Draft.ofTree_wellFormed hgrown _ _ hd
  obtain ⟨hsupported, hleaves, hcalls⟩ :=
    Resolve.conditionInOrder_leaves hwell hplain _ hroot
  obtain ⟨hread, hcallees'⟩ := Draft.ofTree_leaves hgrown _ _ hd hsupported
  refine ⟨tree, hparse, ?_, ?_⟩
  · have hstands := forall₂_comp hread hleaves (T := fun t l => StandsFor l t)
      fun _ _ _ => StandsFor.of_becomes
    rw [hatoms]
    exact hstands.flip
  · rw [hcallees, hcallees']
    simpa [Function.comp_def] using congrArg (List.map String.toList) hcalls

/-- A function of a number, a list and a context. -/
def Catalog.mixed : Catalog :=
  ⟨[⟨"f", none, [⟨"size", .float, none⟩, ⟨"names", .list .str, none⟩,
    ⟨"place", .context "Place", none⟩]⟩]⟩

/-- An accepted source with a sign, a widened integer, a list and a context. -/
theorem parseFilter_mixed_leaves :
    Catalog.mixed.Plain ∧ ∃ q, (parseFilter "not f(-1, ['a', \"b\"], HOME) or (f(2.5, [], HOME))"
        .mixed [⟨"HOME", "Place", .null⟩]).result = .ok q ∧
      ∃ tree, Grammar.parse (Source.normalizeChars
          "not f(-1, ['a', \"b\"], HOME) or (f(2.5, [], HOME))".toList) = .ok tree ∧
        List.Forall₂ StandsFor q.root.leaves tree.atoms ∧
        q.root.calls.map (fun c => c.function.toList) = tree.callees := by
  have hplain : Catalog.mixed.Plain := by
    simp [Catalog.Plain, Catalog.mixed]
  have hok : (parseFilter "not f(-1, ['a', \"b\"], HOME) or (f(2.5, [], HOME))" .mixed
      [⟨"HOME", "Place", .null⟩]).result.toOption.isSome = true := by decide +kernel
  cases hq : (parseFilter "not f(-1, ['a', \"b\"], HOME) or (f(2.5, [], HOME))" .mixed
      [⟨"HOME", "Place", .null⟩]).result with
  | error e => rw [hq] at hok; cases hok
  | ok q => exact ⟨hplain, q, rfl, parseFilter_leaves hplain hq⟩

end CatalogQuery
