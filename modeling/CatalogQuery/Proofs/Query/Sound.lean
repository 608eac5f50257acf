import CatalogQuery.Proofs.Decimal.Rounding
import CatalogQuery.Proofs.Query.Accepted

/-!
# Accepted queries are sound

An accepted query is well typed in the strict sense: `Condition.Sound` demands at least two operands
of each chain, functions of the catalog with arguments of the declared types, contexts that the
caller supplied and the parameter admits, and finite numbers.

`parseFilter_sound` and `parseAggregation_sound` hold for every catalog, whatever its indexes answer
and however long they take.
-/

namespace CatalogQuery

open Grammar

/-- What holds of a validated argument of a parameter. -/
structure Value.Sound (contexts : List Context) (p : Parameter) (v : Value) : Prop where
  typed : v.HasType p.type
  /-- A context is the first of its name, and its type is one that the parameter names. -/
  context : ∀ c, .context c ∈ v.leaves →
    (contexts.find? fun d => d.name == c.name) = some c ∧ c.typeName ∈ p.type.contextTypes
  /-- Neither an infinity nor a NaN. -/
  finite : ∀ x, .float x ∈ v.leaves → x.isFinite = true

/-- The call is of a function of the catalog, with one sound argument for each parameter. -/
def Call.Sound (catalog : Catalog) (contexts : List Context) (c : Call) : Prop :=
  ∃ f, catalog.find? c.function = some f ∧
    List.Forall₂ (fun p v => v.Sound contexts p) f.parameters c.arguments

/-- Every chain has at least two operands, and every call is sound. -/
inductive Condition.Sound (catalog : Catalog) (contexts : List Context) : Condition → Prop where
  | all {cs : List Condition} (hmany : 2 ≤ cs.length)
      (h : ∀ c ∈ cs, c.Sound catalog contexts) : Sound catalog contexts (.all cs)
  | any {cs : List Condition} (hmany : 2 ≤ cs.length)
      (h : ∀ c ∈ cs, c.Sound catalog contexts) : Sound catalog contexts (.any cs)
  | not {c : Condition} (h : c.Sound catalog contexts) : Sound catalog contexts (.not c)
  | call {c : Call} (h : c.Sound catalog contexts) : Sound catalog contexts (.call c)

theorem Condition.Built.sound {catalog : Catalog} {contexts : List Context} {c : Condition}
    (h : c.Built (Call.Sound catalog contexts)) : c.Sound catalog contexts := by
  induction h with
  | all hmany _ ih => exact .all hmany ih
  | any hmany _ ih => exact .any hmany ih
  | not _ ih => exact .not ih
  | call h => exact .call h

/-! ### Finite numbers -/

namespace Draft

theorem readFloat?_isFinite {cs : List Char} {x : Double} (h : readFloat? cs = some x) :
    x.isFinite = true := by
  unfold readFloat? at h
  split at h
  · dsimp only at h
    split_ifs at h with hx
    cases h
    exact hx
  · cases h

theorem literal?_isFinite {t : ParseTree} {x : Double} (h : literal? t = some (.float x)) :
    x.isFinite = true := by
  unfold literal? at h
  split at h
  case h_2 =>
    obtain ⟨y, hy, heq⟩ := Option.map_eq_some_iff.mp h
    cases heq
    exact readFloat?_isFinite hy
  all_goals simp at h

/-- No atom is read as an infinity or a NaN. -/
theorem ReadAs.isFinite {t : ParseTree} {x : Double} (h : ReadAs t (.value (.float x))) :
    x.isFinite = true := by
  generalize hl : Leaf.value (.float x) = l at h
  cases h with
  | name => cases hl
  | @literal l h =>
    cases l <;> cases hl
    exact literal?_isFinite h
  | negInt => cases hl
  | @negFloat y h =>
    cases hl
    have hy := literal?_isFinite h
    exact hy

end Draft

namespace Resolve

variable {contexts : List Context}

/-- **An argument is sound** once it is resolved and checked. -/
theorem argumentInOrder_sound {r : Reading} {p : Parameter} {t : ParseTree} {w : Value}
    (ht : t.Grown) (h : argumentInOrder contexts p (Draft.argument r t) = .ok w) :
    w.Sound contexts p := by
  obtain ⟨v, -, hw⟩ := argumentInOrder_ok h
  refine ⟨Value.validate_hasType hw, ?_, ?_⟩
  · intro c hc
    -- a context has been looked up, and is not cast
    obtain ⟨a, -, l, u, -, hresolved, hcast⟩ := argumentInOrder_atom ht h hc
    cases hcast
    exact hresolved.context
  · intro x hx
    obtain ⟨a, -, l, u, hread, hresolved, hcast⟩ := argumentInOrder_atom ht h hx
    cases hcast with
    | widened n => exact Binary.isFinite_ofInt n
    | same => exact Draft.ReadAs.isFinite (hresolved.float ▸ hread)

/-- **A call is sound** once it is resolved. -/
theorem callInOrder_sound {r : Reading} {d : DraftCall} {c : Call} (hd : d.WellFormed r)
    (h : callInOrder contexts d = .ok c) : c.Sound r.catalog contexts := by
  obtain ⟨ws, hws, rfl⟩ := map_eq_ok h
  refine ⟨d.function, hd.found, argumentsInOrder_forall₂ ?_ hd.arity hws⟩
  intro a ha p w hw
  obtain ⟨t, ht, rfl⟩ := hd.read a ha
  exact argumentInOrder_sound ht hw

theorem conditionInOrder_sound {r : Reading} {d : Draft} (hd : d.WellFormed r) {c : Condition}
    (h : conditionInOrder contexts d = .ok c) : c.Sound r.catalog contexts :=
  (conditionInOrder_built (fun _ _ hd h => callInOrder_sound hd h) hd c h).sound

end Resolve

/-! ### Accepted sources -/

/-- **Accepted filters are sound**, whatever the indexes of the catalog do. -/
theorem parseFilter_sound {source : String} {catalog : Catalog} {contexts : List Context}
    {q : Query Condition} (h : (parseFilter source catalog contexts).result = .ok q) :
    q.root.Sound catalog contexts := by
  obtain ⟨t, d, ht, hd, hroot, -⟩ := parseFilter_eq_ok_iff.mp h
  obtain ⟨tree, -, hgrown, -⟩ := Source.statement_atoms ht
  exact Resolve.conditionInOrder_sound (Draft.ofTree_wellFormed hgrown _ _ hd) hroot

/-- Accepted aggregations are sound. -/
theorem parseAggregation_sound {source : String} {catalog : Catalog} {contexts : List Context}
    {q : Query Call} (h : (parseAggregation source catalog contexts).result = .ok q) :
    q.root.Sound catalog contexts := by
  obtain ⟨t, d, ht, hd, hroot, -⟩ := parseAggregation_eq_ok_iff.mp h
  obtain ⟨tree, -, hgrown, -⟩ := Source.statement_atoms ht
  exact Resolve.callInOrder_sound (Draft.aggregationOfTree_wellFormed hgrown hd) hroot

/-- A catalog with an index that answers late, for a type with all constructors. -/
def Catalog.nested : Catalog :=
  ⟨[⟨"f", none, [⟨"items", .list (.optional (.union [.float, .str, .context "Place"])),
    some ⟨"names", fun place _ => ⟨place, .ok none⟩⟩⟩]⟩]⟩

/-- A source with a chain, a widened integer, a context and `None` is accepted over it. -/
theorem parseFilter_nested_sound :
    ∃ q, (parseFilter "f([1, None, HOME]) and not f(['a'])" .nested
        [⟨"HOME", "Place", .null⟩]).result = .ok q ∧
      q.root.Sound .nested [⟨"HOME", "Place", .null⟩] := by
  have hok : (parseFilter "f([1, None, HOME]) and not f(['a'])" .nested
      [⟨"HOME", "Place", .null⟩]).result.toOption.isSome = true := by decide +kernel
  cases hq : (parseFilter "f([1, None, HOME]) and not f(['a'])" .nested
      [⟨"HOME", "Place", .null⟩]).result with
  | error e => rw [hq] at hok; cases hok
  | ok q => exact ⟨q, rfl, parseFilter_sound hq⟩

end CatalogQuery
