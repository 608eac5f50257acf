import CatalogQuery.Proofs.Query.Sound
import CatalogQuery.Proofs.Render.Conditions

/-!
# Resolving a settled query again

A value is `Settled` for a parameter if validation leaves it as it is and its contexts are those
that the caller supplied under their names. A draft that denotes a settled query is resolved to that
query (`conditionInOrder_of_denotes`, `callInOrder_of_denotes`), and what resolution gives is
settled (`callInOrder_settled`).
-/

namespace CatalogQuery

/-- The value stays as it is when it is an argument of the parameter again. -/
structure Value.Settled (contexts : List Context) (p : Parameter) (v : Value) : Prop where
  sound : v.Sound contexts p
  valid : v.validate p.type = .ok v

/-- The call is of a function of the catalog, with one settled argument for each parameter. -/
def Call.Settled (catalog : Catalog) (contexts : List Context) (c : Call) : Prop :=
  ∃ f, catalog.find? c.function = some f ∧
    List.Forall₂ (fun p v => v.Settled contexts p) f.parameters c.arguments

theorem Call.Settled.fits {catalog : Catalog} {contexts : List Context} {c : Call}
    (h : c.Settled catalog contexts) : c.Fits catalog := by
  obtain ⟨f, hf, harguments⟩ := h
  exact ⟨f, hf, harguments.length_eq.symm⟩

namespace Resolve

variable {contexts : List Context}

/-! ### What is resolved is settled -/

theorem argumentInOrder_settled {r : Reading} {p : Parameter} {t : Grammar.ParseTree} {w : Value}
    (ht : t.Grown) (h : argumentInOrder contexts p (Draft.argument r t) = .ok w) :
    w.Settled contexts p := by
  obtain ⟨v, -, hw⟩ := argumentInOrder_ok h
  exact ⟨argumentInOrder_sound ht h, Value.validate_idem hw⟩

/-- **A resolved call is settled.** -/
theorem callInOrder_settled {r : Reading} {d : DraftCall} {c : Call} (hd : d.WellFormed r)
    (h : callInOrder contexts d = .ok c) : c.Settled r.catalog contexts := by
  obtain ⟨ws, hws, rfl⟩ := map_eq_ok h
  refine ⟨d.function, hd.found, argumentsInOrder_forall₂ ?_ hd.arity hws⟩
  intro a ha p w hw
  obtain ⟨t, ht, rfl⟩ := hd.read a ha
  exact argumentInOrder_settled ht hw

/-! ### What is settled is resolved to itself -/

theorem context_of_sound {p : Parameter} {c : Context} (piece : Snippet)
    (hfind : (contexts.find? fun d => d.name == c.name) = some c)
    (htype : c.typeName ∈ p.type.contextTypes) :
    context contexts p c.name piece = .ok (.context c) := by
  have haccepts : p.acceptsContext c.typeName = true := by
    simpa [Parameter.acceptsContext, Parameter.contextTypes] using htype
  -- a type that takes the context has contexts
  have hsome : p.contextTypes.isEmpty = false := by
    have hne : p.contextTypes ≠ [] := List.ne_nil_of_mem htype
    simpa using hne
  unfold context
  rw [hsome, if_neg (by simp), hfind]
  dsimp only
  rw [if_pos haccepts]

mutual

/-- **An argument that denotes a value is resolved to it**, if its contexts are found. -/
theorem valueInOrder_of_denotes {p : Parameter} (hp : p.similarity = none) :
    ∀ (a : RawArg) (v : Value), a.Denotes v →
      (∀ c, .context c ∈ v.leaves → (contexts.find? fun d => d.name == c.name) = some c ∧
        c.typeName ∈ p.type.contextTypes) →
      valueInOrder contexts p a = .ok v
  | .literal l piece, v, h, _ => by
    cases h
    -- no index is asked
    rw [valueInOrder, literalInOrder, hp]
  | .list items piece, v, h, hcontexts => by
    cases h with
    | list _ hitems =>
      rw [valueInOrder, valuesInOrder_of_denotes hp items _ hitems hcontexts]
      rfl
  | .name n piece, v, h, hcontexts => by
    cases h with
    | name c =>
      obtain ⟨hfind, htype⟩ := hcontexts c (List.mem_singleton_self _)
      exact context_of_sound piece hfind htype
  | .unsupported _, v, h, _ => by cases h

theorem valuesInOrder_of_denotes {p : Parameter} (hp : p.similarity = none) :
    ∀ (as : List RawArg) (vs : List Value), List.Forall₂ RawArg.Denotes as vs →
      (∀ c, .context c ∈ Value.leavesOfEach vs →
        (contexts.find? fun d => d.name == c.name) = some c ∧ c.typeName ∈ p.type.contextTypes) →
      valuesInOrder contexts p as = .ok vs
  | [], vs, h, _ => by
    cases h
    rfl
  | a :: as, vs, h, hcontexts => by
    cases h with
    | @cons _ v _ vs ha has =>
      -- the contexts of an item are contexts of the list
      have hv := valueInOrder_of_denotes hp a v ha fun c hc =>
        hcontexts c (List.mem_append_left _ hc)
      have hvs := valuesInOrder_of_denotes hp as vs has fun c hc =>
        hcontexts c (List.mem_append_right _ hc)
      rw [valuesInOrder, hv, hvs]
      rfl

end

theorem argumentInOrder_of_denotes {p : Parameter} (hp : p.similarity = none) {a : RawArg}
    {v : Value} (ha : a.Denotes v) (hv : v.Settled contexts p) :
    argumentInOrder contexts p a = .ok v := by
  have hchecked : checked p a.snippet v = .ok v := by rw [checked, hv.valid]
  rw [argumentInOrder, valueInOrder_of_denotes hp a v ha hv.sound.context]
  exact hchecked

theorem argumentsInOrder_of_denotes {ps : List Parameter} (hps : ∀ p ∈ ps, p.similarity = none)
    {as : List RawArg} {vs : List Value} (has : List.Forall₂ RawArg.Denotes as vs)
    (hvs : List.Forall₂ (fun p v => v.Settled contexts p) ps vs) :
    argumentsInOrder contexts ps as = .ok vs := by
  induction hvs generalizing as with
  | nil =>
    cases has
    rfl
  | cons hv _ ih =>
    obtain ⟨hp, hps⟩ := List.forall_mem_cons.mp hps
    cases has with
    | cons ha has =>
      -- the value is settled, so that it is checked without a change
      rw [argumentsInOrder, argumentInOrder_of_denotes hp ha hv, ih hps has]
      rfl

/-- **A draft that denotes a settled call is resolved to the call.** -/
theorem callInOrder_of_denotes {catalog : Catalog} (hplain : catalog.Plain) {d : DraftCall}
    {c : Call} (hd : d.Denotes catalog c) (hc : c.Settled catalog contexts) :
    callInOrder contexts d = .ok c := by
  obtain ⟨f, hf, harguments⟩ := hc
  -- both name a function of the catalog, and the catalog has one for a name
  obtain rfl : f = d.function := Option.some_inj.mp (hf.symm.trans hd.found)
  have hname : d.function.name = c.function := by simpa using List.find?_some hf
  have hps := hplain _ (List.mem_of_find?_eq_some hf)
  rw [callInOrder, argumentsInOrder_of_denotes hps hd.arguments harguments]
  show Except.ok (⟨d.function.name, c.arguments⟩ : Call) = .ok c
  rw [hname]

mutual

/-- **A draft that denotes a settled condition is resolved to the condition.** -/
theorem conditionInOrder_of_denotes {catalog : Catalog} (hplain : catalog.Plain) :
    ∀ (d : Draft) (c : Condition), d.Denotes catalog c →
      (∀ call ∈ c.calls, call.Settled catalog contexts) → conditionInOrder contexts d = .ok c
  | .all ds, c, hd, hc => by
    cases hd with
    | all hds =>
      rw [conditionInOrder, conditionsInOrder_of_denotes hplain ds _ hds hc]
      rfl
  | .any ds, c, hd, hc => by
    cases hd with
    | any hds =>
      rw [conditionInOrder, conditionsInOrder_of_denotes hplain ds _ hds hc]
      rfl
  | .not d, c, hd, hc => by
    cases hd with
    | not hd =>
      rw [conditionInOrder, conditionInOrder_of_denotes hplain d _ hd hc]
      rfl
  | .call d, c, hd, hc => by
    cases hd with
    | call hd =>
      rw [conditionInOrder, callInOrder_of_denotes hplain hd (hc _ (List.mem_singleton_self _))]
      rfl

theorem conditionsInOrder_of_denotes {catalog : Catalog} (hplain : catalog.Plain) :
    ∀ (ds : List Draft) (cs : List Condition), List.Forall₂ (Draft.Denotes catalog) ds cs →
      (∀ call ∈ Condition.callsOfEach cs, call.Settled catalog contexts) →
      conditionsInOrder contexts ds = .ok cs
  | [], cs, hds, _ => by
    cases hds
    rfl
  | d :: ds, cs, hds, hcs => by
    cases hds with
    | @cons _ c _ cs hd hds =>
      -- the calls of an operand are calls of the chain
      have hc := conditionInOrder_of_denotes hplain d c hd fun call hcall =>
        hcs call (List.mem_append_left _ hcall)
      have hrest := conditionsInOrder_of_denotes hplain ds cs hds fun call hcall =>
        hcs call (List.mem_append_right _ hcall)
      rw [conditionsInOrder, hc, hrest]
      rfl

end

end Resolve

end CatalogQuery
