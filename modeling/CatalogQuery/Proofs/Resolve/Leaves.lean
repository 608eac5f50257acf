import CatalogQuery.Proofs.Draft.Leaves
import CatalogQuery.Proofs.Resolve.InOrder

/-!
# Resolution keeps the leaves

`valueInOrder_ok` says what resolution makes of each leaf of an argument, as the relation
`ResolvedAs`. With validation this gives what becomes of the leaves of a call (`callInOrder_leaves`)
and of a condition (`conditionInOrder_leaves`) where no parameter has an index.
-/

namespace CatalogQuery

open Grammar

/-- No parameter of the catalog has an index. -/
def Catalog.Plain (c : Catalog) : Prop := ∀ f ∈ c.functions, ∀ p ∈ f.parameters, p.similarity = none

namespace Resolve

variable {contexts : List Context}

/-- What resolution makes of a leaf: a name becomes the first context of that name, if the parameter
accepts it, and a literal its value or, if the parameter has an index, a text. -/
inductive ResolvedAs (contexts : List Context) (p : Parameter) : Leaf → Value → Prop where
  | name {n : String} {c : Context} (hfind : (contexts.find? fun c => c.name == n) = some c)
      (haccepts : p.acceptsContext c.typeName = true) : ResolvedAs contexts p (.name n) (.context c)
  | literal (l : Literal) : ResolvedAs contexts p (.value l.value) l.value
  | found {l : Literal} (hindex : p.similarity ≠ none) (s : String) :
      ResolvedAs contexts p (.value l.value) (.str s)

theorem ResolvedAs.context {p : Parameter} {l : Leaf} {c : Context}
    (h : ResolvedAs contexts p l (.context c)) :
    (contexts.find? fun d => d.name == c.name) = some c ∧ c.typeName ∈ p.type.contextTypes := by
  generalize hv : Value.context c = v at h
  cases h with
  | @name n c' hfind haccepts =>
    cases hv
    obtain rfl : c.name = n := by simpa using List.find?_some hfind
    exact ⟨hfind, by simpa [Parameter.acceptsContext, Parameter.contextTypes] using haccepts⟩
  | literal l => cases l <;> cases hv
  | found => cases hv

theorem ResolvedAs.float {p : Parameter} {l : Leaf} {x : Double}
    (h : ResolvedAs contexts p l (.float x)) : l = .value (.float x) := by
  generalize hv : Value.float x = v at h
  cases h with
  | name => cases hv
  | literal l => rfl
  | found => cases hv

theorem context_ok {p : Parameter} {name : String} {piece : Snippet} {v : Value}
    (h : context contexts p name piece = .ok v) : ResolvedAs contexts p (.name name) v := by
  unfold context at h
  split_ifs at h
  split at h
  · cases h
  · rename_i c hc
    split_ifs at h with haccepts
    cases h
    exact .name hc haccepts

theorem leaves_value (l : Literal) : l.value.leaves = [l.value] := by
  cases l <;> rfl

theorem literalInOrder_ok {p : Parameter} {l : Literal} {piece : Snippet} {v : Value}
    (h : literalInOrder p l piece = .ok v) :
    List.Forall₂ (ResolvedAs contexts p) [.value l.value] v.leaves := by
  unfold literalInOrder at h
  split at h
  · rename_i index text hindex _
    split at h
    · cases h
    · cases h
      rw [leaves_value]
      exact .cons (.literal l) .nil
    · -- an answer of the index takes the place of the literal
      rename_i found _
      cases h
      exact .cons (.found (by simp [hindex]) found) .nil
  · cases h
    rw [leaves_value]
    exact .cons (.literal l) .nil

mutual

/-- **Resolution keeps the leaves of an argument**, which has no unsupported part. -/
theorem valueInOrder_ok (p : Parameter) :
    ∀ a v, valueInOrder contexts p a = .ok v →
      a.Supported ∧ List.Forall₂ (ResolvedAs contexts p) a.leaves v.leaves
  | .literal l piece, v, h => ⟨.literal l piece, literalInOrder_ok h⟩
  | .list items piece, v, h => by
    rw [valueInOrder] at h
    obtain ⟨vs, hvs, rfl⟩ := map_eq_ok h
    obtain ⟨hsupported, hleaves⟩ := valuesInOrder_ok p items vs hvs
    exact ⟨.list piece hsupported, hleaves⟩
  -- a name stands for a context that the parameter takes
  | .name name piece, v, h => by
    have hv := context_ok h
    cases hv with
    | name hfind haccepts => exact ⟨.name name piece, .cons (.name hfind haccepts) .nil⟩
  | .unsupported _, v, h => by cases h

theorem valuesInOrder_ok (p : Parameter) :
    ∀ items vs, valuesInOrder contexts p items = .ok vs →
      (∀ a ∈ items, a.Supported) ∧
        List.Forall₂ (ResolvedAs contexts p) (RawArg.leavesOfEach items) (Value.leavesOfEach vs)
  | [], vs, h => by
    cases h
    exact ⟨by simp, .nil⟩
  | a :: rest, vs, h => by
    rw [valuesInOrder] at h
    -- the first item, then the others
    obtain ⟨v, hv, h⟩ := bind_eq_ok h
    obtain ⟨vs', hvs', rfl⟩ := map_eq_ok h
    obtain ⟨ha, hleaves⟩ := valueInOrder_ok p a v hv
    obtain ⟨hrest, hleaves'⟩ := valuesInOrder_ok p rest vs' hvs'
    exact ⟨List.forall_mem_cons.mpr ⟨ha, hrest⟩, List.rel_append hleaves hleaves'⟩

end

/-- An argument is resolved to a value and then validated. -/
theorem argumentInOrder_ok {p : Parameter} {a : RawArg} {w : Value}
    (h : argumentInOrder contexts p a = .ok w) :
    ∃ v, valueInOrder contexts p a = .ok v ∧ v.validate p.type = .ok w := by
  obtain ⟨v, hv, h⟩ := bind_eq_ok h
  unfold checked at h
  split at h
  · rename_i w' hw
    cases h
    exact ⟨v, hv, hw⟩
  · cases h

/-- **Where the leaves of a resolved argument come from**: each from an atom that is read, resolved
and perhaps widened. -/
theorem argumentInOrder_atom {r : Reading} {p : Parameter} {t : ParseTree} {w u : Value}
    (ht : t.Grown) (h : argumentInOrder contexts p (Draft.argument r t) = .ok w)
    (hu : u ∈ w.leaves) : ∃ a ∈ t.atoms, ∃ l v, Draft.ReadAs a l ∧ ResolvedAs contexts p l v ∧
      Value.Cast v u := by
  obtain ⟨v, hv, hw⟩ := argumentInOrder_ok h
  obtain ⟨hsupported, hresolved⟩ := valueInOrder_ok p _ v hv
  obtain ⟨hread, -⟩ := Draft.argument_leaves r ht hsupported
  obtain ⟨v', hv', hcast⟩ := exists_of_forall₂ (Value.validate_widened hw).leaves hu
  obtain ⟨l, hl, hresolved⟩ := exists_of_forall₂ hresolved hv'
  obtain ⟨a, ha, hread⟩ := exists_of_forall₂ hread hl
  exact ⟨a, ha, l, v', hread, hresolved, hcast⟩

theorem argumentsInOrder_cons_ok {p : Parameter} {ps : List Parameter} {a : RawArg}
    {as : List RawArg} {ws : List Value}
    (h : argumentsInOrder contexts (p :: ps) (a :: as) = .ok ws) :
    ∃ w ws', ws = w :: ws' ∧ argumentInOrder contexts p a = .ok w ∧
      argumentsInOrder contexts ps as = .ok ws' := by
  obtain ⟨w, hw, h⟩ := bind_eq_ok h
  obtain ⟨ws', hws', rfl⟩ := map_eq_ok h
  exact ⟨w, ws', rfl, hw, hws'⟩

/-- **Arguments that are resolved have no unsupported part.** -/
theorem argumentsInOrder_supported {ps : List Parameter} {as : List RawArg} {ws : List Value}
    (hlen : as.length = ps.length) (h : argumentsInOrder contexts ps as = .ok ws) :
    ∀ a ∈ as, a.Supported := by
  induction as generalizing ps ws with
  | nil => simp
  | cons a as ih =>
    cases ps with
    -- there are as many parameters as arguments
    | nil => simp at hlen
    | cons p ps =>
      obtain ⟨w, ws', rfl, hw, hws'⟩ := argumentsInOrder_cons_ok h
      obtain ⟨v, hv, -⟩ := argumentInOrder_ok hw
      exact List.forall_mem_cons.mpr
        ⟨(valueInOrder_ok p a v hv).1, ih (by simpa using hlen) hws'⟩

/-- What holds of every argument holds of the arguments of a call, parameter by parameter. -/
theorem argumentsInOrder_forall₂ {P : Parameter → Value → Prop} {ps : List Parameter}
    {as : List RawArg} {ws : List Value}
    (hP : ∀ a ∈ as, ∀ p w, argumentInOrder contexts p a = .ok w → P p w)
    (hlen : as.length = ps.length) (h : argumentsInOrder contexts ps as = .ok ws) :
    List.Forall₂ P ps ws := by
  induction as generalizing ps ws with
  | nil =>
    cases ps with
    | nil => cases h; exact .nil
    | cons => simp at hlen
  | cons a as ih =>
    cases ps with
    | nil => simp at hlen
    | cons p ps =>
      obtain ⟨hPa, hP⟩ := List.forall_mem_cons.mp hP
      obtain ⟨w, ws', rfl, hw, hws'⟩ := argumentsInOrder_cons_ok h
      exact .cons (hPa p w hw) (ih hP (by simpa using hlen) hws')

/-- The members of a chain are resolved one by one. -/
theorem conditionsInOrder_ok {P : Draft → Condition → Prop} {ds : List Draft}
    (hP : ∀ d ∈ ds, ∀ c, conditionInOrder contexts d = .ok c → P d c) {cs : List Condition}
    (h : conditionsInOrder contexts ds = .ok cs) : List.Forall₂ P ds cs := by
  induction ds generalizing cs with
  | nil => cases h; exact .nil
  | cons d ds ih =>
    obtain ⟨hd, hds⟩ := List.forall_mem_cons.mp hP
    obtain ⟨c, hc, h⟩ := bind_eq_ok h
    obtain ⟨cs', hcs', rfl⟩ := map_eq_ok h
    exact .cons (hd c hc) (ih hds hcs')

/-- **What holds of all resolved calls** makes up what holds of a resolved condition. -/
theorem conditionInOrder_built {P : Call → Prop} {r : Reading}
    (hP : ∀ d c, d.WellFormed r → callInOrder contexts d = .ok c → P c) {d : Draft}
    (hd : d.WellFormed r) : ∀ c, conditionInOrder contexts d = .ok c → c.Built P := by
  -- as many operands are resolved as there are, and each of them is built
  have hall : ∀ {ds cs}, List.Forall₂ (fun (_ : Draft) (c : Condition) => c.Built P) ds cs →
      ds.length = cs.length ∧ ∀ c ∈ cs, c.Built P := by
    intro ds cs h
    refine ⟨h.length_eq, fun c hc => ?_⟩
    obtain ⟨d, -, hbuilt⟩ := exists_of_forall₂ h hc
    exact hbuilt
  induction hd with
  | all hmany _ ih =>
    intro c h
    obtain ⟨cs, hcs, rfl⟩ := map_eq_ok h
    obtain ⟨hlen, hbuilt⟩ := hall (conditionsInOrder_ok ih hcs)
    exact .all (hlen ▸ hmany) hbuilt
  | any hmany _ ih =>
    intro c h
    obtain ⟨cs, hcs, rfl⟩ := map_eq_ok h
    obtain ⟨hlen, hbuilt⟩ := hall (conditionsInOrder_ok ih hcs)
    exact .any (hlen ▸ hmany) hbuilt
  | not _ ih =>
    intro c h
    obtain ⟨c', hc', rfl⟩ := map_eq_ok h
    exact .not (ih c' hc')
  | call hd =>
    intro c h
    obtain ⟨c', hc', rfl⟩ := map_eq_ok h
    exact .call (hP _ _ hd hc')

theorem callInOrder_supported {r : Reading} {d : DraftCall} {c : Call} (hd : d.WellFormed r)
    (h : callInOrder contexts d = .ok c) : d.Supported := by
  obtain ⟨ws, hws, -⟩ := map_eq_ok h
  exact argumentsInOrder_supported hd.arity hws

/-- **What is resolved has no unsupported part**, whatever the indexes answer. -/
theorem conditionInOrder_supported {r : Reading} {d : Draft} (hd : d.WellFormed r) :
    ∀ c, conditionInOrder contexts d = .ok c → d.Supported := by
  induction hd with
  | @all ds _ _ ih | @any ds _ _ ih =>
    intro c h
    obtain ⟨cs, hcs, -⟩ := map_eq_ok h
    refine Draft.supported_each_iff.mpr fun d hd => ?_
    -- every operand has been resolved
    obtain ⟨c, -, hsupported⟩ := exists_of_forall₂ (conditionsInOrder_ok ih hcs).flip hd
    exact hsupported
  | not _ ih =>
    intro c h
    obtain ⟨c', hc', -⟩ := map_eq_ok h
    exact ih c' hc'
  | call hd =>
    intro c h
    obtain ⟨c', hc', -⟩ := map_eq_ok h
    simpa [Draft.Supported, Draft.calls] using callInOrder_supported hd hc'

/-! ### Without indexes -/

/-- What becomes of a leaf of a draft where no index is asked: a value may be widened. -/
inductive Becomes : Leaf → Leaf → Prop where
  | name (n : String) : Becomes (.name n) (.name n)
  | value {v w : Value} (h : Value.Cast v w) : Becomes (.value v) (.value w)

theorem ResolvedAs.becomes {p : Parameter} (hp : p.similarity = none) {l : Leaf} {v w : Value}
    (h : ResolvedAs contexts p l v) (hw : Value.Cast v w) : Becomes l w.leaf := by
  cases h with
  | name hfind =>
    cases hw
    obtain rfl := by simpa using List.find?_some hfind
    exact .name _
  | literal l =>
    -- a literal is cast to a literal
    have hleaf : w.leaf = .value w := by
      cases l with
      | int n => cases hw <;> rfl
      | none | bool | float | str => cases hw; rfl
    rw [hleaf]
    exact .value hw
  -- no index was asked
  | found hindex => exact absurd hp hindex

theorem argumentInOrder_leaves {p : Parameter} {a : RawArg} {w : Value} (hp : p.similarity = none)
    (h : argumentInOrder contexts p a = .ok w) :
    List.Forall₂ Becomes a.leaves (w.leaves.map Value.leaf) := by
  obtain ⟨v, hv, hw⟩ := argumentInOrder_ok h
  obtain ⟨-, hleaves⟩ := valueInOrder_ok p a v hv
  refine List.forall₂_map_right_iff.mpr ?_
  exact forall₂_comp hleaves (Value.validate_widened hw).leaves fun _ _ _ h hw => h.becomes hp hw

theorem argumentsInOrder_leaves {ps : List Parameter} {as : List RawArg} {ws : List Value}
    (hps : ∀ p ∈ ps, p.similarity = none) (hlen : as.length = ps.length)
    (h : argumentsInOrder contexts ps as = .ok ws) :
    List.Forall₂ Becomes (RawArg.leavesOfEach as) ((Value.leavesOfEach ws).map Value.leaf) := by
  induction as generalizing ps ws with
  | nil =>
    cases ps with
    | nil => cases h; exact .nil
    | cons => simp at hlen
  | cons a as ih =>
    cases ps with
    | nil => simp at hlen
    | cons p ps =>
      obtain ⟨hp, hps⟩ := List.forall_mem_cons.mp hps
      obtain ⟨w, ws', rfl, hw, hws'⟩ := argumentsInOrder_cons_ok h
      rw [RawArg.leavesOfEach, Value.leavesOfEach, List.map_append]
      exact List.rel_append (argumentInOrder_leaves hp hw) (ih hps (by simpa using hlen) hws')

/-- **Resolution keeps the leaves of a call.** -/
theorem callInOrder_leaves {r : Reading} {d : DraftCall} {c : Call} (hd : d.WellFormed r)
    (hplain : r.catalog.Plain) (h : callInOrder contexts d = .ok c) :
    d.Supported ∧ List.Forall₂ Becomes d.leaves c.leaves ∧ c.function = d.function.name := by
  have hsupported := callInOrder_supported hd h
  obtain ⟨ws, hws, rfl⟩ := map_eq_ok h
  have hmem : d.function ∈ r.catalog.functions := List.mem_of_find?_eq_some hd.found
  exact ⟨hsupported, .cons (.name _) (argumentsInOrder_leaves (hplain _ hmem) hd.arity hws), rfl⟩

/-- What `conditionInOrder_leaves` says of one draft. -/
def KeptIn (d : Draft) (c : Condition) : Prop :=
  d.Supported ∧ List.Forall₂ Becomes d.leaves c.leaves ∧
    c.calls.map Call.function = d.calls.map fun d => d.function.name

theorem conditionsInOrder_leaves {ds : List Draft} {cs : List Condition}
    (h : List.Forall₂ KeptIn ds cs) :
    (∀ d ∈ Draft.callsOfEach ds, d.Supported) ∧
      List.Forall₂ Becomes (Draft.leavesOfEach ds) (Condition.leavesOfEach cs) ∧
      (Condition.callsOfEach cs).map Call.function
        = (Draft.callsOfEach ds).map fun d => d.function.name := by
  induction h with
  | nil => exact ⟨by simp [Draft.callsOfEach], .nil, rfl⟩
  | cons hd _ ih =>
    obtain ⟨hsupported, hleaves, hcalls⟩ := hd
    obtain ⟨hrest, hleaves', hcalls'⟩ := ih
    -- the leaves and the calls of the first operand come first
    rw [Draft.callsOfEach, Condition.callsOfEach, List.map_append, List.map_append, hcalls, hcalls']
    exact ⟨List.forall_mem_append.mpr ⟨hsupported, hrest⟩, List.rel_append hleaves hleaves', rfl⟩

/-- **Resolution keeps the leaves of a condition**, and its calls in their order. -/
theorem conditionInOrder_leaves {r : Reading} {d : Draft} (hd : d.WellFormed r)
    (hplain : r.catalog.Plain) : ∀ c, conditionInOrder contexts d = .ok c → KeptIn d c := by
  induction hd with
  | all _ _ ih | any _ _ ih =>
    intro c h
    obtain ⟨cs, hcs, rfl⟩ := map_eq_ok h
    exact conditionsInOrder_leaves (conditionsInOrder_ok ih hcs)
  | not _ ih =>
    intro c h
    obtain ⟨c', hc', rfl⟩ := map_eq_ok h
    exact ih c' hc'
  | call hd =>
    intro c h
    obtain ⟨c', hc', rfl⟩ := map_eq_ok h
    obtain ⟨hsupported, hleaves, hname⟩ := callInOrder_leaves hd hplain hc'
    refine ⟨by simpa [Draft.Supported, Draft.calls] using hsupported, hleaves, ?_⟩
    simp [Condition.calls, Draft.calls, hname]

end Resolve

end CatalogQuery
