import CatalogQuery.Proofs.Draft.Integers
import CatalogQuery.Proofs.Resolve.Replay

/-!
# Accepted queries are readable

What an accepted query has at its leaves can stand in a source: names that are read as names,
integers that have a negative, and finite numbers (`callInOrder_readable`). Together with
`Call.Settled` this is what a call needs to be read again (`Call.Replays`), and all calls of an
accepted query have it (`parseFilter_replays`, `parseAggregation_replays`).
-/

namespace CatalogQuery

open Grammar

/-- The name that a node holds. -/
theorem Grammar.ParseTree.Grown.isName {t : ParseTree} (ht : t.Grown) (hrule : t.rule = .ident) :
    IsName (String.ofList t.text) := by
  cases ht with
  | @node m r c c' ts hm h hts =>
    obtain rfl : r = .ident := hrule
    obtain ⟨w, hw, hword, hfree⟩ := h.of_ident
    have htext : (c.nodeTo c' .ident ts).text = w := Cursor.textTo_eq hw
    rw [htext]
    exact ⟨by rwa [String.toList_ofList], by rwa [String.toList_ofList]⟩

/-- What stands at a leaf can stand in a source. -/
def Leaf.Readable : Leaf → Prop
  | .name n => IsName n
  | .value v => v.Readable

/-! ### Atoms -/

namespace Draft

theorem literal?_readable {t : ParseTree} {l : Literal} (h : literal? t = some l) :
    l.value.Readable := by
  cases l with
  | none => exact .none
  | bool b => exact .bool b
  | str s => exact .str s
  | float x => exact .float (literal?_isFinite h)
  | int n => exact .int (ne_minValue_of_literal? h)

/-- Every atom is read as something that can stand in a source. -/
theorem ReadAs.readable {t : ParseTree} (ht : t.Grown) {l : Leaf} (h : ReadAs t l) :
    l.Readable := by
  cases h with
  | name hrule => exact ht.isName hrule
  | literal h => exact literal?_readable h
  | negInt h =>
    cases literal?_readable h with
    | int hn => exact .int (neg_ne_minValue hn)
  | negFloat h =>
    cases literal?_readable h with
    | float hx => exact .float hx

end Draft

/-! ### Values -/

theorem Value.Cast.readable {v w : Value} (h : Value.Cast v w) (hv : v.Readable) : w.Readable := by
  cases h with
  | same => exact hv
  | widened n => exact .float (Binary.isFinite_ofInt n)

mutual

theorem Value.readable_of_leaves : ∀ v : Value, (∀ u ∈ v.leaves, u.Readable) → v.Readable
  | .none, _ => .none
  | .bool b, _ => .bool b
  | .int n, h => h (.int n) (List.mem_singleton_self _)
  | .float x, h => h (.float x) (List.mem_singleton_self _)
  | .str s, _ => .str s
  | .list vs, h => .list (Value.readable_of_leavesOfEach vs h)
  | .context c, h => h (.context c) (List.mem_singleton_self _)

theorem Value.readable_of_leavesOfEach :
    ∀ vs : List Value, (∀ u ∈ Value.leavesOfEach vs, u.Readable) → ∀ v ∈ vs, v.Readable
  | [], _ => by simp
  | v :: vs, h => by
    obtain ⟨hv, hvs⟩ := List.forall_mem_append.mp h
    exact List.forall_mem_cons.mpr
      ⟨Value.readable_of_leaves v hv, Value.readable_of_leavesOfEach vs hvs⟩

end

namespace Resolve

variable {contexts : List Context}

theorem ResolvedAs.readable {p : Parameter} {l : Leaf} {v : Value} (h : ResolvedAs contexts p l v)
    (hl : l.Readable) : v.Readable := by
  cases h with
  | @name n c hfind _ =>
    obtain rfl : c.name = n := by simpa using List.find?_some hfind
    exact .context hl
  | literal => exact hl
  | found _ s => exact .str s

/-- **A resolved argument is readable.** -/
theorem argumentInOrder_readable {r : Reading} {p : Parameter} {t : ParseTree} {w : Value}
    (ht : t.Grown) (h : argumentInOrder contexts p (Draft.argument r t) = .ok w) :
    w.Readable := by
  refine w.readable_of_leaves fun u hu => ?_
  obtain ⟨a, ha, l, v, hread, hresolved, hcast⟩ := argumentInOrder_atom ht h hu
  have hleaf : l.Readable := hread.readable (ht.of_mem_atoms a ha)
  have hvalue : v.Readable := hresolved.readable hleaf
  exact hcast.readable hvalue

/-- **A resolved call is readable.** -/
theorem callInOrder_readable {r : Reading} {d : DraftCall} {c : Call} (hd : d.WellFormed r)
    (h : callInOrder contexts d = .ok c) : c.Readable := by
  obtain ⟨ws, hws, rfl⟩ := map_eq_ok h
  obtain ⟨t, ht, hrule, hname⟩ := hd.named
  have harguments : List.Forall₂ (fun (_ : Parameter) (w : Value) => w.Readable)
      d.function.parameters ws := by
    refine argumentsInOrder_forall₂ ?_ hd.arity hws
    intro a ha p w hw
    obtain ⟨t, ht, rfl⟩ := hd.read a ha
    exact argumentInOrder_readable ht hw
  refine ⟨hname ▸ ht.isName hrule, fun w hw => ?_⟩
  obtain ⟨p, -, hreadable⟩ := exists_of_forall₂ harguments hw
  exact hreadable

end Resolve

/-! ### Queries -/

/-- What a call needs to be written and read again. -/
structure Call.Replays (catalog : Catalog) (contexts : List Context) (c : Call) : Prop where
  readable : c.Readable
  settled : c.Settled catalog contexts

/-- **The calls of an accepted filter can be read again.** -/
theorem parseFilter_replays {source : String} {catalog : Catalog} {contexts : List Context}
    {q : Query Condition} (h : (parseFilter source catalog contexts).result = .ok q) :
    q.root.Built (Call.Replays catalog contexts) := by
  obtain ⟨t, d, ht, hd, hroot, -⟩ := parseFilter_eq_ok_iff.mp h
  obtain ⟨tree, -, hgrown, -⟩ := Source.statement_atoms ht
  refine Resolve.conditionInOrder_built ?_ (Draft.ofTree_wellFormed hgrown _ _ hd) _ hroot
  exact fun d c hd hc =>
    ⟨Resolve.callInOrder_readable hd hc, Resolve.callInOrder_settled hd hc⟩

/-- The call of an accepted aggregation can be read again. -/
theorem parseAggregation_replays {source : String} {catalog : Catalog} {contexts : List Context}
    {q : Query Call} (h : (parseAggregation source catalog contexts).result = .ok q) :
    q.root.Replays catalog contexts := by
  obtain ⟨t, d, ht, hd, hroot, -⟩ := parseAggregation_eq_ok_iff.mp h
  obtain ⟨tree, -, hgrown, -⟩ := Source.statement_atoms ht
  have hwell := Draft.aggregationOfTree_wellFormed hgrown hd
  exact ⟨Resolve.callInOrder_readable hwell hroot, Resolve.callInOrder_settled hwell hroot⟩

/-! ### Names -/

theorem Value.Readable.leaf {v : Value} (hv : v.Readable) : ∀ u ∈ v.leaves, u.leaf.Readable := by
  induction hv with
  | none => exact List.forall_mem_singleton.mpr .none
  | bool b => exact List.forall_mem_singleton.mpr (.bool b)
  | int hn => exact List.forall_mem_singleton.mpr (.int hn)
  | float hx => exact List.forall_mem_singleton.mpr (.float hx)
  | str s => exact List.forall_mem_singleton.mpr (.str s)
  | context hc => exact List.forall_mem_singleton.mpr hc
  | list _ ih =>
    intro u hu
    rw [Value.leaves, Value.leavesOfEach_eq] at hu
    obtain ⟨v, hv, hu⟩ := List.mem_flatMap.mp hu
    exact ih v hv u hu

theorem Call.Readable.leaves {c : Call} (hc : c.Readable) : ∀ l ∈ c.leaves, l.Readable := by
  refine List.forall_mem_cons.mpr ⟨hc.name, List.forall_mem_map.mpr fun u hu => ?_⟩
  rw [Value.leavesOfEach_eq] at hu
  obtain ⟨v, hv, hu⟩ := List.mem_flatMap.mp hu
  exact (hc.arguments v hv).leaf u hu

theorem Condition.Built.leaves {c : Condition} (hc : c.Built Call.Readable) :
    ∀ l ∈ c.leaves, l.Readable := by
  induction hc with
  | all _ _ ih | any _ _ ih =>
    intro l hl
    rw [Condition.leaves, Condition.leavesOfEach_eq] at hl
    obtain ⟨c, hc, hl⟩ := List.mem_flatMap.mp hl
    exact ih c hc l hl
  | not _ ih => exact ih
  | call hc => exact hc.leaves

end CatalogQuery
