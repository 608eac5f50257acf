import CatalogQuery.Proofs.Basic
import CatalogQuery.Proofs.Query.Leaves
import CatalogQuery.Resolve.Basic
import Mathlib.Data.List.Nodup

/-!
# Which contexts a type admits

`ParamType.contextTypes` walks through a type and collects names. What the names mean is said by
validation: `t.Admits n` if some value that holds a context of type `n`, however deep in lists, is
taken by `t`. The two agree (`mem_collectContexts`): `Admits` has one law for each constructor of
types, and the walk follows these laws.

`contextTypes_admission` states the agreement together with what it means for resolution: a context
is let through for a parameter exactly if a value with a context of its type can be valid there.
-/

namespace CatalogQuery

namespace ParamType

/-- Some value that holds a context of the named type is valid. -/
def Admits (t : ParamType) (n : String) : Prop :=
  ∃ (v : Value) (c : Context), .context c ∈ v.leaves ∧ c.typeName = n ∧ ∃ w, v.validate t = .ok w

/-! ### Laws of admission -/

variable {t : ParamType} {n : String}

theorem not_admits_plain (ht : t = .int ∨ t = .float ∨ t = .str ∨ t = .bool) : ¬ t.Admits n := by
  rintro ⟨v, c, hc, -, w, hw⟩
  rcases ht with rfl | rfl | rfl | rfl <;> cases Value.validate_ok_iff.mp hw <;>
    simp [Value.leaves] at hc

theorem admits_context {m : String} : (context m).Admits n ↔ n = m := by
  constructor
  · rintro ⟨v, c, hc, rfl, w, hw⟩
    cases Value.validate_ok_iff.mp hw
    simp only [Value.leaves, List.mem_singleton, Value.context.injEq] at hc
    rw [hc]
  · rintro rfl
    let c : Context := ⟨"", n, .null⟩
    exact ⟨.context c, c, List.mem_singleton_self _, rfl, .context c,
      Value.validate_ok_iff.mpr (.context c)⟩

theorem admits_list : (list t).Admits n ↔ t.Admits n := by
  constructor
  · rintro ⟨v, c, hc, hn, w, hw⟩
    cases Value.validate_ok_iff.mp hw with
    | @list _ vs ws hvs =>
      rw [Value.leaves, Value.leavesOfEach_eq, List.mem_flatMap] at hc
      obtain ⟨u, hu, hc⟩ := hc
      obtain ⟨w, -, hw⟩ := exists_of_forall₂ hvs.flip hu
      exact ⟨u, c, hc, hn, w, hw⟩
  · rintro ⟨v, c, hc, hn, w, hw⟩
    refine ⟨.list [v], c, ?_, hn, .list [w], Value.validate_ok_iff.mpr (.list (.cons hw .nil))⟩
    rw [Value.leaves, Value.leavesOfEach, Value.leavesOfEach, List.append_nil]
    exact hc

theorem admits_optional : (optional t).Admits n ↔ t.Admits n := by
  constructor
  · rintro ⟨v, c, hc, hn, w, hw⟩
    cases Value.validate_ok_iff.mp hw with
    | none => simp [Value.leaves] at hc
    | optional _ hw => exact ⟨v, c, hc, hn, w, hw⟩
  · rintro ⟨v, c, hc, hn, w, hw⟩
    have hv : v ≠ .none := by
      rintro rfl
      simp [Value.leaves] at hc
    exact ⟨v, c, hc, hn, w, Value.validate_ok_iff.mpr (.optional hv hw)⟩

/-- An earlier member may take the value in another way, but then the union takes it too. -/
theorem admits_union {ts : List ParamType} : (union ts).Admits n ↔ ∃ t ∈ ts, t.Admits n := by
  constructor
  · rintro ⟨v, c, hc, hn, w, hw⟩
    obtain ⟨before, t, after, rfl, -, hw⟩ := Value.validate_union_eq_ok.mp hw
    exact ⟨t, by simp, v, c, hc, hn, w, hw⟩
  · rintro ⟨t, ht, v, c, hc, hn, w, hw⟩
    exact ⟨v, c, hc, hn, Value.validate_union_of_mem ht hw⟩

/-! ### The walk follows the laws -/

/-- Members one after another, given that the walk through each follows the laws. -/
theorem mem_collectContextsOfEach {ts : List ParamType}
    (h : ∀ t ∈ ts, ∀ found, n ∈ t.collectContexts found ↔ n ∈ found ∨ t.Admits n)
    (found : List String) :
    n ∈ collectContextsOfEach found ts ↔ n ∈ found ∨ ∃ t ∈ ts, t.Admits n := by
  induction ts generalizing found with
  | nil => simp [collectContextsOfEach]
  | cons t ts ih =>
    obtain ⟨ht, hts⟩ := List.forall_mem_cons.mp h
    rw [collectContextsOfEach, ih hts, ht, List.exists_mem_cons_iff, or_assoc]

/-- **The walk collects what the type admits.** -/
theorem mem_collectContexts (t : ParamType) (found : List String) :
    n ∈ t.collectContexts found ↔ n ∈ found ∨ t.Admits n := by
  induction t using ParamType.induct generalizing found with
  | int | float | str | bool => simp [collectContexts, not_admits_plain]
  | list t ih => rw [collectContexts, ih, admits_list]
  | optional t ih => rw [collectContexts, ih, admits_optional]
  | union ts ih => rw [collectContexts, mem_collectContextsOfEach ih, admits_union]
  | context m =>
    rw [collectContexts, admits_context]
    split
    · rename_i hm
      have hm : m ∈ found := by simpa using hm
      exact ⟨.inl, fun h => h.elim id fun h => h ▸ hm⟩
    · rw [List.mem_append, List.mem_singleton]

theorem mem_contextTypes : n ∈ t.contextTypes ↔ t.Admits n := by
  rw [contextTypes, mem_collectContexts]
  simp

theorem nodup_collectContextsOfEach {ts : List ParamType}
    (h : ∀ t ∈ ts, ∀ found : List String, found.Nodup → (t.collectContexts found).Nodup)
    {found : List String} (hfound : found.Nodup) : (collectContextsOfEach found ts).Nodup := by
  induction ts generalizing found with
  | nil => exact hfound
  | cons t ts ih =>
    obtain ⟨ht, hts⟩ := List.forall_mem_cons.mp h
    exact ih hts (ht found hfound)

/-- The walk collects no name a second time. -/
theorem nodup_collectContexts (t : ParamType) {found : List String} (h : found.Nodup) :
    (t.collectContexts found).Nodup := by
  induction t using ParamType.induct generalizing found with
  | int | float | str | bool => exact h
  | list t ih => exact ih h
  | optional t ih => exact ih h
  | union ts ih => exact nodup_collectContextsOfEach (fun t ht found hfound => ih t ht hfound) h
  | context m =>
    rw [collectContexts]
    split
    · exact h
    · rename_i hm
      -- a new name is put behind those that were found
      have hm : m ∉ found := by simpa using hm
      rw [← List.concat_eq_append]
      exact List.Nodup.concat hm h

end ParamType

/-! ### Parameters -/

theorem Parameter.acceptsContext_iff {p : Parameter} {n : String} :
    p.acceptsContext n = true ↔ p.type.Admits n := by
  rw [acceptsContext, contextTypes, List.contains_iff_mem, ParamType.mem_contextTypes]

/-- **A context is let through** exactly if the type of the parameter admits its type. -/
theorem Resolve.context_eq_ok_iff {contexts : List Context} {p : Parameter} {name : String}
    {piece : Snippet} {c : Context} (h : contexts.find? (fun d => d.name == name) = some c) :
    Resolve.context contexts p name piece = .ok (.context c) ↔ p.type.Admits c.typeName := by
  rw [← Parameter.acceptsContext_iff, Resolve.context, h]
  constructor
  · intro hok
    dsimp only at hok
    split_ifs at hok with _ haccepts
    exact haccepts
  · intro haccepts
    -- a type that accepts a context has some
    have hsome : p.contextTypes.isEmpty = false := by
      rw [List.isEmpty_eq_false_iff_exists_mem]
      exact ⟨c.typeName, List.contains_iff_mem.mp haccepts⟩
    dsimp only
    rw [hsome, if_neg Bool.false_ne_true, if_pos haccepts]

/-- **Admission of contexts is exact.** A name is among the context types of a type, once, exactly
if a value that holds a context of that type is valid there; parameters of the type accept these
contexts, and for a name in a query resolution lets the context through exactly then. -/
theorem contextTypes_admission (t : ParamType) (n : String) :
    (n ∈ t.contextTypes ↔ t.Admits n) ∧ t.contextTypes.Nodup ∧
    ∀ p : Parameter, p.type = t →
      (p.acceptsContext n = true ↔ t.Admits n) ∧
      ∀ (contexts : List Context) (name : String) (piece : Snippet) (c : Context),
        contexts.find? (fun d => d.name == name) = some c →
        (Resolve.context contexts p name piece = .ok (.context c) ↔ t.Admits c.typeName) := by
  refine ⟨ParamType.mem_contextTypes, ParamType.nodup_collectContexts t List.nodup_nil, ?_⟩
  rintro p rfl
  exact ⟨Parameter.acceptsContext_iff, fun _ _ _ _ => Resolve.context_eq_ok_iff⟩

/-- A context in a list, behind a member that takes other lists and one that takes nothing. -/
theorem contextTypes_admission_nested :
    let p : Parameter := ⟨"places", .union [.list .int, .union [],
      .list (.optional (.context "City"))], none⟩
    let home : Context := ⟨"HOME", "City", .null⟩
    p.type = .union [.list .int, .union [], .list (.optional (.context "City"))] ∧
    [home].find? (fun d => d.name == "HOME") = some home ∧
    Resolve.context [home] p "HOME" ⟨"HOME", 2, 6, 1, 3⟩ = .ok (.context home) ∧
    p.type.Admits "City" :=
  have h := contextTypes_admission
    (.union [.list .int, .union [], .list (.optional (.context "City"))]) "City"
  have hcity := h.1.mp (by decide)
  ⟨rfl, rfl, ((h.2.2 ⟨"places", _, none⟩ rfl).2 [⟨"HOME", "City", .null⟩] "HOME"
    ⟨"HOME", 2, 6, 1, 3⟩ ⟨"HOME", "City", .null⟩ rfl).mpr hcity, hcity⟩

end CatalogQuery
