import CatalogQuery.Validate
import Mathlib.Data.List.Forall2
import Mathlib.Tactic.Common

/-!
# Validated values

`validate_ok_iff` says what `Value.validate` does at the head of a type, as a relation `Validated`.
From it come the facts that later proofs use:

* a validated value inhabits its type in the strict sense (`validate_hasType`);
* it is the given value with some integers widened (`validate_widened`);
* it is validated to itself (`validate_idem`). For a union this needs that widening an integer makes
  no earlier member fit that did not fit before (`validate_of_widened`).

`validate_projection` puts the last two together.
-/

namespace CatalogQuery

/-- Induction over types. -/
theorem ParamType.induct {P : ParamType → Prop} (int : P .int) (float : P .float) (str : P .str)
    (bool : P .bool) (list : ∀ t, P t → P (.list t)) (optional : ∀ t, P t → P (.optional t))
    (union : ∀ ts, (∀ t ∈ ts, P t) → P (.union ts)) (context : ∀ name, P (.context name)) :
    ∀ t, P t
  | .int => int
  | .float => float
  | .str => str
  | .bool => bool
  | .list t => list t (induct int float str bool list optional union context t)
  | .optional t => optional t (induct int float str bool list optional union context t)
  | .union ts => union ts fun t _ => induct int float str bool list optional union context t
  | .context name => context name

namespace Value

/-! ### What validation does -/

theorem validateItems_eq_ok {check : Value → Except Mismatch Value} {i : Nat}
    {vs ws : List Value} :
    validateItems check i vs = .ok ws ↔ List.Forall₂ (fun v w => check v = .ok w) vs ws := by
  induction vs generalizing i ws with
  | nil => cases ws <;> simp [validateItems]
  | cons v vs ih =>
    rw [validateItems]
    cases hv : check v with
    | error why =>
      -- the first item that does not fit is reported
      constructor
      · intro h
        cases h
      · intro h
        cases h with
        | cons h' _ => cases hv.symm.trans h'
    | ok w =>
      dsimp only
      constructor
      · intro h
        cases hrest : validateItems check (i + 1) vs with
        | error why => rw [hrest] at h; cases h
        | ok ws' =>
          rw [hrest] at h
          cases h
          exact .cons hv (ih.mp hrest)
      · intro h
        cases h with
        | cons h' hrest =>
          cases hv.symm.trans h'
          rw [ih.mpr hrest]
          rfl

/-- No value comes of validating `v` against `t`. -/
def Unfit (t : ParamType) (v : Value) : Prop := ∀ w, v.validate t ≠ .ok w

theorem unfit_of_error {t : ParamType} {v : Value} {why : Mismatch}
    (h : v.validate t = .error why) : Unfit t v := fun w hw => by cases h.symm.trans hw

/-- The first member that fits decides. -/
theorem validateAny_eq_ok {why : Mismatch} {ts : List ParamType} {v w : Value} :
    validateAny why ts v = .ok w ↔ ∃ before t after, ts = before ++ t :: after ∧
      (∀ u ∈ before, Unfit u v) ∧ v.validate t = .ok w := by
  induction ts with
  | nil =>
    rw [validateAny]
    constructor
    · intro h
      cases h
    · rintro ⟨before, t, after, heq, -⟩
      simp at heq
  | cons t ts ih =>
    rw [validateAny]
    cases ht : v.validate t with
    | ok w' =>
      -- the first member fits
      constructor
      · intro h
        cases h
        exact ⟨[], t, ts, rfl, by simp, ht⟩
      · rintro ⟨before, t', after, heq, hbefore, h'⟩
        cases before with
        | nil => cases heq; exact ht.symm.trans h'
        | cons u before => cases heq; exact absurd ht (hbefore _ List.mem_cons_self w')
    | error why' =>
      -- it does not, and the others decide
      dsimp only
      rw [ih]
      constructor
      · rintro ⟨before, t', after, rfl, hbefore, h'⟩
        exact ⟨t :: before, t', after, rfl,
          List.forall_mem_cons.mpr ⟨unfit_of_error ht, hbefore⟩, h'⟩
      · rintro ⟨before, t', after, heq, hbefore, h'⟩
        cases before with
        | nil => cases heq; cases ht.symm.trans h'
        | cons u before =>
          cases heq
          exact ⟨before, t', after, rfl, (List.forall_mem_cons.mp hbefore).2, h'⟩

/-- A union takes its first member that fits. -/
theorem validate_union_eq_ok {ts : List ParamType} {v w : Value} :
    v.validate (.union ts) = .ok w ↔ ∃ before t after, ts = before ++ t :: after ∧
      (∀ u ∈ before, Unfit u v) ∧ v.validate t = .ok w := by
  cases ts with
  | nil =>
    rw [validate]
    constructor
    · intro h
      cases h
    · rintro ⟨before, t, after, heq, -⟩
      simp at heq
  | cons t ts =>
    -- The reason of the first member only matters when all fail.
    have hany : v.validate (.union (t :: ts)) = .ok w ↔ ∀ why, validateAny why (t :: ts) v = .ok w
        := by
      rw [validate]
      cases ht : v.validate t with
      | ok w' =>
        simp only [validateAny, ht]
        exact ⟨fun h _ => h, fun h => h (.expected .int "")⟩
      | error why =>
        simp only [validateAny, ht]
        exact ⟨fun h why' => validateAny_eq_ok.mpr (validateAny_eq_ok.mp h), fun h => h why⟩
    rw [hany]
    exact ⟨fun h => validateAny_eq_ok.mp (h (.expected .int "")), fun h why => validateAny_eq_ok.mpr h⟩

/-- If some member fits, the union does. -/
theorem validate_union_of_mem {ts : List ParamType} {t : ParamType} {v w : Value} (ht : t ∈ ts)
    (h : v.validate t = .ok w) : ∃ w', v.validate (.union ts) = .ok w' := by
  -- not the member that is given, but the first one that fits
  suffices hfirst : ∃ before u after w', ts = before ++ u :: after ∧
      (∀ u ∈ before, Unfit u v) ∧ v.validate u = .ok w' by
    obtain ⟨before, u, after, w', heq⟩ := hfirst
    exact ⟨w', validate_union_eq_ok.mpr ⟨before, u, after, heq⟩⟩
  induction ts with
  | nil => simp at ht
  | cons u ts ih =>
    cases hu : v.validate u with
    | ok w' => exact ⟨[], u, ts, w', rfl, by simp, hu⟩
    | error why =>
      have ht' : t ∈ ts := by
        rcases List.mem_cons.mp ht with rfl | ht'
        · cases hu.symm.trans h
        · exact ht'
      obtain ⟨before, u', after, w', rfl, hbefore, hu'⟩ := ih ht'
      exact ⟨u :: before, u', after, w', rfl,
        List.forall_mem_cons.mpr ⟨unfit_of_error hu, hbefore⟩, hu'⟩

theorem validate_optional {t : ParamType} {v : Value} (hv : v ≠ .none) :
    v.validate (.optional t) = v.validate t := by
  cases v with
  | none => exact absurd rfl hv
  | _ => rfl

/-- What `validate` does at the head of a type. -/
inductive Validated : ParamType → Value → Value → Prop where
  | int (n : Int64) : Validated .int (.int n) (.int n)
  | float (x : Double) : Validated .float (.float x) (.float x)
  | widened (n : Int64) : Validated .float (.int n) (.float (Binary.ofInt n.toInt))
  | str (s : String) : Validated .str (.str s) (.str s)
  | bool (b : Bool) : Validated .bool (.bool b) (.bool b)
  | list {t : ParamType} {vs ws : List Value}
      (h : List.Forall₂ (fun v w => v.validate t = .ok w) vs ws) :
      Validated (.list t) (.list vs) (.list ws)
  | none (t : ParamType) : Validated (.optional t) .none .none
  | optional {t : ParamType} {v w : Value} (hv : v ≠ .none) (h : v.validate t = .ok w) :
      Validated (.optional t) v w
  | union {before after : List ParamType} {t : ParamType} {v w : Value}
      (hbefore : ∀ u ∈ before, Unfit u v) (h : v.validate t = .ok w) :
      Validated (.union (before ++ t :: after)) v w
  | context (c : Context) : Validated (.context c.typeName) (.context c) (.context c)

/-- **What validation does.** -/
theorem validate_ok_iff {t : ParamType} {v w : Value} :
    v.validate t = .ok w ↔ Validated t v w := by
  constructor
  · intro h
    cases t with
    | int =>
      cases v with
      | int n => rw [validate] at h; cases h; exact .int n
      | _ => cases h
    | float =>
      cases v with
      | float x => rw [validate] at h; cases h; exact .float x
      | int n => rw [validate] at h; cases h; exact .widened n
      | _ => cases h
    | str =>
      cases v with
      | str s => rw [validate] at h; cases h; exact .str s
      | _ => cases h
    | bool =>
      cases v with
      | bool b => rw [validate] at h; cases h; exact .bool b
      | _ => cases h
    | list t =>
      cases v with
      | list vs =>
        rw [validate] at h
        cases hvs : validateItems (validate t) 0 vs with
        | error why => rw [hvs] at h; cases h
        | ok ws =>
          rw [hvs] at h
          cases h
          exact .list (validateItems_eq_ok.mp hvs)
      | _ => cases h
    | optional t =>
      by_cases hv : v = .none
      · subst hv
        rw [validate] at h
        cases h
        exact .none t
      · -- what is not none is validated by the type itself
        rw [validate_optional hv] at h
        exact .optional hv h
    | union ts =>
      obtain ⟨before, t, after, rfl, hbefore, h⟩ := validate_union_eq_ok.mp h
      exact .union hbefore h
    | context name =>
      cases v with
      | context c =>
        rw [validate] at h
        split_ifs at h with hname
        subst hname
        cases h
        exact .context c
      | _ => cases h
  · intro h
    cases h with
    | int | float | widened | str | bool => rw [validate]
    | list h => rw [validate, validateItems_eq_ok.mpr h]; rfl
    | none => rw [validate]
    | optional hv h => rw [validate_optional hv, h]
    | union hbefore h => exact validate_union_eq_ok.mpr ⟨_, _, _, rfl, hbefore, h⟩
    | context c => rw [validate, if_pos rfl]

/-! ### The strict sense of types -/

/-- A value inhabits a type in the strict sense: an integer is not a floating-point number, `None`
is of optional types only, and a value of a union is of one of its members. -/
inductive HasType : Value → ParamType → Prop where
  | int (n : Int64) : HasType (.int n) .int
  | float (x : Double) : HasType (.float x) .float
  | str (s : String) : HasType (.str s) .str
  | bool (b : Bool) : HasType (.bool b) .bool
  | list {t : ParamType} {vs : List Value} (h : ∀ v ∈ vs, v.HasType t) :
      HasType (.list vs) (.list t)
  | none (t : ParamType) : HasType .none (.optional t)
  | some {t : ParamType} {v : Value} (h : v.HasType t) : HasType v (.optional t)
  | member {ts : List ParamType} {t : ParamType} {v : Value} (ht : t ∈ ts) (h : v.HasType t) :
      HasType v (.union ts)
  | context (c : Context) : HasType (.context c) (.context c.typeName)

/-- **Validated values are well typed.** -/
theorem validate_hasType {t : ParamType} {v w : Value} (h : v.validate t = .ok w) :
    w.HasType t := by
  induction t using ParamType.induct generalizing v w with
  | list t ih =>
    cases validate_ok_iff.mp h with
    | @list _ vs ws hvs =>
      refine .list fun w hw => ?_
      -- each item of the result is validated from the item at its place
      obtain ⟨i, hi, rfl⟩ := List.mem_iff_getElem.mp hw
      exact ih (hvs.get (by rw [hvs.length_eq]; exact hi) hi)
  | optional t ih =>
    cases validate_ok_iff.mp h with
    | none => exact .none t
    | optional _ h => exact .some (ih h)
  | union ts ih =>
    cases validate_ok_iff.mp h with
    | @union before after t _ _ _ h =>
      have ht : t ∈ before ++ t :: after := by simp
      exact .member ht (ih t ht h)
  | int => cases validate_ok_iff.mp h with | int n => exact .int n
  | float =>
    cases validate_ok_iff.mp h with
    | float x => exact .float x
    | widened n => exact .float _
  | str => cases validate_ok_iff.mp h with | str s => exact .str s
  | bool => cases validate_ok_iff.mp h with | bool b => exact .bool b
  | context => cases validate_ok_iff.mp h with | context c => exact .context c

/-! ### Widening -/

/-- The second value is the first with some integers widened to floating-point numbers. -/
inductive Widened : Value → Value → Prop where
  | refl (v : Value) : Widened v v
  | int (n : Int64) : Widened (.int n) (.float (Binary.ofInt n.toInt))
  | list {vs ws : List Value} (h : List.Forall₂ Widened vs ws) : Widened (.list vs) (.list ws)

/-- **Validation changes nothing but widens integers.** -/
theorem validate_widened {t : ParamType} {v w : Value} (h : v.validate t = .ok w) :
    Widened v w := by
  induction t using ParamType.induct generalizing v w with
  | list t ih =>
    cases validate_ok_iff.mp h with
    | list hvs => exact .list (hvs.imp fun _ _ h => ih h)
  | optional t ih =>
    cases validate_ok_iff.mp h with
    | none => exact .refl _
    | optional _ h => exact ih h
  | union ts ih =>
    cases validate_ok_iff.mp h with
    | union _ h => exact ih _ (by simp) h
  | float =>
    cases validate_ok_iff.mp h with
    | float x => exact .refl _
    -- an integer where a decimal is wanted
    | widened n => exact .int n
  | int | str | bool | context =>
    cases validate_ok_iff.mp h
    exact .refl _

/-- What fits after some integers were widened fitted before. -/
theorem validate_of_widened {t : ParamType} {v v' w' : Value} (hv : Widened v v')
    (h : v'.validate t = .ok w') : ∃ w, v.validate t = .ok w := by
  induction t using ParamType.induct generalizing v v' w' with
  | list t ih =>
    cases validate_ok_iff.mp h with
    | @list _ vs' ws' hvs =>
      cases hv with
      | refl => exact ⟨_, h⟩
      | @list vs _ hwide =>
        suffices hws : ∃ ws, List.Forall₂ (fun v w => v.validate t = .ok w) vs ws by
          obtain ⟨ws, hws⟩ := hws
          exact ⟨_, validate_ok_iff.mpr (.list hws)⟩
        clear h
        -- the items were widened and are validated one by one
        induction hwide generalizing ws' with
        | nil => exact ⟨[], .nil⟩
        | cons hx _ ihs =>
          cases hvs with
          | cons hy hys =>
            obtain ⟨w, hw⟩ := ih hx hy
            obtain ⟨ws, hws⟩ := ihs hys
            exact ⟨w :: ws, .cons hw hws⟩
  | optional t ih =>
    cases validate_ok_iff.mp h with
    | none => cases hv; exact ⟨_, h⟩
    | optional hne h' =>
      obtain ⟨w, hw⟩ := ih hv h'
      have hv' : v ≠ .none := by
        rintro rfl
        cases hv
        exact hne rfl
      exact ⟨w, validate_ok_iff.mpr (.optional hv' hw)⟩
  | union ts ih =>
    obtain ⟨before, t, after, rfl, -, h'⟩ := validate_union_eq_ok.mp h
    have ht : t ∈ before ++ t :: after := by simp
    obtain ⟨w, hw⟩ := ih t ht hv h'
    exact validate_union_of_mem ht hw
  | float =>
    cases validate_ok_iff.mp h with
    | float x =>
      cases hv with
      | refl => exact ⟨_, h⟩
      | int n => exact ⟨_, validate_ok_iff.mpr (.widened n)⟩
    | widened n => cases hv; exact ⟨_, h⟩
  | int | str | bool | context =>
    cases validate_ok_iff.mp h
    cases hv
    exact ⟨_, h⟩

/-- **Validated values are validated to themselves.** -/
theorem validate_idem {t : ParamType} {v w : Value} (h : v.validate t = .ok w) :
    w.validate t = .ok w := by
  induction t using ParamType.induct generalizing v w with
  | list t ih =>
    cases validate_ok_iff.mp h with
    | @list _ vs ws hvs =>
      refine validate_ok_iff.mpr (.list ?_)
      clear h
      induction hvs with
      | nil => exact .nil
      | cons hx _ ihs => exact .cons (ih hx) ihs
  | optional t ih =>
    cases validate_ok_iff.mp h with
    | none => exact h
    | optional hne h' =>
      have hw : w ≠ .none := by
        rintro rfl
        cases validate_widened h'
        exact hne rfl
      exact validate_ok_iff.mpr (.optional hw (ih h'))
  | union ts ih =>
    obtain ⟨before, t, after, rfl, hbefore, h'⟩ := validate_union_eq_ok.mp h
    -- An earlier member that fits the widened value would have fitted the value as it was.
    have hbefore' : ∀ u ∈ before, Unfit u w := by
      intro u hu w' hw'
      obtain ⟨x, hx⟩ := validate_of_widened (validate_widened h') hw'
      exact hbefore u hu x hx
    exact validate_ok_iff.mpr (.union hbefore' (ih t (by simp) h'))
  | float =>
    cases validate_ok_iff.mp h with
    | float x => exact h
    | widened n => exact validate_ok_iff.mpr (.float _)
  | int | str | bool | context =>
    cases validate_ok_iff.mp h
    exact h

/-- **Validation is a projection that only widens.** A validated value is the given value with some
integers widened, and is validated to itself; and a type that takes a value after some integers were
widened takes it as it was. -/
theorem validate_projection (t : ParamType) (v : Value) :
    (∀ w, v.validate t = .ok w → w.validate t = .ok w ∧ Widened v w) ∧
    ∀ v', Widened v v' → (∃ w', v'.validate t = .ok w') → ∃ w, v.validate t = .ok w := by
  refine ⟨fun w h => ⟨validate_idem h, validate_widened h⟩, ?_⟩
  rintro v' hv ⟨w', h⟩
  exact validate_of_widened hv h

/-- Each element takes a member of its own: the second is widened, the third stays as it is. -/
theorem validate_projection_mixed :
    let t : ParamType := .union [.list .int, .list (.union [.float, .optional .str])]
    let v : Value := .list [.none, .int 2, .str "a"]
    let w : Value := .list [.none, .float (Binary.ofInt 2), .str "a"]
    (v.validate t = .ok w ∧ w.validate t = .ok w) ∧
      Widened v w ∧ ∃ u, v.validate t = .ok u := by
  intro t v w
  have hv : v.validate t = .ok w := rfl
  obtain ⟨hw, hwide⟩ := (validate_projection t v).1 w hv
  exact ⟨⟨hv, hw⟩, hwide, (validate_projection t v).2 w hwide ⟨w, hw⟩⟩

end Value

end CatalogQuery
