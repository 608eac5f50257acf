import CatalogQuery.Catalog
import Mathlib.Data.List.Induction
import Mathlib.Data.List.Nodup

/-!
# Histories of registrations

Functions are registered one after another, and each registration is accepted or refused. A history
is the list of all functions that were tried, and `Catalog.accepted` keeps those of them whose own
registration was accepted.

* `Catalog.register_eq_ok_iff` and `Catalog.register_eq_error_iff` say what one registration does,
  with the error of every refusal.
* `Catalog.WellFormed.tried`: a registration keeps names distinct, whether or not it is accepted.
* `Catalog.history_records`: from these, by induction on the history, what a catalog is after any
  number of registrations.
-/

namespace CatalogQuery

/-! ### Repeated parameters -/

namespace Parameter

theorem firstRepeated_cons_of_mem {seen : List String} {p : Parameter} (h : p.name ∈ seen)
    (ps : List Parameter) : firstRepeated seen (p :: ps) = some p.name := by
  rw [firstRepeated, if_pos (List.contains_iff_mem.mpr h)]

theorem firstRepeated_cons_of_not_mem {seen : List String} {p : Parameter} (h : p.name ∉ seen)
    (ps : List Parameter) :
    firstRepeated seen (p :: ps) = firstRepeated (p.name :: seen) ps := by
  rw [firstRepeated, if_neg (by simpa using h)]

/-- No name is found repeated if the names are distinct and none was seen before. -/
theorem firstRepeated_eq_none_iff {seen : List String} {ps : List Parameter} :
    firstRepeated seen ps = none ↔ (ps.map name).Nodup ∧ ∀ p ∈ ps, p.name ∉ seen := by
  induction ps generalizing seen with
  | nil => simp [firstRepeated]
  | cons p ps ih =>
    by_cases hseen : p.name ∈ seen
    · rw [firstRepeated_cons_of_mem hseen]
      simp [hseen]
    · rw [firstRepeated_cons_of_not_mem hseen, ih, List.map_cons, List.nodup_cons, List.mem_map]
      -- The name of `p` is new either way: the other parameters have it neither from `p` nor before.
      constructor
      · rintro ⟨hnodup, hnew⟩
        refine ⟨⟨?_, hnodup⟩, List.forall_mem_cons.mpr ⟨hseen, fun q hq => ?_⟩⟩
        · rintro ⟨q, hq, hname⟩
          exact hnew q hq (hname ▸ List.mem_cons_self)
        · exact fun h => hnew q hq (List.mem_cons_of_mem _ h)
      · rintro ⟨⟨hfresh, hnodup⟩, hnew⟩
        refine ⟨hnodup, fun q hq h => ?_⟩
        rcases List.mem_cons.mp h with hname | h
        · exact hfresh ⟨q, hq, hname⟩
        · exact hnew q (List.mem_cons_of_mem _ hq) h

/-- The name that is found repeated is the first one that was seen or stands further in front. -/
theorem firstRepeated_eq_some_iff {seen : List String} {ps : List Parameter} {n : String} :
    firstRepeated seen ps = some n ↔ ∃ before p after, ps = before ++ p :: after ∧ p.name = n ∧
      (n ∈ seen ∨ n ∈ before.map name) ∧ firstRepeated seen before = none := by
  induction ps generalizing seen with
  | nil => simp [firstRepeated]
  | cons p ps ih =>
    by_cases hseen : p.name ∈ seen
    · rw [firstRepeated_cons_of_mem hseen]
      constructor
      · -- the first parameter is the one that repeats a name
        rintro ⟨⟩
        exact ⟨[], p, ps, rfl, rfl, .inl hseen, rfl⟩
      · rintro ⟨before, q, after, hsplit, rfl, -, hbefore⟩
        -- nothing stands before it, as that would have been found repeated
        cases before with
        | nil =>
          obtain ⟨rfl, -⟩ := List.cons.inj hsplit
          rfl
        | cons p' before =>
          obtain ⟨rfl, -⟩ := List.cons.inj hsplit
          rw [firstRepeated_cons_of_mem hseen] at hbefore
          cases hbefore
    · rw [firstRepeated_cons_of_not_mem hseen, ih]
      constructor
      · -- a new name joins those that were seen
        rintro ⟨before, q, after, rfl, hname, hmem, hbefore⟩
        refine ⟨p :: before, q, after, rfl, hname, ?_,
          by rwa [firstRepeated_cons_of_not_mem hseen]⟩
        simp only [List.mem_cons, List.map_cons] at hmem ⊢
        tauto
      · rintro ⟨before, q, after, hsplit, rfl, hmem, hbefore⟩
        cases before with
        | nil =>
          obtain ⟨rfl, -⟩ := List.cons.inj hsplit
          simp [hseen] at hmem
        | cons p' before =>
          obtain ⟨rfl, rfl⟩ := List.cons.inj hsplit
          rw [firstRepeated_cons_of_not_mem hseen] at hbefore
          refine ⟨before, q, after, rfl, rfl, ?_, hbefore⟩
          simp only [List.mem_cons, List.map_cons] at hmem ⊢
          tauto

end Parameter

/-- The parameters of the function have distinct names. -/
def Function.Distinct (f : Function) : Prop := (f.parameters.map Parameter.name).Nodup

instance (f : Function) : Decidable f.Distinct :=
  inferInstanceAs (Decidable (f.parameters.map Parameter.name).Nodup)

/-- Some parameter of the function, the first one of this kind, has the name `n` of an earlier
parameter. -/
def Function.FirstRepeats (f : Function) (n : String) : Prop :=
  ∃ before p after, f.parameters = before ++ p :: after ∧ p.name = n ∧
    n ∈ before.map Parameter.name ∧ (before.map Parameter.name).Nodup

theorem Function.firstRepeated_eq_none_iff {f : Function} :
    Parameter.firstRepeated [] f.parameters = none ↔ f.Distinct := by
  simp [Parameter.firstRepeated_eq_none_iff, Distinct]

theorem Function.firstRepeated_eq_some_iff {f : Function} {n : String} :
    Parameter.firstRepeated [] f.parameters = some n ↔ f.FirstRepeats n := by
  simp [Parameter.firstRepeated_eq_some_iff, Parameter.firstRepeated_eq_none_iff, FirstRepeats]

/-! ### One registration -/

namespace Catalog

/-- The names of the functions, in the order of their registration. -/
def names (c : Catalog) : List String := c.functions.map Function.name

/-- The name of a function is taken. -/
theorem any_name_iff {c : Catalog} {name : String} :
    (c.functions.any fun g => g.name == name) = true ↔ name ∈ c.names := by
  simp [names]

/-- **What is accepted** has a new name and distinct parameters, and is put behind the others. -/
theorem register_eq_ok_iff {c c' : Catalog} {f : Function} :
    c.register f = .ok c' ↔
      (f.name ∉ c.names ∧ f.Distinct) ∧ c' = ⟨c.functions ++ [f]⟩ := by
  unfold register
  -- the name is looked at first, the parameters after it
  split_ifs with htaken
  · simp [any_name_iff.mp htaken]
  · have hnew : f.name ∉ c.names := fun h => htaken (any_name_iff.mpr h)
    cases hrepeated : Parameter.firstRepeated [] f.parameters with
    | none =>
      have hdistinct := Function.firstRepeated_eq_none_iff.mp hrepeated
      simp [hnew, hdistinct, eq_comm]
    | some n =>
      have hrepeats : ¬ f.Distinct := by
        rw [← Function.firstRepeated_eq_none_iff, hrepeated]
        simp
      simp [hrepeats]

/-- **What is refused** has a name that is taken, which is reported first, or repeats a parameter,
of which the first is reported. -/
theorem register_eq_error_iff {c : Catalog} {f : Function} {e : CatalogError} :
    c.register f = .error e ↔
      (f.name ∈ c.names ∧ e = .duplicateFunction f.name) ∨
      (f.name ∉ c.names ∧ ∃ n, f.FirstRepeats n ∧ e = .duplicateParameter f.name n) := by
  unfold register
  split_ifs with htaken
  · simp [any_name_iff.mp htaken, eq_comm]
  · have hnew : f.name ∉ c.names := fun h => htaken (any_name_iff.mpr h)
    simp only [← Function.firstRepeated_eq_some_iff]
    cases Parameter.firstRepeated [] f.parameters with
    | none => simp [hnew]
    | some n => simp [hnew, eq_comm]

/-- Whether the registration of a function is accepted. -/
def accepts (c : Catalog) (f : Function) : Bool := (c.register f).isOk

theorem accepts_iff {c : Catalog} {f : Function} :
    c.accepts f = true ↔ f.name ∉ c.names ∧ f.Distinct := by
  rw [accepts]
  cases h : c.register f with
  | ok c' => simpa [Except.isOk, Except.toBool] using (register_eq_ok_iff.mp h).1
  | error e =>
    have hnone : ¬ (f.name ∉ c.names ∧ f.Distinct) := fun hok => by
      cases h.symm.trans (register_eq_ok_iff.mpr ⟨hok, rfl⟩)
    simpa [Except.isOk, Except.toBool] using hnone

/-- The catalog after a registration was tried. A refusal leaves it as it was. -/
def tried (c : Catalog) (f : Function) : Catalog :=
  match c.register f with
  | .ok c' => c'
  | .error _ => c

theorem tried_of_accepts {c : Catalog} {f : Function} (h : c.accepts f = true) :
    c.register f = .ok (c.tried f) ∧ c.tried f = ⟨c.functions ++ [f]⟩ := by
  have hok := register_eq_ok_iff.mpr ⟨accepts_iff.mp h, rfl⟩
  rw [tried, hok]
  exact ⟨rfl, rfl⟩

theorem tried_of_refuses {c : Catalog} {f : Function} (h : c.accepts f = false) :
    c.tried f = c := by
  rw [accepts] at h
  rw [tried]
  cases hregister : c.register f with
  | ok c' => rw [hregister] at h; cases h
  | error e => rfl

/-- No two functions share a name, and no function has two parameters of one name. -/
structure WellFormed (c : Catalog) : Prop where
  names : c.names.Nodup
  parameters : ∀ f ∈ c.functions, f.Distinct

theorem WellFormed.empty : empty.WellFormed := ⟨List.nodup_nil, by rintro f ⟨⟩⟩

/-- **A registration keeps names distinct**, whether or not it is accepted. -/
theorem WellFormed.tried {c : Catalog} (hc : c.WellFormed) (f : Function) :
    (c.tried f).WellFormed := by
  cases haccepts : c.accepts f with
  -- a refusal leaves the catalog as it is
  | false => rwa [tried_of_refuses haccepts]
  | true =>
    obtain ⟨hnew, hdistinct⟩ := accepts_iff.mp haccepts
    rw [(tried_of_accepts haccepts).2]
    constructor
    · -- the new name is put behind distinct ones
      show ((c.functions ++ [f]).map Function.name).Nodup
      rw [List.map_append, List.map_singleton]
      exact List.nodup_append.mpr ⟨hc.names, List.nodup_singleton _, by
        rintro _ hname _ h rfl
        exact hnew (List.mem_singleton.mp h ▸ hname)⟩
    · intro g hg
      rcases List.mem_append.mp hg with hg | hg
      · exact hc.parameters g hg
      · exact List.mem_singleton.mp hg ▸ hdistinct

/-! ### Lookup -/

/-- A lookup finds the function of a name, which is the only one. -/
theorem WellFormed.lookup_eq_ok_iff {c : Catalog} (hc : c.WellFormed) {name : String}
    {f : Function} : c.lookup name = .ok f ↔ f ∈ c.functions ∧ f.name = name := by
  -- the error of a lookup is out of question, and the search is left
  have hfind : c.lookup name = .ok f ↔ c.find? name = some f := by
    rw [lookup]
    cases c.find? name <;> simp
  rw [hfind, find?]
  constructor
  · intro h
    exact ⟨List.mem_of_find?_eq_some h, by simpa using List.find?_some h⟩
  · -- two functions of one name are the same
    rintro ⟨hf, rfl⟩
    cases hg : c.functions.find? fun g => g.name == f.name with
    | none => simpa using List.find?_eq_none.mp hg f hf
    | some g =>
      have hname : g.name = f.name := by simpa using List.find?_some hg
      rw [List.inj_on_of_nodup_map hc.names (List.mem_of_find?_eq_some hg) hf hname]

/-- A lookup fails where no function has the name, and says so. -/
theorem lookup_eq_error_iff {c : Catalog} {name : String} {e : CatalogError} :
    c.lookup name = .error e ↔ name ∉ c.names ∧ e = .functionNotFound name := by
  have hfind : name ∉ c.names ↔ c.find? name = none := by
    simp [find?, names]
  rw [hfind, lookup]
  cases c.find? name <;> simp [eq_comm]

/-! ### Histories -/

/-- The catalog after registrations were tried one after another. -/
def triedAll (c : Catalog) (calls : List Function) : Catalog := calls.foldl tried c

/-- The catalog after a history of registrations. -/
def history (calls : List Function) : Catalog := empty.triedAll calls

/-- The functions of a history whose own registration was accepted, in the order of the calls. -/
def accepted (calls : List Function) : List Function :=
  (calls.zipIdx.filter fun (f, k) => (history (calls.take k)).accepts f).map Prod.fst

@[simp]
theorem history_append_singleton (calls : List Function) (f : Function) :
    history (calls ++ [f]) = (history calls).tried f := by
  simp [history, triedAll]

/-- The last registration is accepted or refused by what the others have made. -/
theorem accepted_append_singleton (calls : List Function) (f : Function) :
    accepted (calls ++ [f])
      = accepted calls ++ if (history calls).accepts f then [f] else [] := by
  have hearlier : ∀ x ∈ calls.zipIdx, (history ((calls ++ [f]).take x.2)).accepts x.1
      = (history (calls.take x.2)).accepts x.1 := by
    rintro ⟨g, k⟩ hx
    have hk : k < calls.length := (List.mem_zipIdx' hx).1
    rw [List.take_append_of_le_length (Nat.le_of_lt hk)]
  have hlast : (calls ++ [f]).take calls.length = calls := List.take_left' rfl
  -- The earlier places see the same calls in front of them, and the last place sees all of these.
  rw [accepted, List.zipIdx_append, List.filter_append, List.map_append,
    List.filter_congr hearlier, ← accepted]
  congr 1
  simp only [List.zipIdx_singleton, Nat.zero_add, List.filter_cons, hlast, List.filter_nil]
  split_ifs <;> rfl

theorem wellFormed_history (calls : List Function) : (history calls).WellFormed := by
  induction calls using List.reverseRecOn with
  | nil => exact .empty
  | append_singleton calls f ih =>
    rw [history_append_singleton]
    exact ih.tried f

/-- **The functions of a catalog are the accepted ones**, in the order of their registration. -/
theorem functions_history (calls : List Function) :
    (history calls).functions = accepted calls := by
  induction calls using List.reverseRecOn with
  | nil => rfl
  | append_singleton calls f ih =>
    rw [history_append_singleton, accepted_append_singleton, ← ih]
    cases haccepts : (history calls).accepts f with
    | false => simp [tried_of_refuses haccepts]
    | true => simp [(tried_of_accepts haccepts).2]

/-- Registering functions until the first refusal is trying them all, if none is refused. -/
theorem registerAll_eq_ok_iff {c c' : Catalog} {fs : List Function} :
    c.registerAll fs = .ok c' ↔
      (∀ k (hk : k < fs.length), (c.triedAll (fs.take k)).accepts fs[k] = true) ∧
        c' = c.triedAll fs := by
  induction fs generalizing c with
  | nil =>
    constructor
    · rintro ⟨⟩
      exact ⟨fun k hk => absurd hk (Nat.not_lt_zero k), rfl⟩
    · rintro ⟨-, rfl⟩
      rfl
  | cons f fs ih =>
    -- What is accepted at each place, told of the first place and of the rest.
    have hrest : (∀ k (hk : k < (f :: fs).length),
        (c.triedAll ((f :: fs).take k)).accepts (f :: fs)[k] = true) ↔
        c.accepts f = true ∧ ∀ k (hk : k < fs.length),
          ((c.tried f).triedAll (fs.take k)).accepts fs[k] = true := by
      constructor
      · intro h
        exact ⟨h 0 (Nat.succ_pos _), fun k hk => h (k + 1) (Nat.succ_lt_succ hk)⟩
      · rintro ⟨hfirst, hrest⟩ k hk
        cases k with
        | zero => exact hfirst
        | succ k => exact hrest k (Nat.lt_of_succ_lt_succ hk)
    rw [hrest, registerAll]
    cases haccepts : c.accepts f with
    | true =>
      rw [(tried_of_accepts haccepts).1]
      simpa [triedAll] using ih
    | false =>
      rw [accepts] at haccepts
      cases hregister : c.register f with
      | ok c' => rw [hregister] at haccepts; cases haccepts
      | error e => simp

/-- **What a catalog is after any history of registrations.** Its functions are the accepted ones,
in the order of the calls; they have distinct names and each of them has distinct parameters. A name
is looked up to the one function that was accepted under it. The next registration is refused
exactly if its name was accepted before or it repeats a parameter, and then the catalog stays as it
is, so that the name is still free. The catalog of a list of functions is made exactly if no
registration of the list is refused. -/
theorem history_records (calls : List Function) :
    let c := history calls
    let taken := (accepted calls).map Function.name
    (taken.Nodup ∧ ∀ f ∈ accepted calls, (f.parameters.map Parameter.name).Nodup) ∧
    c.functions = accepted calls ∧
    (∀ name,
      (∀ f, c.lookup name = .ok f ↔ f ∈ accepted calls ∧ f.name = name) ∧
      (∀ e, c.lookup name = .error e ↔ name ∉ taken ∧ e = .functionNotFound name)) ∧
    (∀ f,
      (c.accepts f = false ↔ f.name ∈ taken ∨ ¬ (f.parameters.map Parameter.name).Nodup) ∧
      (∀ e, c.register f = .error e →
        (f.name ∈ taken ∧ e = .duplicateFunction f.name ∨
          f.name ∉ taken ∧ ∃ n, f.FirstRepeats n ∧ e = .duplicateParameter f.name n) ∧
        history (calls ++ [f]) = c ∧ accepted (calls ++ [f]) = accepted calls) ∧
      (∀ c', c.register f = .ok c' →
        c' = history (calls ++ [f]) ∧ accepted (calls ++ [f]) = accepted calls ++ [f])) ∧
    ∀ c', ofFunctions calls = .ok c' ↔
      (∀ k (hk : k < calls.length), (history (calls.take k)).accepts calls[k] = true) ∧ c' = c := by
  intro c taken
  -- the invariant of every history: distinct names, and the accepted functions
  have hfunctions : c.functions = accepted calls := functions_history calls
  have hnames : c.names = taken := congrArg (List.map Function.name) hfunctions
  have hc : c.WellFormed := wellFormed_history calls
  refine ⟨⟨hnames ▸ hc.names, fun f hf => hc.parameters f (hfunctions ▸ hf)⟩, hfunctions,
    fun name => ⟨fun f => ?_, fun e => ?_⟩, fun f => ⟨?_, fun e he => ?_, fun c' hc' => ?_⟩,
    fun c' => registerAll_eq_ok_iff⟩
  · -- lookups
    rw [hc.lookup_eq_ok_iff, hfunctions]
  · rw [lookup_eq_error_iff, hnames]
  · -- the next registration
    rw [← Bool.not_eq_true, accepts_iff, hnames, not_and_or, not_not]
    rfl
  · -- it is refused, and nothing has changed
    have hrefuses : c.accepts f = false := by rw [accepts, he]; rfl
    refine ⟨hnames ▸ register_eq_error_iff.mp he, ?_, ?_⟩
    · rw [history_append_singleton, tried_of_refuses hrefuses]
    · rw [accepted_append_singleton, show (history calls).accepts f = false from hrefuses]
      exact List.append_nil _
  · -- it is accepted and put behind the others
    have haccepts : c.accepts f = true := by rw [accepts, hc']; rfl
    constructor
    · rw [history_append_singleton]
      exact Except.ok.inj (hc'.symm.trans (tried_of_accepts haccepts).1)
    · rw [accepted_append_singleton, show (history calls).accepts f = true from haccepts]
      rfl

end Catalog

/-- A function of integers. -/
def Function.ofIntegers (name : String) (parameters : List String) : Function :=
  ⟨name, none, parameters.map fun p => ⟨p, .int, none⟩⟩

/-- `g` is refused while it repeats a parameter, and accepted afterwards. `f` is not accepted
again. -/
theorem Catalog.history_records_refusals :
    let calls := [.ofIntegers "f" ["a"], .ofIntegers "g" ["a", "a"], .ofIntegers "f" [],
      .ofIntegers "g" ["a"]]
    (accepted calls).map (fun f => (f.name, f.arity)) = [("f", 1), ("g", 1)] ∧
    (history calls).functions = accepted calls ∧
    (history calls).register (.ofIntegers "g" []) = .error (.duplicateFunction "g") ∧
    history (calls ++ [.ofIntegers "g" []]) = history calls := by
  intro calls
  have hrefused : (history calls).register (.ofIntegers "g" []) = .error (.duplicateFunction "g") :=
    rfl
  obtain ⟨-, hfunctions, -, hnext, -⟩ := history_records calls
  exact ⟨by decide +kernel, hfunctions, hrefused, ((hnext _).2.1 _ hrefused).2.1⟩

end CatalogQuery
