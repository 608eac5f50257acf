import CatalogQuery.Parse
import CatalogQuery.Proofs.Draft.Narrow

/-!
# Growing catalogs and contexts

A `Scope` is what a source may name: the functions of a catalog and the contexts at hand. It grows
by additions. A function is registered, which may be refused, and a context is put behind the
others, also if its name is taken. An addition changes nothing of what names already stand for
(`Scope.add_within`), so a row of additions does not either (`Scope.grow_within`).

Reading in a larger scope is compared to reading in the smaller one step by step. Each step makes
the same result, unless it found in the smaller scope that a function or a context was missing: this
is `Unchanged` for steps that narrow and `Rounds.Unchanged` for tasks. A name that is missing is
noticed in the first round, so what stands beside it has no time to fail in another way
(`Rounds.Unchanged.zip`).

`parse_grow`: a source that is accepted, or refused for any other reason than a missing name, is
read alike after all additions.
-/

namespace CatalogQuery

open Grammar

/-! ### Missing names -/

/-- The error says that there is no function or no context of a name. -/
def QueryError.isMissing : QueryError → Bool
  | unknownFunction .. | contextNotFound .. => true
  | malformed .. | noStatement _ | severalStatements _ | notAnExpression _ | unsupported ..
  | wrongArity .. | invalidArgument _ | contextNotAllowed .. | invalidValue .. => false

def ParseError.isMissing : ParseError → Bool
  | .query e => e.isMissing
  | .similarity _ => false

/-- The source was refused because it names a function or a context that there is not. -/
def Parsed.misses {α : Type} (p : Parsed α) : Bool :=
  match p.result with
  | .ok _ => false
  | .error e => e.isMissing

/-! ### Scopes -/

/-- What a source may name. -/
structure Scope where
  catalog : Catalog
  contexts : List Context

/-- What may be added to a scope. -/
inductive Addition where
  | function (f : Function)
  | context (c : Context)

namespace Scope

/-- Registers a function, unless it is refused, or appends a context. -/
def add (s : Scope) : Addition → Scope
  | .function f =>
    match s.catalog.register f with
    | .ok catalog => { s with catalog }
    | .error _ => s
  | .context c => { s with contexts := s.contexts ++ [c] }

/-- Makes additions one after another. -/
def grow (s : Scope) (additions : List Addition) : Scope := additions.foldl add s

/-- Every name that stands for something in `s` stands for the same in `s'`. -/
structure Within (s s' : Scope) : Prop where
  functions : ∀ name f, s.catalog.find? name = some f → s'.catalog.find? name = some f
  contexts : ∀ name c, (s.contexts.find? fun c => c.name == name) = some c →
    (s'.contexts.find? fun c => c.name == name) = some c

namespace Within

theorem refl (s : Scope) : s.Within s := ⟨fun _ _ => id, fun _ _ => id⟩

theorem trans {s s' s'' : Scope} (h : s.Within s') (h' : s'.Within s'') : s.Within s'' :=
  ⟨fun name f hf => h'.functions name f (h.functions name f hf),
    fun name c hc => h'.contexts name c (h.contexts name c hc)⟩

/-- The first of a name is found before what is appended. -/
theorem of_append (s : Scope) (fs : List Function) (cs : List Context) :
    s.Within ⟨⟨s.catalog.functions ++ fs⟩, s.contexts ++ cs⟩ := by
  constructor
  · intro name f hf
    have hf : (s.catalog.functions.find? fun g => g.name == name) = some f := hf
    show (s.catalog.functions ++ fs).find? _ = some f
    rw [List.find?_append, hf, Option.some_or]
  · intro name c hc
    show (s.contexts ++ cs).find? _ = some c
    rw [List.find?_append, hc, Option.some_or]

end Within

/-- **An addition changes nothing of what names stand for.** -/
theorem add_within (s : Scope) (a : Addition) : s.Within (s.add a) := by
  cases a with
  | context c =>
    have h := Within.of_append s [] [c]
    rwa [List.append_nil] at h
  | function f =>
    unfold add Catalog.register
    dsimp only
    by_cases htaken : (s.catalog.functions.any fun g => g.name == f.name) = true
    · -- a registration that is rejected adds nothing
      rw [if_pos htaken]
      exact Within.refl s
    · rw [if_neg htaken]
      cases Parameter.firstRepeated [] f.parameters with
      | some p => exact Within.refl s
      | none =>
        have h := Within.of_append s [f] []
        rwa [List.append_nil] at h

/-- **Nor does a row of additions.** -/
theorem grow_within (s : Scope) (additions : List Addition) : s.Within (s.grow additions) := by
  induction additions generalizing s with
  | nil => exact Within.refl s
  | cons a additions ih => exact (s.add_within a).trans (ih (s.add a))

end Scope

/-! ### Steps that keep their result -/

section

variable {ε α β : Type} {missing : ε → Bool}

/-- The second outcome is the first one, unless the first is that something is missing. -/
def Unchanged (missing : ε → Bool) (x y : Except ε α) : Prop :=
  y = x ∨ ∃ e, x = .error e ∧ missing e = true

namespace Unchanged

theorem refl (x : Except ε α) : Unchanged missing x x := .inl rfl

theorem of_missing {e : ε} (he : missing e = true) (y : Except ε α) :
    Unchanged missing (.error e) y := .inr ⟨e, rfl, he⟩

theorem map {x y : Except ε α} (h : Unchanged missing x y) (f : α → β) :
    Unchanged missing (x.map f) (y.map f) := by
  rcases h with rfl | ⟨e, rfl, he⟩
  · exact .refl _
  · exact .of_missing he _

end Unchanged

end

namespace Rounds

variable {α β : Type}

/-- The second task is the first one, unless the first finds at once that something is missing. -/
def Unchanged (t t' : Rounds α) : Prop :=
  t' = t ∨ ∃ log e, t = .done log (.error e) ∧ e.isMissing = true

namespace Unchanged

theorem refl (t : Rounds α) : t.Unchanged t := .inl rfl

theorem of_missing {e : ParseError} (he : e.isMissing = true) (log : List Event)
    (t' : Rounds α) : (Rounds.done log (.error e)).Unchanged t' := .inr ⟨log, e, rfl, he⟩

theorem ofExcept {x y : Except ParseError α} (h : CatalogQuery.Unchanged ParseError.isMissing x y) :
    (Rounds.ofExcept x).Unchanged (Rounds.ofExcept y) := by
  rcases h with rfl | ⟨e, rfl, he⟩
  · exact .refl _
  · exact .of_missing he [] _

theorem check {t t' : Rounds α} (h : t.Unchanged t') (f : α → Except ParseError β) :
    (t.check f).Unchanged (t'.check f) := by
  rcases h with rfl | ⟨log, e, rfl, he⟩
  · exact .refl _
  · exact .of_missing he log _

theorem map {t t' : Rounds α} (h : t.Unchanged t') (f : α → β) :
    (t.map f).Unchanged (t'.map f) := h.check _

/-- **Tasks side by side.** What is missing on the right is found in the first round, in which the
left task can only be at work, be done, or have failed before. -/
theorem zip {s s' : Rounds α} {t t' : Rounds β} (hs : s.Unchanged s') (ht : t.Unchanged t') :
    (s.zip t).Unchanged (s'.zip t') := by
  rcases hs with rfl | ⟨log, e, rfl, he⟩
  · rcases ht with rfl | ⟨log, e, rfl, he⟩
    · exact .refl _
    · -- only a left task that failed before hides the error, and then both have failed alike
      cases s' with
      | wait log' next => exact .of_missing he _ _
      | done log' x =>
        cases x with
        | ok a => exact .of_missing he _ _
        | error e' => exact .refl _
  · exact .of_missing he log _

theorem all_cons {t t' : Rounds α} {ts ts' : List (Rounds α)} (ht : t.Unchanged t')
    (hts : (all ts).Unchanged (all ts')) : (all (t :: ts)).Unchanged (all (t' :: ts')) :=
  (ht.zip hts).map _

end Unchanged

end Rounds

/-! ### Narrowing in a larger scope -/

namespace Draft

variable {s s' : Scope} {source normal : List Char}

/-- A call is narrowed alike, unless its function is missing. -/
theorem callOf_unchanged (h : s.Within s') (around : Surroundings) (t : ParseTree) :
    Unchanged QueryError.isMissing (callOf ⟨source, normal, s.catalog⟩ around t)
      (callOf ⟨source, normal, s'.catalog⟩ around t) := by
  have hargs : argument ⟨source, normal, s'.catalog⟩ = argument ⟨source, normal, s.catalog⟩ :=
    funext fun t => argument_catalog source normal s'.catalog s.catalog t
  unfold callOf
  split
  · rename_i callee args _
    by_cases hrules : callee.rule = .ident ∧ args.rule = .call
    · rw [if_pos hrules, if_pos hrules]
      dsimp only
      cases hf : s.catalog.find? (String.ofList callee.text) with
      | none => exact .of_missing rfl _
      | some f =>
        -- what was found is found again
        rw [h.functions _ f hf, hargs]
        exact .refl _
    · rw [if_neg hrules, if_neg hrules]
      exact .refl _
  · exact .refl _

mutual

/-- **A condition is narrowed alike**, unless a function is missing. -/
theorem ofTree_unchanged (h : s.Within s') : ∀ (around : Surroundings) (t : ParseTree),
    Unchanged QueryError.isMissing (ofTree ⟨source, normal, s.catalog⟩ around t)
      (ofTree ⟨source, normal, s'.catalog⟩ around t)
  | around, .node rule b e text ts => by
    unfold ofTree
    split
    · rename_i child heq
      cases heq
      split_ifs
      · exact ofTree_unchanged h around child
      · exact .refl _
    · rename_i operand heq
      cases heq
      -- by the operands; only calls look at the catalog
      exact (ofTree_unchanged h .negation operand).map _
    · rename_i heq
      cases heq
      split_ifs
      · exact (operands_unchanged h .conjunction ts).map _
      · exact (operands_unchanged h .negation ts).map _
      · exact (callOf_unchanged h around _).map _
      · exact .refl _

theorem operands_unchanged (h : s.Within s') : ∀ (rule : Rule) (ts : List ParseTree),
    Unchanged QueryError.isMissing (operands ⟨source, normal, s.catalog⟩ rule ts)
      (operands ⟨source, normal, s'.catalog⟩ rule ts)
  | _, [] => .refl _
  | rule, t :: rest => by
    rw [operands, operands]
    by_cases hrule : t.rule = rule
    · rw [if_pos hrule, if_pos hrule]
      -- a first operand that misses a function ends the chain before the others are looked at
      rcases ofTree_unchanged h .chain t with ht | ⟨e, ht, he⟩
      · rw [ht]
        cases ofTree ⟨source, normal, s.catalog⟩ .chain t with
        | error e => exact .refl _
        | ok d => exact (operands_unchanged h rule rest).map _
      · rw [ht]
        exact .of_missing he _
    · rw [if_neg hrule, if_neg hrule]
      exact operands_unchanged h rule rest

end

theorem aggregationOfTree_unchanged (h : s.Within s') (t : ParseTree) :
    Unchanged QueryError.isMissing (aggregationOfTree ⟨source, normal, s.catalog⟩ t)
      (aggregationOfTree ⟨source, normal, s'.catalog⟩ t) := by
  cases t with
  | node rule b e text ts =>
    unfold aggregationOfTree
    split
    · rename_i child heq
      cases heq
      split_ifs
      · exact aggregationOfTree_unchanged h child
      · exact .refl _
    · rename_i heq
      cases heq
      dsimp only
      split_ifs
      · exact callOf_unchanged h .topLevel _
      · exact .refl _
      · exact .refl _

end Draft

/-- The draft of a source is the same, unless a function is missing. -/
theorem Source.draft_unchanged {δ : Type} {narrow : Reading → ParseTree → Except QueryError δ}
    {s s' : Scope}
    (h : ∀ source normal t, Unchanged QueryError.isMissing (narrow ⟨source, normal, s.catalog⟩ t)
      (narrow ⟨source, normal, s'.catalog⟩ t)) (source : String) :
    Unchanged QueryError.isMissing (Source.draft narrow source s.catalog)
      (Source.draft narrow source s'.catalog) := by
  unfold Source.draft
  dsimp only
  split
  · exact h _ _ _
  · exact .refl _

/-! ### Resolving in a larger scope -/

namespace Resolve

variable {s s' : Scope}

theorem context_unchanged (h : s.Within s') (p : Parameter) (name : String) (piece : Snippet) :
    Unchanged ParseError.isMissing (context s.contexts p name piece)
      (context s'.contexts p name piece) := by
  unfold context
  by_cases hempty : p.contextTypes.isEmpty = true
  · rw [if_pos hempty, if_pos hempty]
    exact .refl _
  · rw [if_neg hempty, if_neg hempty]
    cases hc : s.contexts.find? fun c => c.name == name with
    | none => exact .of_missing rfl _
    | some c =>
      -- the context is found again, and accepted or not as before
      rw [h.contexts name c hc]
      exact .refl _

mutual

theorem value_unchanged (h : s.Within s') (p : Parameter) :
    ∀ a : RawArg, (value s.contexts p a).Unchanged (value s'.contexts p a)
  | .literal _ _ => .refl _
  | .list items _ => (values_unchanged h p items).map _
  | .name name piece => by
    rw [value, value]
    exact .ofExcept (context_unchanged h p name piece)
  | .unsupported _ => .refl _

theorem values_unchanged (h : s.Within s') (p : Parameter) : ∀ items : List RawArg,
    (Rounds.all (values s.contexts p items)).Unchanged (Rounds.all (values s'.contexts p items))
  | [] => .refl _
  | a :: rest => (value_unchanged h p a).all_cons (values_unchanged h p rest)

end

theorem arguments_unchanged (h : s.Within s') (ps : List Parameter) (as : List RawArg) :
    (Rounds.all (List.zipWith (argument s.contexts) ps as)).Unchanged
      (Rounds.all (List.zipWith (argument s'.contexts) ps as)) := by
  induction ps generalizing as with
  | nil => exact .refl _
  | cons p ps ih =>
    cases as with
    | nil => exact .refl _
    | cons a as => exact ((value_unchanged h p a).check _).all_cons (ih as)

theorem call_unchanged (h : s.Within s') (c : DraftCall) :
    (call s.contexts c).Unchanged (call s'.contexts c) := (arguments_unchanged h _ _).map _

mutual

/-- **A condition is resolved alike**, unless a context is missing. -/
theorem condition_unchanged (h : s.Within s') :
    ∀ d : Draft, (condition s.contexts d).Unchanged (condition s'.contexts d)
  | .all ds => (conditions_unchanged h ds).map _
  | .any ds => (conditions_unchanged h ds).map _
  | .not d => (condition_unchanged h d).map _
  | .call c => (call_unchanged h c).map _

theorem conditions_unchanged (h : s.Within s') : ∀ ds : List Draft,
    (Rounds.all (conditions s.contexts ds)).Unchanged (Rounds.all (conditions s'.contexts ds))
  | [] => .refl _
  | d :: rest => (condition_unchanged h d).all_cons (conditions_unchanged h rest)

end

end Resolve

/-! ### Sources -/

/-- A draft that is kept and whose resolution is kept makes the same outcome, unless something is
missing. -/
theorem Parsed.ofDraft_unchanged {δ α : Type} {resolve resolve' : δ → Rounds α} {event : α → Event}
    {source : String} {x y : Except QueryError δ} (hdraft : Unchanged QueryError.isMissing x y)
    (hresolve : ∀ d, (resolve d).Unchanged (resolve' d))
    (h : (Parsed.ofDraft resolve event source x).misses = false) :
    Parsed.ofDraft resolve' event source y = Parsed.ofDraft resolve event source x := by
  rcases hdraft with rfl | ⟨e, rfl, he⟩
  · cases y with
    | error e => rfl
    | ok d =>
      unfold Parsed.ofDraft
      dsimp only
      rcases hresolve d with hd | ⟨log, e, hd, he⟩
      · rw [hd]
      · -- the task finds at once that something is missing, which `h` excludes
        have hmiss : (Parsed.ofDraft resolve event source (.ok d)).misses = e.isMissing := by
          unfold Parsed.ofDraft
          dsimp only
          rw [hd]
          rfl
        exact absurd he (Bool.eq_false_iff.mp (hmiss.symm.trans h))
  · exact absurd he (Bool.eq_false_iff.mp h)

/-- **Additions do not change a settled outcome.** A source that is accepted, or that is refused but
not for a missing function or context, is read with the same outcome in both modes after any row of
additions: the same tree or the same error, and the same events on the way. -/
theorem parse_grow (source : String) (s : Scope) (additions : List Addition) :
    ((parseFilter source s.catalog s.contexts).misses = false →
      parseFilter source (s.grow additions).catalog (s.grow additions).contexts
        = parseFilter source s.catalog s.contexts) ∧
    ((parseAggregation source s.catalog s.contexts).misses = false →
      parseAggregation source (s.grow additions).catalog (s.grow additions).contexts
        = parseAggregation source s.catalog s.contexts) := by
  -- any row of additions, by one after another
  have hwithin := s.grow_within additions
  constructor
  · apply Parsed.ofDraft_unchanged
    · exact Source.draft_unchanged (fun _ _ => Draft.ofTree_unchanged hwithin .topLevel) source
    · exact Resolve.condition_unchanged hwithin
  · apply Parsed.ofDraft_unchanged
    · exact Source.draft_unchanged (fun _ _ => Draft.aggregationOfTree_unchanged hwithin) source
    · exact Resolve.call_unchanged hwithin

/-- A function of cities and integers, and a city. -/
def Scope.home : Scope where
  catalog := ⟨[⟨"f", none, [⟨"where", .context "City", none⟩, ⟨"n", .int, none⟩]⟩]⟩
  contexts := [⟨"home", "City", .null⟩]

/-- A function whose name is taken, one that has two parameters of one name, a function that is
registered, a context of a name that is taken and one of a new name. -/
def Addition.several : List Addition :=
  [.function ⟨"f", none, []⟩, .function ⟨"g", none, [⟨"a", .int, none⟩, ⟨"a", .str, none⟩]⟩,
    .function ⟨"g", none, []⟩, .context ⟨"home", "Street", .bool true⟩,
    .context ⟨"work", "City", .null⟩]

/-- An accepted source, and one with a value of the wrong type. -/
theorem parse_grow_home :
    ((parseFilter "not f(home, 1)" Scope.home.catalog Scope.home.contexts).misses = false ∧
      parseFilter "not f(home, 1)" (Scope.home.grow Addition.several).catalog
          (Scope.home.grow Addition.several).contexts
        = parseFilter "not f(home, 1)" Scope.home.catalog Scope.home.contexts) ∧
    ((parseAggregation "f(home, 'a')" Scope.home.catalog Scope.home.contexts).misses = false ∧
      parseAggregation "f(home, 'a')" (Scope.home.grow Addition.several).catalog
          (Scope.home.grow Addition.several).contexts
        = parseAggregation "f(home, 'a')" Scope.home.catalog Scope.home.contexts) := by
  have hf : (parseFilter "not f(home, 1)" Scope.home.catalog Scope.home.contexts).misses = false :=
    by decide +kernel
  have ha : (parseAggregation "f(home, 'a')" Scope.home.catalog Scope.home.contexts).misses
      = false := by decide +kernel
  exact ⟨⟨hf, (parse_grow "not f(home, 1)" Scope.home Addition.several).1 hf⟩,
    ⟨ha, (parse_grow "f(home, 'a')" Scope.home Addition.several).2 ha⟩⟩

/-- Missing names may be added. -/
example :
    (parseFilter "g() and f(work, 1)" Scope.home.catalog Scope.home.contexts).misses = true ∧
      (parseFilter "g() and f(work, 1)" (Scope.home.grow Addition.several).catalog
        (Scope.home.grow Addition.several).contexts).result.toOption.isSome = true := by
  decide +kernel

end CatalogQuery
