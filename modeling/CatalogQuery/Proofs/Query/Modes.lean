import CatalogQuery.Proofs.Query.Accepted
import CatalogQuery.Proofs.Query.Lookups

/-!
# The two modes agree

A source is read as a filter or as an aggregation. `ParseTree.core` is what a statement consists of
once the layers and parentheses around it are removed; both modes look at the core only
(`ofTree_core`, `aggregationOfTree_core`), and they differ where it is an `or`, an `and` or a `not`.

`modes_agree`: a call is read as an aggregation exactly if it is read as a filter. A combination of
calls is refused as an aggregation before anything is looked up, and from every other source both
modes make the same result, with the same lookups.
-/

namespace CatalogQuery

open Grammar

/-! ### Cores -/

namespace Grammar.ParseTree

/-- What a node consists of, without the layers and parentheses around it. -/
def core : ParseTree → ParseTree
  | .node rule b e text [child] =>
    if Draft.isLayer rule then child.core else .node rule b e text [child]
  | t => t

/-- An `or`, an `and` or a `not`. -/
def Combines (t : ParseTree) : Prop :=
  t.rule = .disjunction ∨ t.rule = .conjunction ∨ t.rule = .negation

instance (t : ParseTree) : Decidable t.Combines := inferInstanceAs (Decidable (_ ∨ _ ∨ _))

/-- The node is no layer around a single part. -/
def IsCore (t : ParseTree) : Prop := t.children.length = 1 → Draft.isLayer t.rule = false

theorem core_isCore : ∀ t : ParseTree, t.core.IsCore
  | .node rule b e text [] => fun h => by cases h
  | .node rule b e text [child] => by
    rw [core]
    by_cases hrule : Draft.isLayer rule = true
    · rw [if_pos hrule]
      exact core_isCore child
    · rw [if_neg hrule]
      exact fun _ => Bool.eq_false_iff.mpr hrule
  | .node rule b e text (t :: u :: ts) => fun h => absurd h (by simp [core, children])

theorem Grown.core : ∀ {t : ParseTree}, t.Grown → t.core.Grown
  | .node rule b e text [], h => h
  | .node rule b e text [child], h => by
    rw [ParseTree.core]
    by_cases hrule : Draft.isLayer rule = true
    · rw [if_pos hrule]
      exact Grown.core (h.branches.grown child (List.mem_singleton_self child))
    · rw [if_neg hrule]
      exact h
  | .node rule b e text (t :: u :: ts), h => h

/-- A combination that is no layer has several parts. -/
theorem Combines.length_ne_one {t : ParseTree} (h : t.Combines) (ht : t.IsCore) :
    t.children.length ≠ 1 := by
  intro hlen
  have hlayer := ht hlen
  rcases h with h | h | h <;> rw [h] at hlayer <;> cases hlayer

end Grammar.ParseTree

namespace Draft

open ParseTree

variable {r : Reading} {around : Surroundings}

/-- **Narrowing looks through layers and parentheses.** -/
theorem ofTree_core (r : Reading) (around : Surroundings) :
    ∀ t : ParseTree, ofTree r around t.core = ofTree r around t
  | .node rule b e text [] => rfl
  | .node rule b e text [child] => by
    rw [core]
    by_cases hrule : isLayer rule = true
    · rw [if_pos hrule, ofTree_layer hrule]
      exact ofTree_core r around child
    · rw [if_neg hrule]
  | .node rule b e text (t :: u :: ts) => rfl

theorem aggregationOfTree_core (r : Reading) :
    ∀ t : ParseTree, aggregationOfTree r t.core = aggregationOfTree r t
  | .node rule b e text [] => rfl
  | .node rule b e text [child] => by
    rw [core]
    by_cases hrule : isLayer rule = true
    · rw [if_pos hrule, aggregationOfTree_layer hrule]
      exact aggregationOfTree_core r child
    · rw [if_neg hrule]
  | .node rule b e text (t :: u :: ts) => rfl

/-- A combination is refused as an aggregation, whatever its operands are. -/
theorem aggregationOfTree_of_combines {t : ParseTree} (ht : t.IsCore) (h : t.Combines) :
    aggregationOfTree r t = .error (refuse r .aggregation t) := by
  have hmany := h.length_ne_one ht
  obtain ⟨rule, b, e, text, ts⟩ := t
  have hrule : rule ≠ .primary := by
    rintro rfl
    rcases h with h | h | h <;> cases h
  have hmany : ts.length ≠ 1 := hmany
  have h : rule = .disjunction ∨ rule = .conjunction ∨ rule = .negation := h
  rw [aggregationOfTree_several hmany, if_neg hrule, if_pos h]

/-- What is no combination is narrowed alike in both modes. -/
theorem ofTree_eq_aggregationOfTree {t : ParseTree} (ht : t.IsCore) (h : ¬ t.Combines) :
    ofTree r .topLevel t = (aggregationOfTree r t).map .call := by
  obtain ⟨rule, b, e, text, ts⟩ := t
  have h : ¬ (rule = .disjunction ∨ rule = .conjunction ∨ rule = .negation) := h
  obtain ⟨hor, hand, hnot⟩ : rule ≠ .disjunction ∧ rule ≠ .conjunction ∧ rule ≠ .negation := by
    simpa only [not_or] using h
  by_cases hlen : ts.length = 1
  · -- a single part that is not looked through is refused by both
    obtain ⟨child, rfl⟩ := List.length_eq_one_iff.mp hlen
    have hlayer : isLayer rule = false := ht rfl
    rw [ofTree, aggregationOfTree, hlayer]
    rfl
  · rw [ofTree_several hlen hnot, aggregationOfTree_several hlen, if_neg hor, if_neg hand, if_neg h]
    by_cases hprimary : rule = .primary
    · rw [if_pos hprimary, if_pos hprimary]
    · rw [if_neg hprimary, if_neg hprimary]
      rfl

/-- A combination is not narrowed to a call. -/
theorem ofTree_ne_call {t : ParseTree} (hgrown : t.Grown) (ht : t.IsCore) (h : t.Combines)
    (c : DraftCall) : ofTree r around t ≠ .ok (.call c) := by
  intro hcall
  have hmany := h.length_ne_one ht
  obtain ⟨rule, b, e, text, ts⟩ := t
  cases ofTree_cases hgrown.branches hcall with
  | layer hts => exact hmany (by rw [hts]; rfl)
  | call hrule =>
    subst hrule
    rcases h with h | h | h <;> cases h

end Draft

/-! ### Calls in both modes -/

theorem Rounds.run_map {α β : Type} (f : α → β) (t : Rounds α) :
    (t.map f).run = (t.run.1, t.run.2.map f) := by
  induction t with
  | done log x => cases x <;> rfl
  | wait log next ih =>
    show (log ++ (next.map f).run.1, (next.map f).run.2) = _
    rw [ih]
    rfl

/-- **The draft of a call is resolved alike in both modes**, and so is a refusal. -/
theorem Parsed.ofDraft_call (contexts : List Context) (source : String)
    (x : Except QueryError DraftCall) {event : Condition → Event} {event' : Call → Event}
    (hevent : ∀ root, (event root).lookup? = none)
    (hevent' : ∀ root, (event' root).lookup? = none) :
    (Parsed.ofDraft (Resolve.condition contexts) event source (x.map Draft.call)).result.map
          Query.root
        = ((Parsed.ofDraft (Resolve.call contexts) event' source x).result.map
          fun q => Condition.call q.root) ∧
      (Parsed.ofDraft (Resolve.condition contexts) event source (x.map Draft.call)).lookups
        = (Parsed.ofDraft (Resolve.call contexts) event' source x).lookups := by
  cases x with
  | error e => exact ⟨rfl, rfl⟩
  | ok c =>
    -- a condition that is a call is resolved as the call
    have hrun : (Resolve.condition contexts (.call c)).run
        = ((Resolve.call contexts c).run.1, (Resolve.call contexts c).run.2.map .call) := by
      rw [Resolve.condition, Rounds.run_map]
    rw [Except.map]
    unfold Parsed.ofDraft Parsed.lookups
    dsimp only
    rw [hrun]
    cases (Resolve.call contexts c).run with
    | mk log result =>
      cases result with
      | error e => exact ⟨rfl, rfl⟩
      | ok root =>
        refine ⟨rfl, ?_⟩
        show Event.lookups (log ++ [event (.call root)]) = Event.lookups (log ++ [event' root])
        rw [Event.lookups_append, Event.lookups_append]
        simp [Event.lookups, hevent, hevent']

/-! ### Sources -/

/-- The `or`, the `and` or the `not` that a source consists of, if it is one, without the layers and
parentheses around it. -/
def Source.combination? (source : String) : Option ParseTree :=
  match Source.statement source (normalizeChars source.toList) with
  | .ok t => if t.core.Combines then some t.core else none
  | .error _ => none

theorem Source.combination?_of_statement {source : String} {s : ParseTree}
    (h : Source.statement source (normalizeChars source.toList) = .ok s) :
    Source.combination? source = if s.core.Combines then some s.core else none := by
  unfold Source.combination?
  split
  · rename_i t ht
    cases h.symm.trans ht
    rfl
  · rename_i e he
    cases h.symm.trans he

theorem Source.combination?_eq_some {source : String} {t : ParseTree}
    (h : Source.combination? source = some t) :
    ∃ s, Source.statement source (normalizeChars source.toList) = .ok s ∧ s.core = t ∧
      t.Combines := by
  unfold Source.combination? at h
  split at h
  · rename_i s hs
    split_ifs at h with hcombines
    cases h
    exact ⟨s, hs, rfl, hcombines⟩
  · cases h

/-- A call is resolved from the draft of a call only. -/
theorem Resolve.conditionInOrder_eq_call {contexts : List Context} {d : Draft} {c : Call}
    (h : conditionInOrder contexts d = .ok (.call c)) : ∃ e, d = .call e := by
  cases d with
  | call e => exact ⟨e, rfl⟩
  | all | any | not =>
    obtain ⟨_, -, heq⟩ := map_eq_ok h
    cases heq

/-- A combination is refused as an aggregation, and nothing is noted. -/
theorem parseAggregation_of_combination {source : String} {t : ParseTree}
    (h : Source.combination? source = some t) (catalog : Catalog) (contexts : List Context) :
    parseAggregation source catalog contexts =
      ⟨[], .error (.query (.unsupported (Draft.construct t) .aggregation
        (.of source.toList (Source.normalizeChars source.toList) t.start t.stop)))⟩ := by
  obtain ⟨s, hs, rfl, hcombines⟩ := Source.combination?_eq_some h
  unfold parseAggregation Source.draft
  dsimp only
  rw [hs]
  dsimp only
  rw [← Draft.aggregationOfTree_core, Draft.aggregationOfTree_of_combines s.core_isCore hcombines]
  rfl

/-- A combination is not read as a call. -/
theorem parseFilter_ne_call {source : String} {t : ParseTree}
    (h : Source.combination? source = some t) {catalog : Catalog} {contexts : List Context}
    {q : Query Condition} (hq : (parseFilter source catalog contexts).result = .ok q) (c : Call) :
    q.root ≠ .call c := by
  intro hroot
  obtain ⟨s, hs, rfl, hcombines⟩ := Source.combination?_eq_some h
  obtain ⟨s', d, hs', hd, hresolved, -⟩ := parseFilter_eq_ok_iff.mp hq
  cases hs.symm.trans hs'
  obtain ⟨-, -, hgrown, -⟩ := Source.statement_atoms hs
  rw [hroot] at hresolved
  obtain ⟨e, rfl⟩ := Resolve.conditionInOrder_eq_call hresolved
  rw [← Draft.ofTree_core] at hd
  exact Draft.ofTree_ne_call hgrown.core s.core_isCore hcombines e hd

/-- What is no combination is narrowed alike in both modes. -/
theorem Source.draft_of_no_combination {source : String}
    (h : Source.combination? source = none) (catalog : Catalog) :
    Source.draft (fun r => Draft.ofTree r .topLevel) source catalog
      = (Source.draft Draft.aggregationOfTree source catalog).map .call := by
  unfold Source.draft
  dsimp only
  cases hs : Source.statement source (normalizeChars source.toList) with
  | error e => rfl
  | ok s =>
    rw [Source.combination?_of_statement hs] at h
    have hcombines : ¬ s.core.Combines := by
      intro hcombines
      rw [if_pos hcombines] at h
      cases h
    show Draft.ofTree _ .topLevel s = (Draft.aggregationOfTree _ s).map .call
    -- below its layers the statement is a call, or refused in both modes
    rw [← Draft.ofTree_core, ← Draft.aggregationOfTree_core]
    exact Draft.ofTree_eq_aggregationOfTree s.core_isCore hcombines

/-- **The two modes agree.** A call is read as an aggregation exactly if it is read as a filter. A
source that is an `or`, an `and` or a `not` is refused as an aggregation, and nothing is looked up.
From every other source both modes make the same query or the same error, with the same lookups. -/
theorem modes_agree (source : String) (catalog : Catalog) (contexts : List Context) :
    (∀ c, (parseAggregation source catalog contexts).result.map Query.root = .ok c ↔
      (parseFilter source catalog contexts).result.map Query.root = .ok (.call c)) ∧
    (∀ t, Source.combination? source = some t →
      parseAggregation source catalog contexts =
        ⟨[], .error (.query (.unsupported (Draft.construct t) .aggregation
          (.of source.toList (Source.normalizeChars source.toList) t.start t.stop)))⟩) ∧
    (Source.combination? source = none →
      (parseFilter source catalog contexts).result.map Query.root
          = ((parseAggregation source catalog contexts).result.map
            fun q => Condition.call q.root) ∧
        (parseFilter source catalog contexts).lookups
          = (parseAggregation source catalog contexts).lookups) := by
  -- the modes differ at combinations only
  have hsame : Source.combination? source = none →
      (parseFilter source catalog contexts).result.map Query.root
          = ((parseAggregation source catalog contexts).result.map
            fun q => Condition.call q.root) ∧
        (parseFilter source catalog contexts).lookups
          = (parseAggregation source catalog contexts).lookups := by
    intro h
    unfold parseFilter parseAggregation
    rw [Source.draft_of_no_combination h]
    exact Parsed.ofDraft_call contexts source _ (fun _ => rfl) (fun _ => rfl)
  refine ⟨fun c => ?_, fun t ht => parseAggregation_of_combination ht catalog contexts, hsame⟩
  cases hcombination : Source.combination? source with
  | none =>
    rw [(hsame hcombination).1]
    cases (parseAggregation source catalog contexts).result with
    | error e => exact ⟨fun h => (by cases h), fun h => (by cases h)⟩
    | ok q => simp [Except.map]
  | some t =>
    rw [parseAggregation_of_combination hcombination]
    constructor
    · intro h
      cases h
    · intro h
      obtain ⟨q, hq, hroot⟩ := map_eq_ok h
      exact absurd hroot (parseFilter_ne_call hcombination hq c)

/-- A negation in parentheses, and a call of an unknown function in parentheses. -/
theorem modes_agree_bracketed :
    (∃ t, Source.combination? "((not f(['a'])))" = some t ∧
      parseAggregation "((not f(['a'])))" .looked [] =
        ⟨[], .error (.query (.unsupported (Draft.construct t) .aggregation
          (.of "((not f(['a'])))".toList (Source.normalizeChars "((not f(['a'])))".toList)
            t.start t.stop)))⟩) ∧
    Source.combination? "((g('a')))" = none ∧
    (parseFilter "((g('a')))" .looked []).result.map Query.root
      = ((parseAggregation "((g('a')))" .looked []).result.map fun q => Condition.call q.root) ∧
    (parseFilter "((g('a')))" .looked []).lookups
      = (parseAggregation "((g('a')))" .looked []).lookups := by
  have hsome : (Source.combination? "((not f(['a'])))").isSome = true := by decide +kernel
  have hnone : Source.combination? "((g('a')))" = none := by
    rw [← Option.isNone_iff_eq_none]
    decide +kernel
  obtain ⟨t, ht⟩ := Option.isSome_iff_exists.mp hsome
  exact ⟨⟨t, ht, (modes_agree "((not f(['a'])))" .looked []).2.1 t ht⟩, hnone,
    (modes_agree "((g('a')))" .looked []).2.2 hnone⟩

end CatalogQuery
