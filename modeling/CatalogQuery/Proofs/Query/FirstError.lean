import CatalogQuery.Proofs.Resolve.Delay
import CatalogQuery.Proofs.Resolve.Places
import Mathlib.Data.List.Nodup

/-!
# Which error is reported

A source that narrows to a draft is refused with the error of one of the stages of the draft: the
one that is least by its round and, in a round, by where it stands in the source
(`parse_firstError`). The rounds come from the delays of the lookups. If all answers are given at
once every stage is in the first round, and what is reported is the first error of work in order.
-/

namespace CatalogQuery

open Grammar

/-! ### The least stage -/

namespace Stage

variable {stages : List Stage} {s : Stage} {e e' : ParseError}

/-- `e` is the error of the stage that is least by its key among those that have errors. -/
def Least (stages : List Stage) (e : ParseError) : Prop :=
  ∃ s ∈ stages, s.error? = some e ∧ ∀ g ∈ stages, g.error? ≠ none → s.key ≤ g.key

/-- Where stages stand in their order, the first error of the earliest round is the least. -/
theorem IsFirst.least (h : IsFirst stages s e)
    (hsorted : stages.Pairwise fun s s' => s.spot < s'.spot) : Least stages e := by
  obtain ⟨he, before, after, rfl, hbefore, hafter⟩ := h
  have hbehind := (List.pairwise_append.mp hsorted).2.1
  refine ⟨s, by simp, he, fun g hg herror => ?_⟩
  rcases List.mem_append.mp hg with hg | hg
  · exact (Prod.Lex.toLex_lt_toLex.mpr (.inl (hbefore g hg herror))).le
  · rcases List.mem_cons.mp hg with rfl | hg
    · exact le_rfl
    · have hspot := (List.pairwise_cons.mp hbehind).1 g hg
      rcases (hafter g hg herror).lt_or_eq with hlt | heq
      · exact (Prod.Lex.toLex_lt_toLex.mpr (.inl hlt)).le
      · exact (Prod.Lex.toLex_lt_toLex.mpr (.inr ⟨heq, hspot⟩)).le

/-- Stages that stand in one spot are one stage. -/
theorem eq_of_spot_eq (hsorted : stages.Pairwise fun s s' => s.spot < s'.spot) {g : Stage}
    (hs : s ∈ stages) (hg : g ∈ stages) (hspot : s.spot = g.spot) : s = g := by
  have hnodup : (stages.map spot).Nodup := List.pairwise_map.mpr (hsorted.imp fun h => h.ne)
  exact List.inj_on_of_nodup_map hnodup hs hg hspot

theorem Least.unique (hsorted : stages.Pairwise fun s s' => s.spot < s'.spot)
    (h : Least stages e) (h' : Least stages e') : e = e' := by
  obtain ⟨s, hs, he, hleast⟩ := h
  obtain ⟨g, hg, he', hleast'⟩ := h'
  -- each is at most the other, and the key tells where the stage stands
  have hkey : s.key = g.key :=
    le_antisymm (hleast g hg (by simp [he'])) (hleast' s hs (by simp [he]))
  have hspot : s.spot = g.spot := congrArg (fun k => (ofLex k).2) hkey
  obtain rfl := eq_of_spot_eq hsorted hs hg hspot
  exact Option.some.inj (he.symm.trans he')

end Stage

/-- **A task fails with the least error of its stages**, and only if there is one. -/
theorem Rounds.Told.result_eq_error_iff {α : Type} {stages : List Stage} {t : Rounds α}
    (h : t.Told stages) (hsorted : stages.Pairwise fun s s' => s.spot < s'.spot) {e : ParseError} :
    t.result = .error e ↔ Stage.Least stages e := by
  cases h with
  | ok hnone hends =>
    rw [hends.result]
    constructor
    · rintro ⟨⟩
    · rintro ⟨s, hs, he, -⟩
      cases (hnone s hs).symm.trans he
  | error hfirst hends =>
    rw [hends.result]
    have hleast := hfirst.least hsorted
    constructor
    · rintro ⟨⟩
      exact hleast
    · intro h'
      -- no two stages are at the same spot, so that the least one is unique
      rw [hleast.unique hsorted h']

/-! ### Answers at once -/

namespace Rounds.Ends

/-- One more task in front, where all end in the first round: the result is that of work in
order. -/
theorem all_cons {α : Type} {t : Rounds α} {ts : List (Rounds α)} {x : Except ParseError α}
    {y : Except ParseError (List α)} (ht : t.Ends 0 x) (hts : (all ts).Ends 0 y) :
    (all (t :: ts)).Ends 0 (x.bind fun a => y.map (a :: ·)) := by
  have hzip : (t.zip (all ts)).Ends 0 (x.bind fun a => y.map (a, ·)) := by
    -- an error in front comes first, in whatever round the others fail
    cases x with
    | error e => exact ht.zip_left hts fun _ _ => Nat.le_refl 0
    | ok a =>
      cases y with
      | error e =>
        refine ht.zip_right hts ?_
        rintro _ ⟨⟩
      | ok as => exact ht.zip_ok hts
  have hmap := hzip.map fun (p : α × List α) => p.1 :: p.2
  cases x with
  | error e => exact hmap
  | ok a => cases y <;> exact hmap

end Rounds.Ends

namespace Resolve

variable (contexts : List Context)

theorem literalRound_prompt (p : Parameter) (l : Literal) (piece : Snippet) :
    literalRound p.prompt l piece = 0 := by
  unfold literalRound Parameter.prompt
  cases p.similarity <;> cases l.lookupText? <;> rfl

mutual

theorem value_atOnce (p : Parameter) :
    ∀ a, (value contexts p.prompt a).Ends 0 (valueInOrder contexts p a)
  | .literal l piece => by
    rw [value, valueInOrder, ← literalInOrder_prompt, ← literalRound_prompt p l piece]
    exact literal_ends p.prompt l piece
  | .list items _ => (values_atOnce p items).map _
  | .name _ _ => .done _ _
  | .unsupported _ => .done _ _

theorem values_atOnce (p : Parameter) : ∀ items,
    (Rounds.all (values contexts p.prompt items)).Ends 0 (valuesInOrder contexts p items)
  | [] => .done _ _
  | a :: rest => (value_atOnce p a).all_cons (values_atOnce p rest)

end

theorem arguments_atOnce (ps : List Parameter) (as : List RawArg) :
    (Rounds.all (List.zipWith (argument contexts) (ps.map Parameter.prompt) as)).Ends 0
      (argumentsInOrder contexts ps as) := by
  induction ps generalizing as with
  | nil => exact .done _ _
  | cons p ps ih =>
    cases as with
    | nil => exact .done _ _
    | cons a as => exact ((value_atOnce contexts p a).check (checked p a.snippet)).all_cons (ih as)

/-- **A call with answers at once** has the result of work in order, errors included. -/
theorem call_atOnce (c : DraftCall) :
    (call contexts c.prompt).Ends 0 (callInOrder contexts c) :=
  (arguments_atOnce contexts _ _).map _

mutual

/-- **A condition with answers at once** has the result of work in order, errors included. -/
theorem condition_atOnce :
    ∀ d : Draft, (condition contexts d.prompt).Ends 0 (conditionInOrder contexts d)
  | .all ds => (conditions_atOnce ds).map _
  | .any ds => (conditions_atOnce ds).map _
  | .not d => (condition_atOnce d).map _
  | .call c => (call_atOnce contexts c).map _

theorem conditions_atOnce : ∀ ds : List Draft,
    (Rounds.all (conditions contexts (Draft.promptEach ds))).Ends 0 (conditionsInOrder contexts ds)
  | [] => .done _ _
  | d :: rest => (condition_atOnce d).all_cons (conditions_atOnce rest)

end

end Resolve

/-! ### Sources -/

/-- The stages of the draft of a source stand in their order. -/
theorem Source.draft_placed {δ : Type} {narrow : Reading → ParseTree → Except QueryError δ}
    (stages : δ → List Stage) {source : String} {catalog : Catalog} {d : δ}
    (h : ∀ r t d, t.Grown → t.Laid → narrow r t = .ok d → Placed t.start t.stop (stages d))
    (hd : Source.draft narrow source catalog = .ok d) :
    (stages d).Pairwise fun s s' => s.spot < s'.spot := by
  obtain ⟨t, ht, hd⟩ := Source.draft_eq_ok_iff.mp hd
  obtain ⟨tree, hparse, hfilter, -⟩ := Source.statement_ok ht
  have hmem : t ∈ tree.children := List.mem_of_mem_filter (hfilter ▸ List.mem_singleton_self t)
  have hlaid := parse_laid hparse
  have hgrown := parse_grown hparse
  obtain ⟨rule, b, e, text, ts⟩ := tree
  cases hlaid with
  | node _ _ hlaids => exact (h _ t d (hgrown.branches.grown t hmem) (hlaids t hmem) hd).sorted

/-- **Which error is reported.** For a source that narrows to a draft, and all delays of the
lookups, reading fails exactly with the error that is least by the round of its stage and then by
its place in the source. If all answers are given at once, it ends as work in order does, with the
same error. -/
theorem parse_firstError (source : String) (catalog : Catalog) (contexts : List Context) :
    ((∀ d, Source.draft (fun r => Draft.ofTree r .topLevel) source catalog = .ok d → ∀ e,
        (parseFilter source catalog contexts).result = .error e ↔
          Stage.Least (Resolve.stages contexts d) e) ∧
      (parseFilter source catalog.prompt contexts).result
        = Source.filterInOrder source catalog contexts) ∧
    (∀ c, Source.draft Draft.aggregationOfTree source catalog = .ok c → ∀ e,
        (parseAggregation source catalog contexts).result = .error e ↔
          Stage.Least (Resolve.callStages contexts c) e) ∧
      (parseAggregation source catalog.prompt contexts).result
        = Source.aggregationInOrder source catalog contexts := by
  refine ⟨⟨fun d hd e => ?_, ?_⟩, fun c hc e => ?_, ?_⟩
  · -- the stages stand in the order of their places in the source
    have hsorted := Source.draft_placed (Resolve.stages contexts)
      (fun r _ d ht hlaid h => Resolve.ofTree_placed contexts r ht .topLevel d hlaid h) hd
    rw [parseFilter, hd, Parsed.result_ofDraft, map_eq_error_iff]
    exact (Resolve.condition_told contexts d).result_eq_error_iff hsorted
  · rw [parseFilter, Source.filterInOrder, Source.draft_prompt Draft.prompt
      fun s n t => Draft.ofTree_prompt s n catalog .topLevel t]
    cases Source.draft (fun r => Draft.ofTree r .topLevel) source catalog with
    | error e => rfl
    | ok d =>
      rw [Except.map, Parsed.result_ofDraft, (Resolve.condition_atOnce contexts d).result]
      rfl
  · have hsorted := Source.draft_placed (Resolve.callStages contexts)
      (fun r _ c ht hlaid h => Resolve.aggregationOfTree_placed contexts r ht hlaid h) hc
    rw [parseAggregation, hc, Parsed.result_ofDraft, map_eq_error_iff]
    exact (Resolve.call_told contexts c).result_eq_error_iff hsorted
  · rw [parseAggregation, Source.aggregationInOrder, Source.draft_prompt DraftCall.prompt
      fun s n t => Draft.aggregationOfTree_prompt s n catalog t]
    cases Source.draft Draft.aggregationOfTree source catalog with
    | error e => rfl
    | ok c =>
      rw [Except.map, Parsed.result_ofDraft, (Resolve.call_atOnce contexts c).result]
      rfl

/-- A function over an index that fails late on one text and finds nothing for others. -/
def Catalog.unreliable : Catalog :=
  ⟨[⟨"f", none, [⟨"cities", .list .str, some ⟨"cities", fun _ text =>
    if text = "a" then ⟨3, .error (.unavailable "cities" "gone")⟩ else ⟨1, .ok none⟩⟩⟩]⟩]⟩

/-- The number is no text, which is found out in the second round; the lookup that stands before it
would fail in the fourth. -/
theorem parse_firstError_late :
    ∃ d e, Source.draft (fun r => Draft.ofTree r .topLevel) "f(['a']) and f(['b', 2])" .unreliable
        = .ok d ∧
      (parseFilter "f(['a']) and f(['b', 2])" .unreliable []).result = .error (.query e) ∧
      Stage.Least (Resolve.stages [] d) (.query e) := by
  have hok : (Source.draft (fun r => Draft.ofTree r .topLevel) "f(['a']) and f(['b', 2])"
      .unreliable).toOption.isSome = true := by decide +kernel
  have hfails : (match (parseFilter "f(['a']) and f(['b', 2])" .unreliable []).result with
      | .error (.query _) => true
      | _ => false) = true := by decide +kernel
  cases hd : Source.draft (fun r => Draft.ofTree r .topLevel) "f(['a']) and f(['b', 2])"
      .unreliable with
  | error e =>
    rw [hd] at hok
    cases hok
  | ok d =>
    split at hfails
    · rename_i e he
      exact ⟨d, e, rfl, he, ((parse_firstError _ _ _).1.1 d hd _).mp he⟩
    · cases hfails

end CatalogQuery
