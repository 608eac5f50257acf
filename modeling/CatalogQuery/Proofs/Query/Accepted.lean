import CatalogQuery.Proofs.Resolve.Delay
import CatalogQuery.Proofs.Resolve.Leaves

/-!
# Accepted sources

A source is accepted exactly if its normal form has one statement, the statement is narrowed to a
draft, and the draft is resolved in order (`parseFilter_eq_ok_iff`, `parseAggregation_eq_ok_iff`).
-/

namespace CatalogQuery

open Grammar

theorem Source.finishInOrder_eq_ok_iff {δ α : Type} {resolve : δ → Except ParseError α}
    {source : String} {x : Except QueryError δ} {q : Query α} :
    Source.finishInOrder resolve source x = .ok q ↔
      ∃ d, x = .ok d ∧ resolve d = .ok q.root ∧ q.source = source := by
  constructor
  · intro h
    cases x with
    | error e => cases h
    | ok d =>
      obtain ⟨root, hroot, rfl⟩ := map_eq_ok h
      exact ⟨d, rfl, hroot, rfl⟩
  · rintro ⟨d, rfl, hroot, rfl⟩
    rw [Source.finishInOrder, hroot]
    rfl

/-- **When a filter is accepted.** -/
theorem parseFilter_eq_ok_iff {source : String} {catalog : Catalog} {contexts : List Context}
    {q : Query Condition} :
    (parseFilter source catalog contexts).result = .ok q ↔
      ∃ t d, Source.statement source (Source.normalizeChars source.toList) = .ok t ∧
        Draft.ofTree ⟨source.toList, Source.normalizeChars source.toList, catalog⟩ .topLevel t
          = .ok d ∧
        Resolve.conditionInOrder contexts d = .ok q.root ∧ q.source = source := by
  -- delays do not matter for what is accepted
  rw [parseFilter_agree source catalog contexts q, Source.filterInOrder,
    Source.finishInOrder_eq_ok_iff]
  simp only [Source.draft_eq_ok_iff]
  constructor
  · rintro ⟨d, ⟨t, ht, hd⟩, hroot, hsource⟩
    exact ⟨t, d, ht, hd, hroot, hsource⟩
  · rintro ⟨t, d, ht, hd, hroot, hsource⟩
    exact ⟨d, ⟨t, ht, hd⟩, hroot, hsource⟩

/-- **When an aggregation is accepted.** -/
theorem parseAggregation_eq_ok_iff {source : String} {catalog : Catalog} {contexts : List Context}
    {q : Query Call} :
    (parseAggregation source catalog contexts).result = .ok q ↔
      ∃ t d, Source.statement source (Source.normalizeChars source.toList) = .ok t ∧
        Draft.aggregationOfTree ⟨source.toList, Source.normalizeChars source.toList, catalog⟩ t
          = .ok d ∧
        Resolve.callInOrder contexts d = .ok q.root ∧ q.source = source := by
  rw [parseAggregation_agree source catalog contexts q, Source.aggregationInOrder,
    Source.finishInOrder_eq_ok_iff]
  simp only [Source.draft_eq_ok_iff]
  constructor
  · rintro ⟨d, ⟨t, ht, hd⟩, hroot, hsource⟩
    exact ⟨t, d, ht, hd, hroot, hsource⟩
  · rintro ⟨t, d, ht, hd, hroot, hsource⟩
    exact ⟨d, ⟨t, ht, hd⟩, hroot, hsource⟩

end CatalogQuery
