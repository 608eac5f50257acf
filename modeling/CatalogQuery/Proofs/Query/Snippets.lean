import CatalogQuery.Proofs.Resolve.Snippets

/-!
# Snippets of errors

Errors show pieces of the source. `snippets_exact`: the source can be cut at both offsets of each
piece, and the text of the piece is what stands between them; the text of the normal form, which a
snippet would have otherwise, is never needed.
-/

namespace CatalogQuery

open Grammar

/-- The statement of a source is cut out of it, and so is what its refusal shows. -/
theorem Source.statement_exact (source : String) :
    Gives (QueryError.Exact source.toList) (fun t => t.Grown ∧ t.Cut source.toList)
      (Source.statement source (Source.normalizeChars source.toList)) := by
  unfold Source.statement
  dsimp only
  split
  · exact fun s hs => absurd hs List.not_mem_nil
  · rename_i tree htree
    have hgrown := parse_grown htree
    have hcut := parse_cut htree
    -- every statement is cut out of the source
    have hts : ∀ t ∈ tree.children.filter (·.rule != .endOfInput),
        t.Grown ∧ t.Cut source.toList := by
      intro t ht
      have hmem := List.mem_of_mem_filter ht
      cases hcut with
      | node _ hcuts => exact ⟨hgrown.branches.grown t hmem, hcuts t hmem⟩
    have hpiece := fun t ht => Draft.snippet_exact
      ⟨source.toList, normalizeChars source.toList, ⟨[]⟩⟩ (hts t ht).2
    split
    · exact fun s hs => absurd hs List.not_mem_nil
    · rename_i t heq
      rw [heq] at hts hpiece
      split_ifs
      · exact hts t (List.mem_singleton_self t)
      · exact List.forall_mem_singleton.mpr (hpiece t (List.mem_singleton_self t))
    · intro s hs
      obtain ⟨t, ht, rfl⟩ := List.mem_map.mp hs
      exact hpiece t ht

/-- A draft is resolved with exact snippets if every draft is. -/
theorem Parsed.ofDraft_exact {δ α : Type} {source : List Char} {D : δ → Prop} {resolve : δ → Rounds α}
    (hresolve : ∀ d, D d → (resolve d).Exact source) {event : α → Event} {text : String}
    {x : Except QueryError δ} (hx : Gives (QueryError.Exact source) D x) :
    Gives (ParseError.Exact source) (fun _ => True) (Parsed.ofDraft resolve event text x).result := by
  cases x with
  | error e => exact hx
  | ok d =>
    have hd := hresolve d hx
    -- the error is that of the last round
    rw [Rounds.Exact, Rounds.result] at hd
    unfold Parsed.ofDraft
    dsimp only
    split
    · trivial
    · rename_i heq
      rw [heq] at hd
      exact hd

/-- The statement of a source is narrowed with exact snippets if every statement is. -/
theorem Source.draft_exact {δ : Type} {D : List Char → δ → Prop}
    {narrow : Reading → ParseTree → Except QueryError δ} (source : String) (catalog : Catalog)
    (hnarrow : ∀ r t, t.Grown → t.Cut r.source →
      Gives (QueryError.Exact r.source) (D r.source) (narrow r t)) :
    Gives (QueryError.Exact source.toList) (D source.toList)
      (Source.draft narrow source catalog) := by
  -- a refused statement, or one that is narrowed
  have hstatement := Source.statement_exact source
  unfold Source.draft
  dsimp only
  split
  · rename_i t ht
    rw [ht] at hstatement
    exact hnarrow ⟨source.toList, normalizeChars source.toList, catalog⟩ t hstatement.1 hstatement.2
  · rename_i e he
    rw [he] at hstatement
    exact hstatement

theorem parseFilter_exact (source : String) (catalog : Catalog) (contexts : List Context) :
    Gives (ParseError.Exact source.toList) (fun _ => True)
      (parseFilter source catalog contexts).result :=
  Parsed.ofDraft_exact (Resolve.condition_exact contexts)
    (Source.draft_exact (D := Draft.Exact) source catalog fun r t =>
      Draft.ofTree_exact r .topLevel t)

theorem parseAggregation_exact (source : String) (catalog : Catalog) (contexts : List Context) :
    Gives (ParseError.Exact source.toList) (fun _ => True)
      (parseAggregation source catalog contexts).result :=
  Parsed.ofDraft_exact (fun _ => Resolve.call_exact contexts)
    (Source.draft_exact (D := DraftCall.Exact) source catalog fun r t =>
      Draft.aggregationOfTree_exact r t)

/-- **Snippets of errors are exact.** Whatever piece of the source an error shows, the source can be
cut at both of its offsets, and the text of the piece stands between them. -/
theorem snippets_exact {source : String} {catalog : Catalog} {contexts : List Context}
    {e : QueryError}
    (h : (parseFilter source catalog contexts).result = .error (.query e) ∨
      (parseAggregation source catalog contexts).result = .error (.query e)) :
    ∀ s ∈ e.snippets,
      s.start ≤ s.stop ∧ s.stop ≤ Source.byteLength source.toList ∧
      Source.piece? s.start s.stop source.toList = some s.text.toList ∧
      ∃ before after, source.toList = before ++ s.text.toList ++ after ∧
        s.start = Source.byteLength before ∧
        s.stop = Source.byteLength (before ++ s.text.toList) := by
  have hexact : e.Exact source.toList := by
    rcases h with h | h
    · have hfilter := parseFilter_exact source catalog contexts
      rwa [h] at hfilter
    · have haggregation := parseAggregation_exact source catalog contexts
      rwa [h] at haggregation
  intro s hs
  obtain ⟨before, after, hsource, hstart, hstop⟩ := Source.piece?_eq_some_iff.mp (hexact s hs)
  -- the bounds are lengths of parts of the source
  have hlen := congrArg Source.byteLength hsource
  rw [Source.byteLength_append, hstop] at hlen
  rw [Source.byteLength_append, hstart] at hstop
  refine ⟨by omega, by omega, hexact s hs, before, after, hsource, hstart.symm, ?_⟩
  rw [Source.byteLength_append, hstart, hstop]

/-- Two statements with comments of wide characters, which the normal form makes several blanks. -/
def Source.commented : String := "f(1, # été\n 2) # é\n g( #\u2028\n)"

/-- The error shows both statements as they are written. -/
theorem snippets_exact_commented :
    ∃ e, (parseFilter Source.commented ⟨[]⟩ []).result = .error (.query e) ∧
      e.snippets.map Snippet.text = ["f(1, # été\n 2) # é", "g( #\u2028\n)"] ∧
      ∀ s ∈ e.snippets,
        Source.piece? s.start s.stop Source.commented.toList = some s.text.toList := by
  have htexts : (match (parseFilter Source.commented ⟨[]⟩ []).result with
      | .error (.query e) => e.snippets.map Snippet.text
      | _ => []) = ["f(1, # été\n 2) # é", "g( #\u2028\n)"] := by decide +kernel
  cases hresult : (parseFilter Source.commented ⟨[]⟩ []).result with
  | ok q => rw [hresult] at htexts; cases htexts
  | error e =>
    cases e with
    | similarity e => rw [hresult] at htexts; cases htexts
    | query e =>
      rw [hresult] at htexts
      exact ⟨e, rfl, htexts, fun s hs => (snippets_exact (.inl hresult) s hs).2.2.1⟩

end CatalogQuery
