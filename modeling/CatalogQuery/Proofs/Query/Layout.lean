import CatalogQuery.Proofs.Resolve.Delay
import CatalogQuery.Proofs.Resolve.Pieces
import CatalogQuery.Proofs.Source.Edits
import CatalogQuery.Proofs.Source.Idempotent

/-!
# Sources with one normal form

A source is read by its normal form. The source itself is looked at only for the texts that errors
show: those of snippets, and that of the source as a whole. So two sources with one normal form are
read to the same root, or are refused for the same cause at the same offsets and places
(`parseFilter_outcome`, `parseAggregation_outcome`), whatever the catalog and the contexts.

`parse_edits` is the case of sources that differ in the case of keywords, in line breaks and in
comments inside brackets, and `parse_normalize` that of a source and its own normal form.
-/

namespace CatalogQuery

open Grammar

/-! ### Outcomes without texts -/

/-- The snippet without its text: where it is. -/
def Snippet.textless (s : Snippet) : Snippet := { s with text := "" }

/-- The error without the text of the source. -/
def QueryError.sourceless : QueryError → QueryError
  | malformed expected place _ => malformed expected place ""
  | noStatement _ => noStatement ""
  | e => e

/-- The error without any text of the source. -/
def QueryError.textless (e : QueryError) : QueryError := (e.mapPieces Snippet.textless).sourceless

def ParseError.textless : ParseError → ParseError
  | .query e => .query e.textless
  | .similarity e => .similarity e

/-- The root that was read, or the error without any text of the source. -/
def Parsed.outcome {α : Type} (p : Parsed α) : Except ParseError α :=
  mapBoth ParseError.textless Query.root p.result

/-! ### Reading by the normal form -/

theorem Draft.keeps_id (t : ParseTree) : Draft.Keeps id t where
  rule := rfl
  children := t.children.map_id.symm
  name _ := rfl
  literal := rfl
  sign _ _ _ _ := rfl

/-- Where a snippet is, is told by the normal form. -/
theorem Draft.snippet_textless {r r' : Reading} (h : r'.normal = r.normal) (t : ParseTree) :
    (Draft.snippet r' t).textless = (Draft.snippet r t).textless := by
  unfold Draft.snippet Snippet.of Snippet.textless
  rw [h]

section Sources

variable {s t : String} {normal : List Char}

theorem Source.statement_textless :
    mapBoth QueryError.textless id (Source.statement s normal)
      = mapBoth QueryError.textless id (Source.statement t normal) := by
  -- the spans of the snippets are those of the trees
  have hsnippets : ∀ trees : List ParseTree,
      (trees.map fun tree => Snippet.of s.toList normal tree.start tree.stop).map Snippet.textless
        = (trees.map fun tree => Snippet.of t.toList normal tree.start tree.stop).map
          Snippet.textless := fun trees => by
    rw [List.map_map, List.map_map]
    rfl
  unfold Source.statement
  split
  · rfl
  · split
    · rfl
    · split_ifs <;> rfl
    · simp only [mapBoth, QueryError.textless, QueryError.mapPieces, hsnippets]

theorem Source.draft_eq_bind {δ : Type} (narrow : Reading → ParseTree → Except QueryError δ)
    (s : String) (catalog : Catalog) :
    Source.draft narrow s catalog
      = (Source.statement s (Source.normalizeChars s.toList)).bind
        (narrow ⟨s.toList, Source.normalizeChars s.toList, catalog⟩) := by
  unfold Source.draft
  dsimp only
  cases Source.statement s (Source.normalizeChars s.toList) <;> rfl

/-- Errors that differ in the texts of snippets only do not differ without texts. -/
theorem mapBoth_textless {δ δ' : Type} {h : δ → δ'} {x y : Except QueryError δ}
    (hxy : mapBoth (QueryError.mapPieces Snippet.textless) h x
      = mapBoth (QueryError.mapPieces Snippet.textless) h y) :
    mapBoth QueryError.textless h x = mapBoth QueryError.textless h y := by
  -- leaving out all texts goes by way of leaving out those of snippets
  have hfactor : ∀ z : Except QueryError δ, mapBoth QueryError.textless h z
      = mapBoth QueryError.sourceless id (mapBoth (QueryError.mapPieces Snippet.textless) h z) :=
    fun z => by cases z <;> rfl
  rw [hfactor, hxy, ← hfactor]

/-- Sources with one normal form have the same draft, but for texts, if narrowing by the same normal
form gives the same. -/
theorem Source.draft_textless {δ δ' : Type} {h : δ → δ'}
    {narrow : Reading → ParseTree → Except QueryError δ} {catalog : Catalog}
    (hnormal : Source.normalizeChars s.toList = Source.normalizeChars t.toList)
    (hnarrow : ∀ r r' tree, r'.normal = r.normal → r'.catalog = r.catalog →
      mapBoth (QueryError.mapPieces Snippet.textless) h (narrow r' tree)
        = mapBoth (QueryError.mapPieces Snippet.textless) h (narrow r tree)) :
    mapBoth QueryError.textless h (Source.draft narrow s catalog)
      = mapBoth QueryError.textless h (Source.draft narrow t catalog) := by
  rw [Source.draft_eq_bind, Source.draft_eq_bind, hnormal]
  refine mapBoth_bind Source.statement_textless fun tree tree' htree => ?_
  obtain rfl : tree = tree' := htree
  exact mapBoth_textless (hnarrow _ _ tree rfl rfl)

/-- **Drafts that are the same but for texts have the same outcome**, if the texts make no
difference to resolution. -/
theorem Parsed.outcome_ofDraft {δ α : Type} {resolve : δ → Rounds α} {h : δ → δ}
    (hresolve : ∀ d, resolve (h d)
      = (resolve d).mapError (ParseError.mapPieces Snippet.textless))
    {x y : Except QueryError δ} (hxy : mapBoth QueryError.textless h x
      = mapBoth QueryError.textless h y) (event event' : α → Event) :
    (Parsed.ofDraft resolve event s x).outcome = (Parsed.ofDraft resolve event' t y).outcome := by
  -- the event, and the source that an error shows, are not part of the outcome
  have houtcome : ∀ (d : δ) (event : α → Event) (s : String),
      (Parsed.ofDraft resolve event s (.ok d)).outcome
        = mapBoth (fun
            | .query e => .query e.sourceless
            | .similarity e => .similarity e) id (resolve (h d)).result := fun d event s => by
    unfold Parsed.outcome
    rw [Parsed.result_ofDraft, hresolve, Rounds.result_mapError]
    match (resolve d).result with
    | .ok _ | .error (.query _) | .error (.similarity _) => rfl
  cases x with
  | ok d =>
    cases y with
    | ok d' =>
      have hd : h d = h d' := Except.ok.inj hxy
      rw [houtcome, houtcome, hd]
    | error e => cases hxy
  | error e =>
    cases y with
    | ok d => cases hxy
    | error e' => exact congrArg (fun e => Except.error (ParseError.query e)) (Except.error.inj hxy)

/-- **A condition is read by the normal form of its source.** -/
theorem parseFilter_outcome
    (hnormal : Source.normalizeChars s.toList = Source.normalizeChars t.toList) (catalog : Catalog)
    (contexts : List Context) :
    (parseFilter s catalog contexts).outcome = (parseFilter t catalog contexts).outcome := by
  unfold parseFilter
  refine Parsed.outcome_ofDraft (Resolve.condition_mapPieces contexts fun _ => rfl)
    (Source.draft_textless hnormal fun r r' tree hr hcatalog => ?_) _ _
  exact Draft.ofTree_mapPieces (g := id) (Draft.snippet_textless hr) hcatalog
    (.of_forall Draft.keeps_id tree) .topLevel

/-- **A call is read by the normal form of its source.** -/
theorem parseAggregation_outcome
    (hnormal : Source.normalizeChars s.toList = Source.normalizeChars t.toList) (catalog : Catalog)
    (contexts : List Context) :
    (parseAggregation s catalog contexts).outcome
      = (parseAggregation t catalog contexts).outcome := by
  unfold parseAggregation
  refine Parsed.outcome_ofDraft (Resolve.call_mapPieces contexts fun _ => rfl)
    (Source.draft_textless hnormal fun r r' tree hr hcatalog => ?_) _ _
  exact Draft.aggregationOfTree_mapPieces (g := id) (Draft.snippet_textless hr) hcatalog
    (.of_forall Draft.keeps_id tree)

end Sources

/-- **Case of keywords and layout inside brackets do not matter.** Sources that can be edited into
each other by writing keywords in other case, by line breaks in place of blanks inside brackets, and
by other comments or blanks in place of comments inside brackets, have one normal form. Read by the
same catalog and contexts, in either mode, they have the same root, or an error of the same kind
with the same spans. -/
theorem parse_edits {s t : String} (h : Relation.EqvGen Source.Edit s.toList t.toList) :
    Source.normalize s = Source.normalize t ∧ ∀ (catalog : Catalog) (contexts : List Context),
      (parseFilter s catalog contexts).outcome = (parseFilter t catalog contexts).outcome ∧
      (parseAggregation s catalog contexts).outcome
        = (parseAggregation t catalog contexts).outcome := by
  have hnormal := Source.normalizeChars_of_edits h
  refine ⟨congrArg String.ofList hnormal, fun catalog contexts => ⟨?_, ?_⟩⟩
  · exact parseFilter_outcome hnormal catalog contexts
  · exact parseAggregation_outcome hnormal catalog contexts

/-- A keyword in upper case, a comment with a quote, a bracket and a letter of two bytes, and a line
break inside a row of arguments. The sources are accepted by a catalog that has the functions. -/
theorem parse_edits_commented :
    let s := "f(1, # ö'(\n2) AND g()"
    let t := "f(1,\n#)))))\n2) and g()"
    let catalog : Catalog :=
      ⟨[⟨"f", none, [⟨"a", .int, none⟩, ⟨"b", .int, none⟩]⟩, ⟨"g", none, []⟩]⟩
    Relation.EqvGen Source.Edit s.toList t.toList ∧ Source.normalize s = Source.normalize t ∧
      (parseFilter s catalog []).outcome = (parseFilter t catalog []).outcome ∧
      (parseFilter t catalog []).result.toOption.isSome = true := by
  intro s t catalog
  have hkeyword : Source.Edit "f(1, # ö'(\n2) AND g()".toList "f(1, # ö'(\n2) and g()".toList :=
    @Source.Edit.keyword 0 "f(1, # ö'(\n2) ".toList "AND".toList "and".toList " g()".toList
      (by decide +kernel) (by decide +kernel) (by decide +kernel) (by rintro _ ⟨⟩; rfl)
      (by rintro _ ⟨⟩; rfl)
  have hcomment : Source.Edit "f(1, # ö'(\n2) and g()".toList "f(1, #)))))\n2) and g()".toList :=
    @Source.Edit.comment 0 "f(1, ".toList " ö'(".toList "#)))))".toList "\n2) and g()".toList
      (by decide +kernel) (by decide +kernel)
      (.inl ⟨")))))".toList, by decide +kernel, by decide +kernel⟩) (by decide +kernel)
      (by rintro _ ⟨⟩; rfl)
  -- inside the brackets a line break is a blank
  have hline : Source.Edit "f(1, #)))))\n2) and g()".toList "f(1,\n#)))))\n2) and g()".toList :=
    @Source.Edit.line 0 "f(1,".toList "#)))))\n2) and g()".toList (by decide +kernel)
  have h : Relation.EqvGen Source.Edit s.toList t.toList :=
    .trans _ _ _ (.rel _ _ hkeyword) (.trans _ _ _ (.rel _ _ hcomment) (.rel _ _ hline))
  have hedits := parse_edits h
  exact ⟨h, hedits.1, (hedits.2 catalog []).1, by decide +kernel⟩

/-- **Normalization is idempotent**, whatever brackets are left open, however quotes end, and whatever
stands in comments. So a source and its normal form have the same parse tree, if any, and are read,
in either mode, to the same root or to an error of the same kind with the same spans. -/
theorem parse_normalize (s : String) :
    Source.normalize (Source.normalize s) = Source.normalize s ∧
      parse (Source.normalizeChars (Source.normalize s).toList)
        = parse (Source.normalizeChars s.toList) ∧
      ∀ (catalog : Catalog) (contexts : List Context),
        (parseFilter (Source.normalize s) catalog contexts).outcome
          = (parseFilter s catalog contexts).outcome ∧
        (parseAggregation (Source.normalize s) catalog contexts).outcome
          = (parseAggregation s catalog contexts).outcome := by
  have hnormal : Source.normalizeChars (Source.normalize s).toList = Source.normalizeChars s.toList := by
    rw [Source.normalize, String.toList_ofList, Source.normalizeChars_normalizeChars]
  refine ⟨congrArg String.ofList hnormal, congrArg parse hnormal, fun catalog contexts => ⟨?_, ?_⟩⟩
  · exact parseFilter_outcome hnormal catalog contexts
  · exact parseAggregation_outcome hnormal catalog contexts

/-- A quote that a line break ends, a bracket too many, a comment with a mark and a letter of two bytes
inside a bracket that stays open. -/
example : Source.normalize (Source.normalize ")'a\nNOT (#ö\"\n'") = ")'a\nnot (     '" := by
  decide +kernel

end CatalogQuery
