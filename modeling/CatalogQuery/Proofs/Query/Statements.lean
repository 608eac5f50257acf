import CatalogQuery.Proofs.Grammar.Separated
import CatalogQuery.Proofs.Query.Layout
import CatalogQuery.Proofs.Query.Snippets
import CatalogQuery.Proofs.Resolve.Lookups

/-!
# Sources by their statements

What a source is refused for before anything is narrowed is told by its statements alone. Narrowing
and resolution have other errors (`Draft.ofTree_inside`, `Parsed.result_ofDraft_eq_error_iff`), so
that the errors about statements tell how many there are and of which kind (`parse_statements`).
-/

namespace CatalogQuery

open Grammar

/-- The error is about the statements of a source, before any of them is narrowed. -/
def QueryError.concernsStatements : QueryError → Bool
  | malformed .. | noStatement _ | severalStatements _ | notAnExpression _ => true
  | unsupported .. | unknownFunction .. | wrongArity .. | invalidArgument _ | contextNotAllowed ..
  | contextNotFound .. | invalidValue .. => false

theorem QueryError.isStructural_of_concernsStatements {e : QueryError}
    (h : e.concernsStatements = true) : e.isStructural = true := by
  cases e <;> first | rfl | cases h

/-! ### Narrowing -/

namespace Draft

variable (r : Reading)

/-- A computation fails with errors that are not about statements only. -/
abbrev Inside {α : Type} (x : Except QueryError α) : Prop :=
  Gives (fun e => e.concernsStatements = false) (fun _ => True) x

theorem callOf_inside (around : Surroundings) (t : ParseTree) : Inside (callOf r around t) := by
  unfold callOf
  split
  · split_ifs
    · dsimp only
      split
      · rfl
      · split
        · rfl
        · split_ifs
          · trivial
          · rfl
    · rfl
  · rfl

mutual

theorem ofTree_inside : ∀ (around : Surroundings) (t : ParseTree), Inside (ofTree r around t)
  | around, .node rule b e text ts => by
    unfold ofTree
    split
    · rename_i child heq
      cases heq
      split_ifs
      · exact ofTree_inside around child
      · rfl
    · rename_i operand heq
      cases heq
      -- the refusal of an operand is the refusal of the negation
      exact (ofTree_inside .negation operand).map fun _ _ => trivial
    · rename_i heq
      cases heq
      split_ifs
      · exact (operands_inside .conjunction ts).map fun _ _ => trivial
      · exact (operands_inside .negation ts).map fun _ _ => trivial
      · exact (callOf_inside r around _).map fun _ _ => trivial
      · rfl

theorem operands_inside : ∀ (rule : Rule) (ts : List ParseTree), Inside (operands r rule ts)
  | _, [] => by
    rw [operands]
    trivial
  | rule, t :: rest => by
    have htree := ofTree_inside .chain t
    have hoperands := operands_inside rule rest
    rw [operands]
    split_ifs
    · -- the first operand that is refused decides
      cases hd : ofTree r .chain t with
      | ok d => exact hoperands.map fun _ _ => trivial
      | error e =>
        rw [hd] at htree
        exact htree
    · exact hoperands

end

theorem aggregationOfTree_inside (t : ParseTree) : Inside (aggregationOfTree r t) := by
  cases t with
  | node rule b e text ts =>
    unfold aggregationOfTree
    split
    · rename_i child heq
      cases heq
      split_ifs
      · exact aggregationOfTree_inside child
      · rfl
    · rename_i heq
      cases heq
      dsimp only
      split_ifs
      · exact callOf_inside r .topLevel _
      · rfl
      · rfl

end Draft

/-! ### Sources -/

section Sources

variable {source : String} {ts : List ParseTree}

/-- The snippet of a node of a source. -/
def Source.piece (source : String) (t : ParseTree) : Snippet :=
  .of source.toList (Source.normalizeChars source.toList) t.start t.stop

/-- The offsets of a snippet. -/
def Snippet.span (s : Snippet) : Nat × Nat := (s.start, s.stop)

/-- What is made of the statements of a source. -/
def Source.only (source : String) : List ParseTree → Except QueryError ParseTree
  | [] => .error (.noStatement source)
  | [t] => if t.rule = .exprStmt then .ok t else .error (.notAnExpression (Source.piece source t))
  | several => .error (.severalStatements (several.map (Source.piece source)))

theorem Source.statement_eq (h : Statements (Source.normalizeChars source.toList) ts) :
    Source.statement source (Source.normalizeChars source.toList) = Source.only source ts := by
  obtain ⟨tree, htree, hts⟩ := h
  unfold Source.statement Source.only
  rw [htree]
  dsimp only
  rw [hts]
  rfl

/-- **What is made of a source** is made of its statements, unless the grammar does not accept it. -/
theorem Source.statement_eq_iff {x : Except QueryError ParseTree}
    (hx : ∀ expected place, x ≠ .error (.malformed expected place source)) :
    Source.statement source (Source.normalizeChars source.toList) = x ↔
      ∃ ts, Statements (Source.normalizeChars source.toList) ts ∧ Source.only source ts = x := by
  constructor
  · intro h
    cases htree : Grammar.parse (Source.normalizeChars source.toList) with
    | ok tree =>
      have hts : Statements (Source.normalizeChars source.toList) _ := ⟨tree, htree, rfl⟩
      exact ⟨_, hts, by rw [← Source.statement_eq hts, h]⟩
    | error f =>
      unfold Source.statement at h
      rw [htree] at h
      -- what the grammar refuses is refused for another reason
      exact absurd h.symm (hx _ _)
  · rintro ⟨ts, hts, rfl⟩
    exact Source.statement_eq hts

/-! The statements decide which of the outcomes it is. -/

theorem Source.only_eq_noStatement_iff :
    Source.only source ts = .error (.noStatement source) ↔ ts = [] := by
  rcases ts with - | ⟨t, - | ⟨u, ts⟩⟩
  · simp [Source.only]
  · simp only [Source.only]
    split_ifs <;> simp
  · simp [Source.only]

theorem Source.only_eq_several_iff {pieces : List Snippet} :
    Source.only source ts = .error (.severalStatements pieces) ↔
      2 ≤ ts.length ∧ pieces = ts.map (Source.piece source) := by
  rcases ts with - | ⟨t, - | ⟨u, ts⟩⟩
  · simp [Source.only]
  · simp only [Source.only]
    split_ifs <;> simp
  · simp [Source.only, eq_comm]

theorem Source.only_eq_notAnExpression_iff {piece : Snippet} :
    Source.only source ts = .error (.notAnExpression piece) ↔
      ∃ t, ts = [t] ∧ t.rule ≠ .exprStmt ∧ piece = Source.piece source t := by
  -- no statement, one, or several
  rcases ts with - | ⟨t, - | ⟨u, ts⟩⟩
  · simp [Source.only]
  · simp only [Source.only]
    split_ifs with h
    · simp [h]
    · constructor
      · rintro ⟨⟩
        exact ⟨t, rfl, h, rfl⟩
      · rintro ⟨_, heq, -, rfl⟩
        cases heq
        rfl
  · simp [Source.only]

theorem Source.only_eq_ok_iff {t : ParseTree} :
    Source.only source ts = .ok t ↔ ts = [t] ∧ t.rule = .exprStmt := by
  rcases ts with - | ⟨u, - | ⟨v, ts⟩⟩
  · simp [Source.only]
  · simp only [Source.only]
    split_ifs with h
    · simp only [Except.ok.injEq, List.cons.injEq, and_true]
      exact ⟨fun heq => ⟨heq, heq ▸ h⟩, And.left⟩
    · simp only [List.cons.injEq, and_true, false_iff, not_and]
      rintro rfl
      exact h
  · simp [Source.only]

/-- An error about statements is the error of reading exactly if it is found before narrowing. -/
theorem Parsed.result_ofDraft_eq_error_iff {δ α : Type} {resolve : δ → Rounds α}
    {narrow : Reading → ParseTree → Except QueryError δ} (hnarrow : ∀ r t, Draft.Inside (narrow r t))
    (hresolve : ∀ d e, (resolve d).result = .error e → e.isStructural = false) (event : α → Event)
    (catalog : Catalog) {e : QueryError} (he : e.concernsStatements = true) :
    (Parsed.ofDraft resolve event source (Source.draft narrow source catalog)).result
        = .error (.query e) ↔
      Source.statement source (Source.normalizeChars source.toList) = .error e := by
  rw [Source.draft_eq_bind]
  cases Source.statement source (Source.normalizeChars source.toList) with
  | error e' =>
    show (Except.error (.query e') : Except ParseError (Query α)) = .error (.query e) ↔ _
    simp
  | ok t =>
    have hno : (Except.ok t : Except QueryError ParseTree) ≠ .error e := by rintro ⟨⟩
    refine iff_of_false ?_ hno
    have hinside := hnarrow ⟨source.toList, Source.normalizeChars source.toList, catalog⟩ t
    show (Parsed.ofDraft resolve event source (narrow _ t)).result ≠ _
    cases hd : narrow ⟨source.toList, Source.normalizeChars source.toList, catalog⟩ t with
    | error e' =>
      rw [hd] at hinside
      rintro ⟨⟩
      -- a refusal of narrowing is not about statements
      rw [show e.concernsStatements = false from hinside] at he
      cases he
    | ok d =>
      rw [Parsed.result_ofDraft]
      intro heq
      -- what resolution reports concerns values, not statements
      have hstructural : e.isStructural = false := hresolve d _ (map_eq_error_iff.mp heq)
      rw [e.isStructural_of_concernsStatements he] at hstructural
      cases hstructural

/-- How the errors of reading classify a source by its statements. -/
structure Parsed.Classified {α : Type} (source : String) (p : Parsed α) : Prop where
  /-- There is nothing but filler. -/
  noStatement : p.result = .error (.query (.noStatement source)) ↔
    Filler (Source.normalizeChars source.toList)
  /-- There are several statements, which are all shown. -/
  several : ∀ pieces, p.result = .error (.query (.severalStatements pieces)) ↔
    ∃ ts, Statements (Source.normalizeChars source.toList) ts ∧ 2 ≤ ts.length ∧
      pieces = ts.map (Source.piece source)
  /-- There is one statement, which is an import or an assignment. -/
  notAnExpression : ∀ piece, p.result = .error (.query (.notAnExpression piece)) ↔
    ∃ t, Statements (Source.normalizeChars source.toList) [t] ∧
      t.rule ∈ [.importStmt, .assignStmt] ∧ piece = Source.piece source t

theorem Parsed.Classified.of_statement {α : Type} {p : Parsed α}
    (h : ∀ e : QueryError, e.concernsStatements = true → (p.result = .error (.query e) ↔
      Source.statement source (Source.normalizeChars source.toList) = .error e)) :
    p.Classified source where
  noStatement := by
    rw [h _ rfl, Source.statement_eq_iff (by rintro _ _ ⟨⟩), ← statements_nil_iff]
    simp only [Source.only_eq_noStatement_iff, exists_eq_right]
  several pieces := by
    rw [h _ rfl, Source.statement_eq_iff (by rintro _ _ ⟨⟩)]
    simp only [Source.only_eq_several_iff]
  notAnExpression piece := by
    rw [h _ rfl, Source.statement_eq_iff (by rintro _ _ ⟨⟩)]
    simp only [Source.only_eq_notAnExpression_iff]
    constructor
    · rintro ⟨_, hts, t, rfl, hrule, hpiece⟩
      refine ⟨t, hts, ?_, hpiece⟩
      -- a statement is an import, an assignment or an expression
      have hrules := hts.separated.2 t (List.mem_singleton_self t)
      simp only [statementRules, List.mem_cons, List.not_mem_nil, or_false] at hrules ⊢
      tauto
    · rintro ⟨t, hts, hrule, hpiece⟩
      refine ⟨_, hts, t, rfl, ?_, hpiece⟩
      rintro heq
      rw [heq] at hrule
      exact absurd hrule (by decide)

/-- The only statement of a source is what is narrowed exactly if it is an expression. -/
theorem Source.draft_eq_iff {t : ParseTree} :
    (∀ {δ : Type} (narrow : Reading → ParseTree → Except QueryError δ) (catalog : Catalog),
        Source.draft narrow source catalog
          = narrow ⟨source.toList, Source.normalizeChars source.toList, catalog⟩ t) ↔
      Statements (Source.normalizeChars source.toList) [t] ∧ t.rule = .exprStmt := by
  have hok : Source.statement source (Source.normalizeChars source.toList) = .ok t ↔
      Statements (Source.normalizeChars source.toList) [t] ∧ t.rule = .exprStmt := by
    rw [Source.statement_eq_iff (by rintro _ _ ⟨⟩)]
    simp only [Source.only_eq_ok_iff]
    constructor
    · rintro ⟨_, hts, rfl, hrule⟩
      exact ⟨hts, hrule⟩
    · rintro ⟨hts, hrule⟩
      exact ⟨_, hts, rfl, hrule⟩
  rw [← hok]
  constructor
  · intro h
    -- what is narrowed is told by narrowing that keeps it
    have hkept := h (fun _ u => .ok u) ⟨[]⟩
    rw [Source.draft_eq_bind] at hkept
    obtain ⟨u, hu, hut⟩ := bind_eq_ok hkept
    rw [hu]
    exact hut
  · intro h δ narrow catalog
    rw [Source.draft_eq_bind, h]
    rfl

end Sources

/-- **Sources are classified by their statements.** The statements of a source that the grammar accepts
are imports, assignments and expressions, and have spans that stand one after another in the normal
form, with nothing but blanks, comments, line breaks and semicolons before, between and after them.
In either mode, a source is refused for having no statement if its normal form is nothing but such
filler, for having several if it has several, and shows them all, and for not being an expression if
its only statement is an import or an assignment; and it is not refused so otherwise. Narrowing is
applied to a statement if this is the only one and an expression, and not otherwise. -/
theorem parse_statements (source : String) (catalog : Catalog) (contexts : List Context) :
    (∀ ts, Statements (Source.normalizeChars source.toList) ts →
      Separated 0 (Source.normalizeChars source.toList)
          ((ts.map (Source.piece source)).map Snippet.span) ∧
        (ts.map (Source.piece source)).Pairwise (fun p q => p.stop ≤ q.start) ∧
        ∀ t ∈ ts, t.rule ∈ statementRules) ∧
      (parseFilter source catalog contexts).Classified source ∧
      (parseAggregation source catalog contexts).Classified source ∧
      ∀ t, (∀ {δ : Type} (narrow : Reading → ParseTree → Except QueryError δ) (catalog : Catalog),
          Source.draft narrow source catalog
            = narrow ⟨source.toList, Source.normalizeChars source.toList, catalog⟩ t) ↔
        Statements (Source.normalizeChars source.toList) [t] ∧ t.rule = .exprStmt := by
  refine ⟨fun ts hts => ?_, ?_, ?_, fun t => Source.draft_eq_iff⟩
  · obtain ⟨hseparated, hrules⟩ := hts.separated
    -- the snippets have the spans of the statements
    have hspans : (ts.map (Source.piece source)).map Snippet.span = ts.map ParseTree.span := by
      rw [List.map_map]
      rfl
    have hpairwise := hseparated.pairwise.2
    rw [← hspans, List.pairwise_map] at hpairwise
    rw [hspans]
    exact ⟨hseparated, hpairwise, hrules⟩
  · exact .of_statement fun e he => Parsed.result_ofDraft_eq_error_iff
      (fun r t => Draft.ofTree_inside r .topLevel t)
      (fun d e => (Resolve.condition_orderly contexts d).run.2.2 e) _ catalog he
  · exact .of_statement fun e he => Parsed.result_ofDraft_eq_error_iff
      Draft.aggregationOfTree_inside
      (fun d e => (Resolve.call_orderly contexts d).run.2.2 e) _ catalog he

/-- An expression, an assignment and an import, with separators at both ends and comments between. -/
def Source.mixed : String := ";\n f(1) ;# c\nx = 2 # ;\n\n import os;"

/-- The error shows the three statements where they stand. What is skipped behind an operand belongs to the
statement. -/
theorem parse_statements_mixed :
    ∃ pieces, (parseFilter Source.mixed ⟨[]⟩ []).result
        = .error (.query (.severalStatements pieces)) ∧
      pieces.map Snippet.text = ["f(1) ", "x = 2 # ;", "import os"] ∧
      Separated 0 (Source.normalizeChars Source.mixed.toList) (pieces.map Snippet.span) := by
  have htexts : (match (parseFilter Source.mixed ⟨[]⟩ []).result with
      | .error (.query (.severalStatements pieces)) => pieces.map Snippet.text
      | _ => []) = ["f(1) ", "x = 2 # ;", "import os"] := by decide +kernel
  cases hresult : (parseFilter Source.mixed ⟨[]⟩ []).result with
  | ok q => rw [hresult] at htexts; cases htexts
  | error e =>
    rw [hresult] at htexts
    cases e with
    | query e =>
      cases e with
      | severalStatements pieces =>
        -- the error of several statements shows all there are
        obtain ⟨hseparated, hclassified, -⟩ := parse_statements Source.mixed ⟨[]⟩ []
        obtain ⟨ts, hts, -, rfl⟩ := (hclassified.several pieces).mp hresult
        exact ⟨_, rfl, htexts, (hseparated ts hts).1⟩
      | _ => cases htexts
    | similarity e => cases htexts

end CatalogQuery
