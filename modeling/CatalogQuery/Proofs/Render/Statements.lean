import CatalogQuery.Proofs.Render.Conditions

/-!
# Written roots are statements

The text of a readable root, taken as a normal form, is a single statement, and the statement shows
the root: `Condition.Built.statement` and `Call.Readable.statement`.
-/

namespace CatalogQuery

open Grammar

namespace Grammar

variable {P : ParseTree → Prop} {cs : List Char}

/-- An expression that is all of the input is a statement. -/
theorem statement_of_expr (hP : Layered P) (hstart : Start cs)
    (h : Matches .spaced (.rule .expr) cs [] (Found P)) :
    Matches .spaced statement cs [] (Found fun t => P t ∧ t.rule = .exprStmt) := by
  have himport : Refuses .spaced (.rule .importStmt) cs :=
    .rule (.seq_left (.choice hstart.kwImport hstart.kwFrom))
  -- an assignment would go on with an operator behind the expression
  have hoperator : Refuses .spaced (.rule .assignOp) [] :=
    refuses_of_head 0 (by decide) (by decide) (by rintro _ ⟨⟩)
  have hassign : Refuses .spaced (.rule .assignStmt) cs :=
    .rule (.seq_right h (.seq_left (.seq_left hoperator)))
  have hexpr : Matches .spaced (.rule .exprStmt) cs [] (Found P) := .layer rfl hP h
  exact .choice_right himport (.choice_right hassign hexpr.and_rule)

/-- A program that consists of one expression. -/
theorem program_of_expr (hP : Layered P) (hstart : Start cs)
    (h : Matches .spaced (.rule .expr) cs [] (Found P)) :
    Matches .spaced (.rule .program) cs [] (Found fun tree => ∃ t final, tree.children = [t, final] ∧
      P t ∧ t.rule = .exprStmt ∧ final.rule = .endOfInput) := by
  have hnext : Mode.spaced.next cs = cs := Mode.next_of_solid _ hstart.solid
  have hseparator : Refuses .spaced separator [] := separator_refuses (by rintro _ ⟨⟩)
  -- the text ends behind the expression
  have hothers : Matches .spaced (.many (.seq (Expr.manyOne separator) statement)) [] [] (· = []) :=
    .many_none (.seq_left (.seq_left hseparator))
  have hafter := (Matches.many_none hseparator).seq endOfInput_matches
  have hstatements := ((statement_of_expr hP hstart h).seq hothers).optional_some.seq hafter
  have hbefore := (Matches.many_none hstart.separator).seq (by rw [hnext]; exact hstatements)
  have hbody := Matches.nothing.seq (by rw [hnext]; exact hbefore)
  refine (Matches.rule (m := .spaced) (r := .program) rfl hbody).imp ?_
  rintro _ ⟨_, rfl, b, e, text, _, rfl, -, _, _, rfl, rfl, _, _, rfl, rfl, _, _, rfl,
    ⟨_, _, rfl, ⟨t, rfl, ht, hrule⟩, rfl⟩, _, _, rfl, rfl, final, rfl, hfinal⟩
  exact ⟨_, rfl, t, final, rfl, ht, hrule, hfinal⟩

end Grammar

/-- **A text that is one expression has one statement.** -/
theorem Source.statement_of_expr {P : ParseTree → Prop} {cs : List Char} (hP : Layered P)
    (hstart : Start cs) (h : Matches .spaced (.rule .expr) cs [] (Found P)) (source : String) :
    ∃ t, Source.statement source cs = .ok t ∧ P t := by
  obtain ⟨o, _, hreads, tree, rfl, t, final, hchildren, ht, hrule, hfinal⟩ :=
    program_of_expr hP hstart h 0
  exact ⟨t, Source.statement_of_reads hreads hchildren hrule hfinal source, ht⟩

theorem closed_nil : Closed [] := by
  rintro _ ⟨⟩

/-- **The text of a readable condition is a statement that shows it.** -/
theorem Condition.Built.statement {c : Condition} (hc : c.Built Call.Readable) (source : String) :
    ∃ t, Source.statement source c.write = .ok t ∧ c.ShownBy t := by
  have h := hc.matched.2 [] closed_nil
  rw [← List.append_nil c.write]
  exact Source.statement_of_expr (layered_shownBy c) h.start h.expr source

/-- **The text of a readable call is a statement that shows it.** -/
theorem Call.Readable.statement {c : Call} (hc : c.Readable) (source : String) :
    ∃ t, Source.statement source c.write = .ok t ∧ c.ShownBy t := by
  have hstart := hc.start []
  have hquiet : Quiet (skipped []) := closed_nil.quiet
  have hexpr := expr_of_negation (Draft.layered_shownBy_call c) closed_nil hstart.kwLambda
    (hc.negation_matches hquiet)
  rw [← List.append_nil c.write]
  exact Source.statement_of_expr (Draft.layered_shownBy_call c) hstart hexpr source

end CatalogQuery
