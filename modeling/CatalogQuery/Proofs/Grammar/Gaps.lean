import CatalogQuery.Proofs.Grammar.Calls
import CatalogQuery.Proofs.Grammar.Words

/-!
# What is skipped

Between the parts of a rule blanks and comments are skipped. `gap` is one of these as a parsing
expression, and skipping is the repetition of it (`gaps_reads`): it ends with the first place where
there is no further gap. Every gap has at least one byte (`consumes_of_mem_gaps`), and so has every
character of a comment.
-/

namespace CatalogQuery.Grammar

open CatalogQuery.Grammar.Expr

/-- The mode in which the parts of a token are matched. -/
abbrev Mode.plain : Mode := ⟨false, false⟩

/-- A blank: a space, a tab, a carriage return, or a line break behind a backslash. -/
def blank : Expr := oneOf [lit " ", lit "\t", lit "\r", sequence [lit "\\", newline]]

/-- A character of a comment. -/
def commentChar : Expr := sequence [absent newline, char .any]

/-- A comment, up to the end of its line. -/
def comment : Expr := sequence [lit "#", many commentChar]

/-- What is skipped in one step. -/
def gap : Expr := oneOf [blank, comment]

/-- What is skipped between two parts. -/
def gaps : Expr := many gap

/-- **Every step of skipping takes at least one byte**, and so does every character of a comment. -/
theorem consumes_of_mem_gaps : ∀ a ∈ gaps.repeated, a.Consumes := by
  have hall : ∀ a ∈ gaps.repeated, a.nullable = false := by decide
  exact fun a ha => consumes_of_not_nullable (hall a ha)

/-! ### Line breaks -/

section Newlines

variable {m : Mode} {cs : List Char}

theorem newline_matches_feed : Matches m newline ('\n' :: cs) cs (· = []) :=
  .choice_left (.text (t := ['\n']))

theorem newline_matches_both : Matches m newline ('\r' :: '\n' :: cs) cs (· = []) :=
  .choice_right (.text (by simp)) (.choice_left (.text (t := ['\r', '\n'])))

/-- A carriage return is a line break by itself only if no line feed follows. -/
theorem newline_matches_return (h : ∀ rest, cs ≠ '\n' :: rest) :
    Matches m newline ('\r' :: cs) cs (· = []) := by
  refine .choice_right (.text (by simp)) (.choice_right (.text ?_) (.text (t := ['\r'])))
  rintro ⟨rest, hrest⟩
  exact h rest (List.cons.inj hrest).2.symm

/-- A line break begins with nothing else. -/
theorem newline_refuses (hfeed : ∀ rest, cs ≠ '\n' :: rest) (hreturn : ∀ rest, cs ≠ '\r' :: rest) :
    Refuses m newline cs := by
  refine .choice (.text ?_) (.choice (.text ?_) (.text ?_))
  · rintro ⟨rest, hrest⟩
    exact hfeed rest hrest.symm
  · rintro ⟨rest, hrest⟩
    exact hreturn _ hrest.symm
  · rintro ⟨rest, hrest⟩
    exact hreturn rest hrest.symm

end Newlines

/-! ### Gaps -/

section Gaps

variable {a : Expr} {cs cs' : List Char}

/-- Without skipping, further matches are matches. -/
theorem Matches.many_of_more {P : List ParseTree → Prop} (h : Matches .plain (.more a) cs cs' P) :
    Matches .plain (.many a) cs cs' P := by
  intro o
  obtain ⟨o', ts, hreads, hts⟩ := h o
  refine ⟨o', ts, ?_, hts⟩
  cases hreads with
  | more_some ha hmore => exact .many_some ha hmore
  | more_none ha => exact .many_none ha

/-- One more match in front. -/
theorem Matches.more_cons {cs₁ : List Char} (ha : Matches .plain a cs cs₁ (· = []))
    (hmore : Matches .plain (.more a) cs₁ cs' (· = [])) :
    Matches .plain (.more a) cs cs' (· = []) := by
  refine (Matches.more_some ha hmore).imp ?_
  rintro _ ⟨_, _, rfl, rfl, rfl⟩
  rfl

theorem blank_matches {c : Char} (hc : c ∈ [' ', '\t', '\r']) :
    Matches .plain gap (c :: cs) cs (· = []) := by
  simp only [List.mem_cons, List.not_mem_nil, or_false] at hc
  rcases hc with rfl | rfl | rfl
  · exact .choice_left (.choice_left (.text (t := [' '])))
  · exact .choice_left (.choice_right (.text (by simp)) (.choice_left (.text (t := ['\t']))))
  · refine .choice_left (.choice_right (.text ?_) (.choice_right (.text ?_)
      (.choice_left (.text (t := ['\r']))))) <;> simp

/-- Behind a backslash a line break is a blank. -/
theorem continued_matches (h : Matches .plain newline cs cs' (· = [])) :
    Matches .plain gap ('\\' :: cs) cs' (· = []) := by
  have hboth : Matches .plain (sequence [lit "\\", newline]) ('\\' :: cs) cs' (· = []) :=
    .seq_nil (.text (t := ['\\'])) h
  exact .choice_left (.choice_right (.text (by simp)) (.choice_right (.text (by simp))
    (.choice_right (.text (by simp)) hboth)))

theorem comment_matches (h : Matches .plain (.more commentChar) cs cs' (· = [])) :
    Matches .plain gap ('#' :: cs) cs' (· = []) := by
  have hblank : Refuses .plain blank ('#' :: cs) :=
    refuses_of_head 0 (by decide) (by decide) (by rintro _ ⟨⟩; exact ⟨by rintro ⟨⟩, by decide⟩)
  exact .choice_right hblank (.seq_nil (.text (t := ['#'])) h.many_of_more)

end Gaps

/-! ### Skipping -/

/-- What is left after gaps, behind the rest of a comment if a comment has begun. -/
def PassesGaps : (inComment : Bool) → List Char → List Char → Prop
  | false, cs, cs' => Matches .plain (.more gap) cs cs' (· = [])
  | true, cs, cs' => ∃ cs₁, Matches .plain (.more commentChar) cs cs₁ (· = []) ∧
      Matches .plain (.more gap) cs₁ cs' (· = [])

/-- At the end of a line a comment ends. -/
theorem PassesGaps.of_lineEnd {cs cs' : List Char} (h : Matches .plain newline cs cs' (· = []))
    {rest : List Char} (hgaps : PassesGaps false cs rest) : PassesGaps true cs rest := by
  have hend : Refuses .plain commentChar cs := .seq_left (.absent h)
  exact ⟨cs, .more_none hend, hgaps⟩

/-- Where nothing more is skipped there is no gap. -/
theorem gap_refuses {cs : List Char} (hplain : ∀ c ∈ cs.head?, c ∉ [' ', '\t', '\r', '#', '\\']) :
    Refuses .plain gap cs := by
  refine refuses_of_head 0 (by decide) (by decide) fun c hc => ⟨by rintro ⟨⟩, ?_⟩
  have hne := hplain c hc
  simp only [List.mem_cons, List.not_mem_nil, or_false, not_or] at hne
  simp [begins, beginsBy, gap, blank, comment, oneOf, Expr.sequence, lit, nullable,
    @eq_comm Char _ c, hne]

theorem gap_refuses_backslash {cs : List Char} (h : Refuses .plain newline cs) :
    Refuses .plain gap ('\\' :: cs) := by
  have hboth : Refuses .plain (sequence [lit "\\", newline]) ('\\' :: cs) :=
    .seq_right (.text (t := ['\\'])) h
  refine .choice (.choice (.text (by simp)) (.choice (.text (by simp)) (.choice (.text (by simp))
    hboth))) (.seq_left (.text (by simp)))

/-- **Skipping passes over gaps.** By the steps of the scan: inside a comment one more character of
it, outside one more gap. -/
theorem skipFrom_passesGaps (inComment : Bool) (offset : Nat) (cs : List Char) :
    PassesGaps inComment cs (skipFrom inComment offset cs).1 := by
  fun_induction skipFrom inComment offset cs with
  | case1 inComment =>
    -- the end of the text ends the line of a comment, too
    have hgap : Refuses .plain gap [] := gap_refuses (by rintro _ ⟨⟩)
    have hchar : Refuses .plain commentChar [] :=
      refuses_of_head 0 (by decide) (by decide) (by rintro _ ⟨⟩)
    cases inComment with
    | false => exact .more_none hgap
    | true => exact ⟨[], .more_none hchar, .more_none hgap⟩
  | case2 =>
    exact .of_lineEnd newline_matches_feed (.more_none (gap_refuses (by rintro _ ⟨⟩; decide)))
  | case3 _ cs _ ih =>
    -- the scan goes on behind the carriage return in code: what ended the line is read as a gap
    -- once more
    have hgap : PassesGaps false ('\r' :: cs) _ := (blank_matches (by decide)).more_cons ih
    by_cases hfeed : ∃ rest, cs = '\n' :: rest
    · obtain ⟨rest, rfl⟩ := hfeed
      exact .of_lineEnd newline_matches_both hgap
    · exact .of_lineEnd (newline_matches_return fun rest h => hfeed ⟨rest, h⟩) hgap
  | case4 _ c cs hfeed hreturn ih =>
    -- one more character of the line
    obtain ⟨cs₁, hline, hgaps⟩ := ih
    have hchar : Matches .plain commentChar (c :: cs) cs (· = []) := by
      have hnewline : Refuses .plain newline (c :: cs) :=
        newline_refuses (fun _ h => hfeed (List.cons.inj h).1)
          fun _ h => hreturn (List.cons.inj h).1
      exact .seq_nil (.absent hnewline) (.char (k := .any) rfl)
    exact ⟨cs₁, hchar.more_cons hline, hgaps⟩
  | case5 inComment _ c cs hcode hc ih =>
    obtain rfl : inComment = false := by simpa using hcode
    exact (blank_matches (by simpa using hc)).more_cons ih
  | case6 inComment _ cs hcode _ ih =>
    obtain rfl : inComment = false := by simpa using hcode
    obtain ⟨cs₁, hline, hgaps⟩ := ih
    exact (comment_matches hline).more_cons hgaps
  | case7 inComment _ hcode rest _ _ ih =>
    obtain rfl : inComment = false := by simpa using hcode
    exact (continued_matches newline_matches_feed).more_cons ih
  | case8 inComment _ hcode rest _ _ ih =>
    obtain rfl : inComment = false := by simpa using hcode
    exact (continued_matches newline_matches_both).more_cons ih
  | case9 inComment _ hcode rest hfeed _ _ ih =>
    obtain rfl : inComment = false := by simpa using hcode
    exact (continued_matches (newline_matches_return hfeed)).more_cons ih
  | case10 inComment _ cs hcode hfeed _ hreturn =>
    -- a backslash in front of something else begins no gap
    obtain rfl : inComment = false := by simpa using hcode
    exact .more_none (gap_refuses_backslash (newline_refuses hfeed hreturn))
  | case11 inComment _ c cs hcode hblank hhash hbackslash =>
    obtain rfl : inComment = false := by simpa using hcode
    refine .more_none (gap_refuses ?_)
    rintro _ ⟨⟩
    simp only [not_or] at hblank
    simp [hblank, hhash, hbackslash]

/-- **What is skipped is gaps**, as many as there are. -/
theorem gaps_reads (c : Cursor) : Reads .plain gaps c (some (c.skip .spaced, [])) := by
  have hgaps : Matches .plain gaps c.rest (c.skip .spaced).rest (· = []) :=
    (skipFrom_passesGaps false c.offset c.rest).many_of_more
  obtain ⟨offset, ts, hreads, rfl⟩ := hgaps c.offset
  -- the offset is known from what was passed over
  obtain ⟨w, hw, hoffset⟩ := hreads.before
  obtain ⟨w', hw', hoffset'⟩ := c.before_skip .spaced
  obtain rfl : w = w' := List.append_cancel_right (hw.symm.trans hw')
  have hcursor : (⟨(c.skip .spaced).rest, offset⟩ : Cursor) = c.skip .spaced :=
    congrArg (Cursor.mk _) (hoffset.trans hoffset'.symm)
  rwa [hcursor] at hreads

end CatalogQuery.Grammar
