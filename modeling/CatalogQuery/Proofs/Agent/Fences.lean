import CatalogQuery.Agent.Response
import CatalogQuery.Proofs.Query.Formulas
import Mathlib.Data.List.TakeWhile

/-!
# Queries between inline fences

A response may put a query between two fences without line breaks of its own (`Response.fenced`).
Nothing then tells the first line of the query from the name of a language:

* a query on one line is taken out as it is, and of a query on several lines only what follows the
  first line break is left (`Response.cleanChars_fenced`), so that the query is read as it is or as
  its later lines by themselves (`parseFilter_fenced`);
* whenever two calls are joined over two lines, only the second call is left, and is accepted in the
  place of both (`CallText.parseFilter_fenced_pair`).
-/

namespace CatalogQuery

/-! ### Blanks at the ends -/

namespace Text

/-- A text without blanks at its ends is not trimmed. -/
theorem trim_eq_self {cs : List Char} (hhead : ∀ c ∈ cs.head?, isBlank c = false)
    (hlast : ∀ c ∈ cs.getLast?, isBlank c = false) : trim cs = cs := by
  have hkeep : ∀ ds : List Char, (∀ c ∈ ds.head?, isBlank c = false) →
      ds.dropWhile isBlank = ds := by
    intro ds h
    cases ds with
    | nil => rfl
    | cons c ds => exact List.dropWhile_cons_of_neg (by simp [h c rfl])
  rw [trim, trimStart, hkeep cs hhead, trimEnd, hkeep cs.reverse (by rwa [List.head?_reverse]),
    List.reverse_reverse]

/-- A character of a word is no blank. -/
theorem isBlank_of_continues {c : Char} (hc : Grammar.continues c = true) : isBlank c = false := by
  have hcode : 48 ≤ c.toNat ∧ c.toNat ≤ 122 := by
    -- letters, digits and the underscore are in one range
    have between (bottom top : Char) (hbottom : 48 ≤ bottom.toNat) (htop : top.toNat ≤ 122)
        (h : bottom ≤ c) (h' : c ≤ top) : 48 ≤ c.toNat ∧ c.toNat ≤ 122 :=
      ⟨Nat.le_trans hbottom (UInt32.le_iff_toNat_le.mp h),
        Nat.le_trans (UInt32.le_iff_toNat_le.mp h') htop⟩
    rcases Bool.or_eq_true_iff.mp hc with halnum | hunderscore
    · rcases Bool.or_eq_true_iff.mp halnum with halpha | hdigit
      · rcases Bool.or_eq_true_iff.mp halpha with hupper | hlower
        · obtain ⟨h, h'⟩ := of_decide_eq_true hupper
          exact between 'A' 'Z' (by decide) (by decide) h h'
        · obtain ⟨h, h'⟩ := Bool.and_eq_true_iff.mp hlower
          exact between 'a' 'z' (by decide) (by decide) (of_decide_eq_true h) (of_decide_eq_true h')
      · obtain ⟨h, h'⟩ := Bool.and_eq_true_iff.mp hdigit
        exact between '0' '9' (by decide) (by decide) (of_decide_eq_true h) (of_decide_eq_true h')
    · obtain rfl := eq_of_beq hunderscore
      decide
  -- in which there are no blanks
  have hranges : ∀ range ∈ blanks, range.2 < 48 ∨ 122 < range.1 := by decide
  rw [isBlank, Ranges.contains, List.any_eq_false]
  rintro ⟨first, last⟩ hrange
  have hout : last < 48 ∨ 122 < first := hranges _ hrange
  simp only [Bool.and_eq_true, decide_eq_true_eq, not_and]
  omega

end Text

/-! ### What is taken off -/

namespace Response

theorem stripStart?_append (start cs : List Char) : stripStart? start (start ++ cs) = some cs := by
  rw [stripStart?, if_pos (List.isPrefixOf_iff_prefix.mpr (List.prefix_append _ _)),
    List.drop_left]

theorem stripEnd_append (cs ending : List Char) : stripEnd ending (cs ++ ending) = cs := by
  rw [stripEnd, if_pos (List.isSuffixOf_iff_suffix.mpr (List.suffix_append _ _)),
    List.length_append, Nat.add_sub_cancel, List.take_left]

theorem bne_break {cs : List Char} (h : '\n' ∉ cs) : ∀ c ∈ cs, (c != '\n') = true := by
  intro c hc
  rw [bne_iff_ne]
  rintro rfl
  exact h hc

theorem afterFirstLine_of_not_mem {cs : List Char} (h : '\n' ∉ cs) : afterFirstLine cs = cs := by
  rw [afterFirstLine, List.dropWhile_eq_nil_iff.mpr (bne_break h)]

theorem afterFirstLine_append {first : List Char} (h : '\n' ∉ first) (rest : List Char) :
    afterFirstLine (first ++ '\n' :: rest) = rest := by
  rw [afterFirstLine, List.dropWhile_append_of_pos (bne_break h),
    List.dropWhile_cons_of_neg (by decide)]

/-- A query between inline fences. -/
def fenced (query : String) : String := "```" ++ query ++ "```"

theorem toList_fenced (query : String) :
    (fenced query).toList = fence ++ query.toList ++ fence := by
  rw [fenced, String.toList_append, String.toList_append]
  rfl

/-- The text between the fences, up to its first line break, is taken for the name of a language. -/
theorem cleanChars_fence_append (cs : List Char) :
    cleanChars (fence ++ cs ++ fence)
      = Text.trim (stripEnd fence (afterFirstLine (cs ++ fence))) := by
  have htrim : Text.trim (fence ++ cs ++ fence) = fence ++ cs ++ fence := by
    -- the fences keep the blanks of the text from being ends
    apply Text.trim_eq_self
    · rintro _ ⟨⟩
      decide
    · rw [List.getLast?_append]
      rintro _ ⟨⟩
      decide
  rw [cleanChars, htrim, List.append_assoc, stripStart?_append]

/-- **What is taken out of inline fences**: a text on one line as a whole, and of a text on several
lines those after the first. -/
theorem cleanChars_fenced (cs : List Char) :
    ('\n' ∉ cs → cleanChars (fence ++ cs ++ fence) = Text.trim cs) ∧
    ∀ first rest, cs = first ++ '\n' :: rest → '\n' ∉ first →
      cleanChars (fence ++ cs ++ fence) = Text.trim rest := by
  have hfence : '\n' ∉ fence := by decide
  rw [cleanChars_fence_append]
  constructor
  · intro hline
    have hnone : '\n' ∉ cs ++ fence := by simp [hline, hfence]
    rw [afterFirstLine_of_not_mem hnone, stripEnd_append]
  · rintro first rest rfl hfirst
    rw [List.append_assoc, List.cons_append, afterFirstLine_append hfirst, stripEnd_append]

end Response

/-! ### What is read -/

open Grammar Formula

variable {catalog : Catalog} {contexts : List Context}

/-- **A query between inline fences is read as it is if it stands on one line.** If it stands on
several lines, those after the first are read by themselves, whatever they say. -/
theorem parseFilter_fenced {source : String} (htrim : Text.trim source.toList = source.toList)
    {q : Query Condition} (h : (parseFilter source catalog contexts).result = .ok q) :
    ('\n' ∉ source.toList →
      (parseFilter (Response.clean (Response.fenced source)) catalog contexts).result = .ok q) ∧
    ∀ first rest, source.toList = first ++ '\n' :: rest → '\n' ∉ first →
      parseFilter (Response.clean (Response.fenced source)) catalog contexts
        = parseFilter (String.ofList (Text.trim rest)) catalog contexts := by
  -- a fence takes its line with it only if there is another line
  obtain ⟨hline, hlines⟩ := Response.cleanChars_fenced source.toList
  rw [← Response.toList_fenced] at hline hlines
  constructor
  · intro hone
    rw [Response.clean, hline hone, htrim, String.ofList_toList]
    exact h
  · intro first rest hsource hfirst
    rw [Response.clean, hlines first rest hsource hfirst]

/-- Two calls over two lines. -/
def Source.continued : String := "f(1) and \\\nf(2)"

/-- Over a catalog with one function a conjunction on one line is read as it is, and of the same
conjunction over two lines the second one is. -/
theorem parseFilter_fenced_counting :
    Text.trim "f(1) and f(2)".toList = "f(1) and f(2)".toList ∧
    (∃ q, (parseFilter "f(1) and f(2)" .counting []).result = .ok q ∧
      (parseFilter (Response.clean (Response.fenced "f(1) and f(2)")) .counting []).result
        = .ok q) ∧
    parseFilter (Response.clean (Response.fenced Source.continued)) .counting []
      = parseFilter "f(2)" .counting [] := by
  have htrim : Text.trim "f(1) and f(2)".toList = "f(1) and f(2)".toList := by decide +kernel
  have htrim' : Text.trim Source.continued.toList = Source.continued.toList := by decide +kernel
  have hone : (parseFilter "f(1) and f(2)" .counting []).result.toOption.isSome = true := by
    decide +kernel
  have htwo : (parseFilter Source.continued .counting []).result.toOption.isSome = true := by
    decide +kernel
  refine ⟨htrim, ?_, ?_⟩
  · cases hq : (parseFilter "f(1) and f(2)" .counting []).result with
    | error e => rw [hq] at hone; cases hone
    | ok q => exact ⟨q, rfl, (parseFilter_fenced htrim hq).1 (by decide +kernel)⟩
  · cases hq : (parseFilter Source.continued .counting []).result with
    | error e => rw [hq] at htwo; cases htwo
    | ok q =>
      -- the first line ends behind the backslash
      have hread := (parseFilter_fenced htrim' hq).2 "f(1) and \\".toList "f(2)".toList
        (by decide +kernel) (by decide +kernel)
      rwa [show String.ofList (Text.trim "f(2)".toList) = "f(2)" by decide +kernel] at hread

/-- **Some accepted filter loses a condition between inline fences.** -/
theorem not_parseFilter_fenced :
    ¬ ∀ (catalog : Catalog) (contexts : List Context) (source : String),
      Text.trim source.toList = source.toList →
      ∀ q, (parseFilter source catalog contexts).result = .ok q →
        ∃ q', (parseFilter (Response.clean (Response.fenced source)) catalog contexts).result
          = .ok q' ∧ q'.root = q.root := by
  intro hall
  have hwhole : (parseFilter Source.continued .counting []).result.toOption.any
      (fun q => q.root.calls.length == 2) = true := by decide +kernel
  have hleft : (parseFilter (Response.clean (Response.fenced Source.continued)) .counting
      []).result.toOption.any (fun q => q.root.calls.length == 1) = true := by decide +kernel
  cases hq : (parseFilter Source.continued .counting []).result with
  | error e => rw [hq] at hwhole; cases hwhole
  | ok q =>
    -- the two queries would have as many calls
    obtain ⟨q', hq', hroot⟩ := hall .counting [] Source.continued (by decide +kernel) q hq
    rw [hq] at hwhole
    rw [hq'] at hleft
    have htwo : q.root.calls.length = 2 := eq_of_beq hwhole
    have hone : q'.root.calls.length = 1 := eq_of_beq hleft
    rw [hroot, htwo] at hone
    cases hone

/-! ### Two calls over two lines -/

theorem Source.Closing.exists_last {k : Nat} {v : List Char} (h : Source.Closing (k + 1) v) :
    ∃ u c, v = u ++ [c] ∧ c ∈ Source.closeBrackets := by
  generalize hj : k + 1 = j at h
  induction h generalizing k with
  | nil => cases hj
  | @closed j c v hc h ih =>
    cases j with
    | zero =>
      -- the last bracket of all
      obtain rfl := h.eq_nil
      exact ⟨[], c, rfl, hc⟩
    | succ j =>
      obtain ⟨u, d, rfl, hd⟩ := ih rfl
      exact ⟨c :: u, d, rfl, hd⟩
  | @opened _ c _ _ _ ih | @plain _ c _ _ _ ih =>
    obtain ⟨u, d, rfl, hd⟩ := ih rfl
    exact ⟨c :: u, d, rfl, hd⟩
  | @quoted _ mark w _ _ _ _ ih =>
    obtain ⟨u, d, rfl, hd⟩ := ih rfl
    exact ⟨mark :: (w ++ mark :: u), d, by simp, hd⟩

/-- A source that is matched as a disjunction is accepted. -/
theorem Formula.Matched.parseFilter_eq {c : Condition} {v : List Char}
    (h : Matched catalog contexts .disjunction v [] c) {source : String}
    (hsource : Source.normalizeChars source.toList = v) :
    (parseFilter source catalog contexts).result = .ok ⟨c, source⟩ := by
  have hexpr := expr_of_disjunction (layered_yields c) closed_nil h.start.kwLambda h.found
  obtain ⟨t, ht, hyields⟩ := Source.statement_of_expr (layered_yields c) h.start hexpr source
  obtain ⟨d, hd, hroot⟩ :=
    hyields ⟨source.toList, Source.normalizeChars source.toList, catalog⟩ rfl .topLevel
  exact parseFilter_eq_ok_iff.mpr ⟨t, d, hsource ▸ ht, hd, hroot, rfl⟩

namespace CallText

/-- A call text begins with a word and ends with a bracket. -/
theorem trim_chars (a : CallText catalog contexts) : Text.trim a.chars = a.chars := by
  obtain ⟨c, w, hname, -⟩ := a.word.head
  obtain ⟨u, d, harguments, hd⟩ := a.closing.exists_last
  have hall : ∀ x ∈ Source.closeBrackets, Text.isBlank x = false := by decide
  apply Text.trim_eq_self
  · rw [chars, hname]
    rintro _ ⟨⟩
    exact Text.isBlank_of_continues (a.word.all c (by simp [hname]))
  · rw [chars, harguments, ← List.cons_append, ← List.append_assoc, List.getLast?_concat]
    rintro _ ⟨⟩
    exact hall d hd

/-- Two calls with `and` between them, the second one on a line of its own. -/
def pair (a b : CallText catalog contexts) : List Char :=
  a.chars ++ (" and \\".toList ++ '\n' :: b.chars)

theorem skipped_continued (cs : List Char) :
    skipped (' ' :: '\\' :: '\n' :: cs) = skipped cs := by
  rw [skipped_blank, skipped_feed]

theorem normalize_pair (a b : CallText catalog contexts) :
    Source.normalizeChars (pair a b)
      = a.normal ++ ' ' :: ("and".toList ++ ' ' :: '\\' :: '\n' :: b.normal) := by
  obtain ⟨-, -, -, ha⟩ := a.normal_eq
  rw [Source.normalizeChars, pair, ha]
  rfl

/-- **Two calls over two lines** are accepted as their conjunction. -/
theorem parseFilter_pair (hstable : catalog.Stable) (a b : CallText catalog contexts) :
    (parseFilter (String.ofList (pair a b)) catalog contexts).result
      = .ok ⟨.all [a.meaning, b.meaning], String.ofList (pair a b)⟩ := by
  have hlevel := Condition.Level.regular_conjunction
  have hword : skipped (' ' :: ("and".toList ++ ' ' :: '\\' :: '\n' :: b.normal))
      = "and".toList ++ ' ' :: '\\' :: '\n' :: b.normal :=
    (skipped_blank _).trans (hlevel.next_of_follows (hlevel.follows_word _))
  -- the first call ends where the word stands, and the second begins behind the line break
  have hfirst := a.matched hstable (hword ▸ hlevel.follows_word _)
  have hsecond := b.matched hstable (show Quiet (skipped []) from closed_nil.quiet)
  rw [List.append_nil] at hsecond
  have hb : skipped (' ' :: '\\' :: '\n' :: b.normal) = b.normal :=
    (skipped_continued _).trans (Mode.next_of_solid .spaced hsecond.start.solid)
  have hends : Ends (' ' :: '\\' :: '\n' :: b.normal) := by
    rintro _ ⟨⟩
    rfl
  have hfurther : Further .negation "and" (Yields catalog contexts) [] [b.meaning]
      (' ' :: ("and".toList ++ ' ' :: '\\' :: '\n' :: b.normal)) :=
    .cons hword hends (by rw [hb]; exact hsecond.found) .nil
  have hrefuses := Condition.closed_refuses_words (show Closed (skipped []) from closed_nil)
  have hconjunction := hfirst.chain hlevel rfl makes_all hfurther (hrefuses .kwAnd (by simp))
  have hdisjunction := hconjunction.chain Condition.Level.regular_disjunction rfl makes_any .nil
    (hrefuses .kwOr (by simp))
  apply hdisjunction.parseFilter_eq
  rw [String.toList_ofList, normalize_pair]

/-- **Between inline fences the first of two calls over two lines is lost**: by itself the text is
accepted as their conjunction, and between fences as the second call. -/
theorem parseFilter_fenced_pair (hstable : catalog.Stable) (a b : CallText catalog contexts)
    (hline : '\n' ∉ a.chars) :
    let source := String.ofList (pair a b)
    (∃ q, (parseFilter source catalog contexts).result = .ok q ∧
      q.root = .all [a.meaning, b.meaning]) ∧
    ∃ q, (parseFilter (Response.clean (Response.fenced source)) catalog contexts).result = .ok q ∧
      q.root = b.meaning := by
  intro source
  refine ⟨⟨_, parseFilter_pair hstable a b, rfl⟩, ⟨b.meaning, b.name ++ "(" ++ b.arguments⟩, ?_, rfl⟩
  have hfirst : '\n' ∉ a.chars ++ " and \\".toList := by
    rw [List.mem_append, not_or]
    exact ⟨hline, by decide⟩
  -- the first call is on the first line
  have hclean := (Response.cleanChars_fenced (pair a b)).2 _ b.chars (by simp [pair]) hfirst
  have htext : String.ofList b.chars = b.name ++ "(" ++ b.arguments := by
    rw [← toList_text, String.ofList_toList]
  rw [Response.clean, Response.toList_fenced, String.toList_ofList, hclean, trim_chars, htext]
  exact b.accepted

end CallText

end CatalogQuery
