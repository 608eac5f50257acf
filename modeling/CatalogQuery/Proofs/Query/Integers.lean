import CatalogQuery.Proofs.Draft.Integers
import CatalogQuery.Proofs.Draft.Supported
import CatalogQuery.Proofs.Grammar.Arguments
import CatalogQuery.Proofs.Query.Formulas
import CatalogQuery.Proofs.Resolve.Stages

/-!
# Integer arguments are exact or rejected

An argument that spells `(-1) ^ m * n` is read as the literal with exactly this value if `n` is
below `2 ^ 63`, and is an invalid argument otherwise (`parse_integers`). Nothing wraps or saturates
or becomes a floating-point number, and no minus sign meets an integer that has no negative.

That is so for every argument with such a text, in whatever call of a source it is. In front of a
comma or a closing bracket a spelling is read in one way only, and all arguments of a parse tree
stand there.
-/

namespace CatalogQuery

open Grammar

variable {m n : ℕ} {w : List Char}

/-! ### Arguments in parse trees -/

/-- **An argument that spells an integer** is read as this integer. -/
theorem Grammar.ParseTree.IsArgument.givesInteger {a : ParseTree} (ha : a.IsArgument)
    (h : SpelledInteger m n w) {gap : List Char} (hgap : ∀ c ∈ gap, c ∈ [' ', '\t', '\r'])
    (htext : a.text = w ++ gap) : Draft.GivesInteger m n a := by
  obtain ⟨c, c', hreads, hclosed⟩ := ha
  have hrest := hreads.argument_text
  rw [htext, List.append_assoc] at hrest
  have hv : Closed (skipped (gap ++ c'.rest)) := by rwa [skipped_blanks hgap]
  obtain ⟨o, ts, hts, t, rfl, ht, -⟩ := h.argument_matches hv c.offset
  obtain ⟨rest, offset⟩ := c
  obtain rfl : rest = w ++ (gap ++ c'.rest) := hrest
  -- there is only one reading
  have hsame := Option.some.inj (hreads.unique hts)
  obtain rfl : a = t := List.singleton_inj.mp (congrArg Prod.snd hsame)
  exact ht

/-- A source is accepted in one of the two modes at least. -/
def Source.Accepted (source : String) (catalog : Catalog) (contexts : List Context) : Prop :=
  (∃ q, (parseFilter source catalog contexts).result = .ok q) ∨
    ∃ q, (parseAggregation source catalog contexts).result = .ok q

/-- **What is accepted has no argument that is unsupported.** -/
theorem Source.Accepted.callsSupported {source : String} {catalog : Catalog}
    {contexts : List Context} (h : Source.Accepted source catalog contexts) {tree : ParseTree}
    (hparse : parse (Source.normalizeChars source.toList) = .ok tree) :
    tree.Everywhere (Draft.CallsSupported
      ⟨source.toList, Source.normalizeChars source.toList, catalog⟩) := by
  -- accepted as a filter or as an aggregation
  rcases h with ⟨q, hq⟩ | ⟨q, hq⟩
  · obtain ⟨t, d, ht, hd, hroot, -⟩ := parseFilter_eq_ok_iff.mp hq
    obtain ⟨-, -, hgrown, -⟩ := Source.statement_atoms ht
    have hs := Resolve.conditionInOrder_supported (Draft.ofTree_wellFormed hgrown _ _ hd) _ hroot
    exact Source.callsSupported_of_statement hparse ht (Draft.ofTree_supported hgrown _ _ hd hs)
  · obtain ⟨t, d, ht, hd, hroot, -⟩ := parseAggregation_eq_ok_iff.mp hq
    obtain ⟨-, -, hgrown, -⟩ := Source.statement_atoms ht
    have hs := Resolve.callInOrder_supported (Draft.aggregationOfTree_wellFormed hgrown hd) hroot
    exact Source.callsSupported_of_statement hparse ht
      (Draft.aggregationOfTree_supported hgrown hd hs)

namespace RawArg.IsInteger

variable {a : RawArg}

theorem unsupported (h : a.IsInteger m n) (hn : 2 ^ 63 - 1 < n) :
    ∃ piece, a = .unsupported piece := by
  cases h with
  | exact hle => omega
  | tooLarge => exact ⟨_, rfl⟩

theorem le_of_supported (h : a.IsInteger m n) (hs : a.Supported) : n ≤ 2 ^ 63 - 1 := by
  cases h with
  | exact hle => exact hle
  | tooLarge => cases hs

/-- For every parameter it is an error in the first round, and nothing is looked up. -/
theorem resolve (h : a.IsInteger m n) (hn : 2 ^ 63 - 1 < n) (contexts : List Context)
    (p : Parameter) :
    Resolve.argument contexts p a = .ofExcept (.error (.query (.invalidArgument a.snippet))) := by
  obtain ⟨piece, rfl⟩ := h.unsupported hn
  rfl

end RawArg.IsInteger

/-! ### Calls with one argument -/

/-- The node stands for the call of a function, in both modes, with one argument that has the
property. -/
def Draft.CallsWith (name : String) (A : RawArg → Prop) (t : ParseTree) : Prop :=
  ∀ r f, r.catalog.find? name = some f → f.arity = 1 → ∃ a, A a ∧
    (∀ around, ofTree r around t = .ok (.call ⟨f, [a]⟩)) ∧
    aggregationOfTree r t = .ok ⟨f, [a]⟩

theorem Draft.layered_callsWith (name : String) (A : RawArg → Prop) :
    Layered (CallsWith name A) := by
  intro rule b e text t hrule ht r f hfind harity
  obtain ⟨a, ha, hof, haggregation⟩ := ht r f hfind harity
  refine ⟨a, ha, fun around => ?_, ?_⟩
  · rw [ofTree_layer hrule, hof]
  · rw [aggregationOfTree_layer hrule, haggregation]

/-- A name in front of one argument. -/
theorem Draft.callsWith_call {name : String} {A : RawArg → Prop} {b e b' e' b'' e'' : Nat}
    {text text' : List Char} {t : ParseTree} (ht : ∀ r, A (argument r t)) (hrule : t.rule = .expr) :
    CallsWith name A (.node .primary b e text
      [.node .ident b' e' name.toList [], .node .call b'' e'' text' [t]]) := by
  intro r f hfind harity
  exact ⟨argument r t, ht r, narrow_call hfind (List.forall_mem_singleton.mpr hrule) harity.symm rfl⟩

/-- **A call with a spelling as its only argument is a statement.** -/
theorem SpelledInteger.statement (h : SpelledInteger m n w) {name : String} (hname : IsName name)
    {gap gap' : List Char} (hgap : ∀ c ∈ gap, c ∈ [' ', '\t', '\r'])
    (hgap' : ∀ c ∈ gap', c ∈ [' ', '\t', '\r']) (source : String) :
    ∃ t, Source.statement source (name.toList ++ '(' :: (gap ++ (w ++ (gap' ++ [')'])))) = .ok t ∧
      Draft.CallsWith name (RawArg.IsInteger m n) t := by
  have hP := Draft.layered_callsWith name (RawArg.IsInteger m n)
  have hquiet : Quiet (skipped []) := closed_nil.quiet
  have hclosed : Closed [')'] := by
    rintro _ ⟨⟩
    decide
  have hclose : skipped (gap' ++ [')']) = [')'] := by
    rw [skipped_blanks hgap', hclosed.quiet.skipped]
  -- the spelling, with what is skipped around it
  have hargument := h.argument_matches (v := gap' ++ [')']) (by rwa [hclose])
  rw [hclose, ← h.skipped_gap hgap] at hargument
  have hcomma : Refuses .spaced (Expr.lit ",") [')'] :=
    refuses_text_of_head (by rintro _ ⟨⟩; decide)
  -- the row of arguments, and the call
  have hcall := Matches.rule (m := .spaced) (r := .call) rfl
    (matches_parenthesized hcomma hargument hclosed.quiet.skipped)
  have hprimary := (primary_of_call hname hcall hquiet).imp (Q := Found (Draft.CallsWith name
    (RawArg.IsInteger m n))) (by
      rintro _ ⟨_, rfl, b, e, text, b', e', _, rfl, b'', e'', text', _, rfl, -, t, rfl, ht, hrule⟩
      exact ⟨_, rfl, Draft.callsWith_call ht hrule⟩)
  have hstart := Start.of_name hname (gap ++ (w ++ (gap' ++ [')'])))
  exact Source.statement_of_expr hP hstart (expr_of_negation hP closed_nil hstart.kwLambda
    (negation_of_primary hname hP hprimary hquiet)) source

theorem Rounds.result_all_singleton {α : Type} (t : Rounds α) :
    (Rounds.all [t]).result = t.result.map fun x => [x] := by
  cases t with
  | done log x => cases x <;> rfl
  | wait log next =>
    simp only [all, zip, result_map, result_wait]
    cases next.result <;> rfl

/-- A call with one argument fails with its argument, and is made of its value otherwise. -/
theorem Resolve.result_call_singleton {contexts : List Context} {f : Function} {p : Parameter}
    (hp : f.parameters = [p]) (a : RawArg) : (call contexts ⟨f, [a]⟩).result
      = (argument contexts p a).result.map fun x => ⟨f.name, [x]⟩ := by
  rw [call, hp, Rounds.result_map, List.zipWith_cons_cons, List.zipWith_nil_left,
    Rounds.result_all_singleton]
  cases (argument contexts p a).result <;> rfl

/-- The results in both modes, where a source is narrowed to a call with one argument. -/
theorem result_of_callsWith {A : RawArg → Prop} {source name : String} {catalog : Catalog}
    {f : Function} {p : Parameter} {t : ParseTree}
    (ht : Source.statement source (Source.normalizeChars source.toList) = .ok t)
    (hcalls : Draft.CallsWith name A t) (hfind : catalog.find? name = some f)
    (hp : f.parameters = [p]) (contexts : List Context) :
    ∃ a, A a ∧
      (parseFilter source catalog contexts).result = (Resolve.argument contexts p a).result.map
        (fun x => ⟨.call ⟨f.name, [x]⟩, source⟩) ∧
      (parseAggregation source catalog contexts).result
        = (Resolve.argument contexts p a).result.map fun x => ⟨⟨f.name, [x]⟩, source⟩ := by
  obtain ⟨a, ha, hof, haggregation⟩ := hcalls
    ⟨source.toList, Source.normalizeChars source.toList, catalog⟩ f hfind
    (by rw [Function.arity, hp, List.length_singleton])
  -- both modes narrow to the call with that argument
  have hdraft : Source.draft (fun r => Draft.ofTree r .topLevel) source catalog
      = .ok (.call ⟨f, [a]⟩) := Source.draft_eq_ok_iff.mpr ⟨t, ht, hof _⟩
  have hcall : Source.draft Draft.aggregationOfTree source catalog = .ok ⟨f, [a]⟩ :=
    Source.draft_eq_ok_iff.mpr ⟨t, ht, haggregation⟩
  refine ⟨a, ha, ?_, ?_⟩
  · rw [parseFilter, hdraft, Parsed.result_ofDraft, Resolve.condition, Rounds.result_map,
      Resolve.result_call_singleton hp]
    cases (Resolve.argument contexts p a).result <;> rfl
  · rw [parseAggregation, hcall, Parsed.result_ofDraft, Resolve.result_call_singleton hp]
    cases (Resolve.argument contexts p a).result <;> rfl

/-! ### What is reported -/

/-- All arguments of the call but the unsupported ones are resolved without an error. -/
def DraftCall.ResolvesOthers (contexts : List Context) (c : DraftCall) : Prop :=
  ∀ x ∈ c.function.parameters.zip c.arguments, (∀ piece, x.2 ≠ .unsupported piece) →
    ∃ v, (Resolve.argument contexts x.1 x.2).result = .ok v

/-- An argument of the call is unsupported, and the error says so. -/
def DraftCall.Reports (c : DraftCall) (e : ParseError) : Prop :=
  ∃ piece, .unsupported piece ∈ c.arguments ∧ e = .query (.invalidArgument piece)

namespace Resolve

variable {contexts : List Context} {e : ParseError}

/-- An argument that is unsupported has no other error than that. -/
theorem eq_of_unsupported {p : Parameter} {piece : Snippet} {s : Stage}
    (hs : s ∈ argumentStages contexts p (.unsupported piece)) (he : s.error? = some e) :
    e = .query (.invalidArgument piece) := by
  rcases List.mem_append.mp hs with hs | hs
  · obtain rfl := List.mem_singleton.mp hs
    exact (Option.some.inj he).symm
  · obtain rfl := List.mem_singleton.mp hs
    cases he

/-- Where all other arguments are resolved, the errors are those of unsupported arguments. -/
theorem reports_of_callStages {c : DraftCall} (hc : c.ResolvesOthers contexts) {s : Stage}
    (hs : s ∈ callStages contexts c) (he : s.error? = some e) : c.Reports e := by
  rw [callStages, ← List.map_uncurry_zip_eq_zipWith] at hs
  obtain ⟨_, hstages, hs⟩ := List.mem_flatten.mp hs
  obtain ⟨⟨p, a⟩, hx, rfl⟩ := List.mem_map.mp hstages
  by_cases ha : ∃ piece, a = .unsupported piece
  · obtain ⟨piece, rfl⟩ := ha
    exact ⟨piece, (List.of_mem_zip hx).2, eq_of_unsupported hs he⟩
  · -- an argument that is resolved has no stage with an error
    obtain ⟨v, hv⟩ := hc _ hx (not_exists.mp ha)
    cases argument_told contexts p a with
    | ok hnone => cases (hnone s hs).symm.trans he
    | error _ hends => cases hends.result.symm.trans hv

end Resolve

section Reported

variable {source : String} {catalog : Catalog} {contexts : List Context} {e : ParseError}

/-- **What is reported of a filter** whose arguments are resolved, but for the unsupported ones. -/
theorem parseFilter_reports {d : Draft}
    (hd : Source.draft (fun r => Draft.ofTree r .topLevel) source catalog = .ok d)
    (hcalls : ∀ c ∈ d.calls, c.ResolvesOthers contexts)
    (he : (parseFilter source catalog contexts).result = .error e) :
    ∃ c ∈ d.calls, c.Reports e := by
  rw [parseFilter, hd, Parsed.result_ofDraft, map_eq_error_iff] at he
  obtain ⟨s, hs, herror⟩ := (Resolve.condition_told contexts d).exists_stage he
  obtain ⟨c, hc, hs⟩ := List.mem_flatMap.mp hs
  exact ⟨c, hc, Resolve.reports_of_callStages (hcalls c hc) hs herror⟩

theorem parseAggregation_reports {c : DraftCall}
    (hc : Source.draft Draft.aggregationOfTree source catalog = .ok c)
    (hcall : c.ResolvesOthers contexts)
    (he : (parseAggregation source catalog contexts).result = .error e) : c.Reports e := by
  rw [parseAggregation, hc, Parsed.result_ofDraft, map_eq_error_iff] at he
  obtain ⟨s, hs, herror⟩ := (Resolve.call_told contexts c).exists_stage he
  exact Resolve.reports_of_callStages hcall hs herror

end Reported

/-! ### Integer arguments -/

/-- What becomes of an argument of a source, where it spells `(-1) ^ m * n`. -/
structure RawArg.Settled (m n : ℕ) (source : String) (catalog : Catalog) (contexts : List Context)
    (a : RawArg) : Prop where
  integer : a.IsInteger m n
  /-- An argument that is too large is invalid for every parameter. -/
  invalid : 2 ^ 63 - 1 < n → ∀ p, Resolve.argument contexts p a
    = .ofExcept (.error (.query (.invalidArgument a.snippet)))
  /-- With an argument that is too large a source is accepted in neither mode. -/
  refused : 2 ^ 63 - 1 < n → ¬ Source.Accepted source catalog contexts
  /-- If the other arguments are resolved, or are unsupported as well, an argument that is
  unsupported is what is reported of a filter. -/
  filter : 2 ^ 63 - 1 < n → ∀ d,
    Source.draft (fun r => Draft.ofTree r .topLevel) source catalog = .ok d →
    (∀ c ∈ d.calls, c.ResolvesOthers contexts) →
      ∃ e, (parseFilter source catalog contexts).result = .error e ∧ ∃ c ∈ d.calls, c.Reports e
  /-- And so it is of an aggregation. -/
  aggregation : 2 ^ 63 - 1 < n → ∀ c,
    Source.draft Draft.aggregationOfTree source catalog = .ok c → c.ResolvesOthers contexts →
      ∃ e, (parseAggregation source catalog contexts).result = .error e ∧ c.Reports e

theorem RawArg.IsInteger.settled {source : String} {catalog : Catalog} {contexts : List Context}
    {a : RawArg} (h : a.IsInteger m n)
    (haccepted : Source.Accepted source catalog contexts → n ≤ 2 ^ 63 - 1) :
    a.Settled m n source catalog contexts := by
  -- what is too large is not accepted, so that there is an error to report
  have hrefused : 2 ^ 63 - 1 < n → ¬ Source.Accepted source catalog contexts := fun hn hsource =>
    absurd (haccepted hsource) (not_le.mpr hn)
  refine ⟨h, fun hn => h.resolve hn contexts, hrefused, ?_, ?_⟩
  · intro hn d hd hcalls
    cases hresult : (parseFilter source catalog contexts).result with
    | ok q => exact absurd (.inl ⟨q, hresult⟩) (hrefused hn)
    | error e => exact ⟨e, rfl, parseFilter_reports hd hcalls hresult⟩
  · intro hn c hc hcall
    cases hresult : (parseAggregation source catalog contexts).result with
    | ok q => exact absurd (.inr ⟨q, hresult⟩) (hrefused hn)
    | error e => exact ⟨e, rfl, parseAggregation_reports hc hcall hresult⟩

/-- What a text is as an argument, if it spells `(-1) ^ m * n`. -/
structure IntegerArgument (m n : ℕ) (w : List Char) : Prop where
  /-- Wherever an argument may end behind it, it is an argument. -/
  matched : ∀ v, Closed (skipped v) →
    Matches .spaced argument (w ++ v) (skipped v) (Found (·.rule = .expr))
  /-- In every source, all arguments with this text, and blanks behind it perhaps, are settled. -/
  settled : ∀ {source : String} {tree : ParseTree},
    parse (Source.normalizeChars source.toList) = .ok tree →
    ∀ (catalog : Catalog) (contexts : List Context), tree.Everywhere fun t => t.rule = .call →
      ∀ a ∈ t.children, ∀ gap, (∀ c ∈ gap, c ∈ [' ', '\t', '\r']) → a.text = w ++ gap →
        (Draft.argument ⟨source.toList, Source.normalizeChars source.toList, catalog⟩ a).Settled
          m n source catalog contexts
  /-- As the only argument of a source that is one call, it decides the result in both modes. -/
  alone : ∀ (source : String) (catalog : Catalog) {name : String} {gap gap' : List Char}
    {f : Function} {p : Parameter},
    IsName name → catalog.find? name = some f → f.parameters = [p] →
    (∀ c ∈ gap, c ∈ [' ', '\t', '\r']) → (∀ c ∈ gap', c ∈ [' ', '\t', '\r']) →
    Source.normalizeChars source.toList
      = name.toList ++ '(' :: (gap ++ (w ++ (gap' ++ [')']))) →
    ∀ contexts, ∃ a : RawArg, a.Settled m n source catalog contexts ∧
      (parseFilter source catalog contexts).result = (Resolve.argument contexts p a).result.map
        (fun x => ⟨.call ⟨f.name, [x]⟩, source⟩) ∧
      (parseAggregation source catalog contexts).result
        = (Resolve.argument contexts p a).result.map fun x => ⟨⟨f.name, [x]⟩, source⟩
  /-- Wherever an integer is found behind a minus sign, its negative is one, too. -/
  negated : ∀ (r : Reading) (t : ParseTree) (k : Int64) (piece : Snippet),
    Draft.argument r t = .literal (.int k) piece →
      Draft.applySign? ['-'] (.int k) = some (.int (-k)) ∧ (-k).toInt = -k.toInt

/-- **Integer arguments are exact or rejected.** -/
theorem parse_integers (h : SpelledInteger m n w) : IntegerArgument m n w where
  matched v hv := (h.argument_matches hv).imp fun _ ⟨t, hts, _, hrule⟩ => ⟨t, hts, hrule⟩
  settled := by
    intro source tree hparse catalog contexts
    have hsupported : tree.Everywhere fun t => Source.Accepted source catalog contexts →
        Draft.CallsSupported ⟨source.toList, Source.normalizeChars source.toList, catalog⟩ t := by
      -- an accepted source has supported arguments only
      by_cases hsource : Source.Accepted source catalog contexts
      · exact (hsource.callsSupported hparse).imp fun _ ht _ => ht
      · exact .of_forall (fun _ haccepted => absurd haccepted hsource) tree
    refine (parse_arguments hparse).imp₂ (fun t ht hs hrule a ha gap hgap htext => ?_) hsupported
    have hinteger := (ht hrule a ha).givesInteger h hgap htext
      ⟨source.toList, Source.normalizeChars source.toList, catalog⟩
    exact hinteger.settled fun haccepted =>
      hinteger.le_of_supported (hs haccepted hrule a ha)
  alone := by
    intro source catalog name gap gap' f p hname hfind hp hgap hgap' hnormal contexts
    obtain ⟨t, ht, hcalls⟩ := h.statement hname hgap hgap' source
    obtain ⟨a, ha, hfilter, haggregation⟩ :=
      result_of_callsWith (hnormal ▸ ht) hcalls hfind hp contexts
    refine ⟨a, ha.settled fun haccepted => ?_, hfilter, haggregation⟩
    -- a number that is too large would be reported
    by_contra hn
    have hinvalid := ha.resolve (not_le.mp hn) contexts p
    rw [hinvalid] at hfilter haggregation
    rcases haccepted with ⟨q, hq⟩ | ⟨q, hq⟩
    · cases hfilter.symm.trans hq
    · cases haggregation.symm.trans hq
  negated r t k piece hk := by
    -- no operand is the least integer
    have hne := Draft.argument_int_ne_minValue t k piece hk
    exact ⟨Draft.applySign?_minus hne, toInt_neg_of_ne hne⟩

/-- The negative of the greatest integer is read, with an underscore, two signs and parentheses. The
least integer is refused. -/
theorem parse_integers_limits :
    (∃ k : Int64, (parseFilter "f(-(+9_223372036854775807))" .counting []).result
        = .ok ⟨.call ⟨"f", [.int k]⟩, "f(-(+9_223372036854775807))"⟩ ∧ k.toInt = -(2 ^ 63 - 1)) ∧
    ∃ piece, (parseFilter "f(- 9223372036854775808)" .counting []).result
      = .error (.query (.invalidArgument piece)) := by
  have hname : IsName "f" := ⟨⟨⟨'f', [], rfl, rfl⟩, by decide⟩, by decide⟩
  have hnil : ∀ c ∈ ([] : List Char), c ∈ [' ', '\t', '\r'] := by simp
  have hblank : ∀ c ∈ [' '], c ∈ [' ', '\t', '\r'] := by simp
  constructor
  · have hrow : DigitRow "9223372036854775807".toList "9_223372036854775807".toList :=
      .underscore (by decide) (.of_digits (by decide) (by decide))
    -- the greatest integer
    have hdigits : SpelledInteger 0 (2 ^ 63 - 1) "9_223372036854775807".toList := .digits hrow
    have hspelled := SpelledInteger.minus hnil (.parenthesized hnil (.plus hnil hdigits) hnil)
    obtain ⟨a, ha, hresult, -⟩ := (parse_integers hspelled).alone "f(-(+9_223372036854775807))"
      .counting hname rfl rfl hnil hnil (by decide +kernel) []
    cases ha.integer with
    | @exact k piece _ hk =>
      refine ⟨k, hresult, hk.trans ?_⟩
      norm_num
    | tooLarge hn => exact absurd hn (lt_irrefl _)
  · have hrow : DigitRow "9223372036854775808".toList "9223372036854775808".toList :=
      .of_digits (by decide) (by decide)
    -- one more than it
    have hdigits : SpelledInteger 0 (2 ^ 63) "9223372036854775808".toList := .digits hrow
    obtain ⟨a, ha, hresult, -⟩ := (parse_integers (.minus hblank hdigits)).alone
      "f(- 9223372036854775808)" .counting hname rfl rfl hnil hnil (by decide +kernel) []
    rw [ha.invalid (by norm_num)] at hresult
    exact ⟨a.snippet, hresult⟩

end CatalogQuery
