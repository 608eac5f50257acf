import CatalogQuery.Proofs.Query.Readable
import CatalogQuery.Proofs.Render.Spelled
import CatalogQuery.Proofs.Render.Statements
import Mathlib.Algebra.Order.BigOperators.Group.List

/-!
# Rendered queries are read again

The rendering of an accepted query is accepted as the same query exactly if none of its names is
some spelling of `and`, `or` or `not` (`parse_render_iff`). Such a name can get into a query: a
carriage return ends a comment for the grammar but not for normalization, which leaves the word
behind it as it is (`not_parse_render`).

If no name is such a word, the rendering is its own normal form and is read as it was written. If
one is, normalization lowers it, so that the normal form has fewer capital letters outside quotes
than the atoms of the query would need.
-/

namespace CatalogQuery

open Grammar

/-- Some spelling of `and`, `or` or `not`. -/
def IsOperator (n : String) : Prop := n.toList.map Char.toLower ∈ Source.lowered

instance (n : String) : Decidable (IsOperator n) := inferInstanceAs (Decidable (_ ∈ _))

theorem settle_of_not_isOperator {n : String} (hn : ¬ IsOperator n) :
    Source.settle n.toList = n.toList := if_neg hn

/-! ### Queries without operators among their names -/

section Again

variable {catalog : Catalog} {contexts : List Context}

/-- **A filter whose names are no operators is read again.** -/
theorem parseFilter_render (hplain : catalog.Plain) {c : Condition}
    (hc : c.Built (Call.Replays catalog contexts))
    (hnames : ∀ n, .name n ∈ c.leaves → ¬ IsOperator n) :
    (parseFilter c.render catalog contexts).result = .ok ⟨c, c.render⟩ := by
  have hreadable : c.Built Call.Readable := hc.imp fun _ h => h.readable
  have hsettled : ∀ call ∈ c.calls, call.Settled catalog contexts :=
    (hc.imp fun _ h => h.settled).of_calls
  have hnormal : Source.normalizeChars c.render.toList = c.write := by
    rw [Condition.render, String.toList_ofList]
    exact hreadable.spelled.normal (fun n hn => settle_of_not_isOperator (hnames n hn)) 0
  obtain ⟨t, ht, hshown⟩ := hreadable.statement c.render
  obtain ⟨d, hd, hdenotes⟩ := hshown ⟨c.render.toList, c.write, catalog⟩
    (fun call hcall => (hsettled call hcall).fits) .topLevel
  -- the normal form is what was written, and it was shown to be matched
  refine parseFilter_eq_ok_iff.mpr ⟨t, d, ?_, ?_, ?_, rfl⟩
  · rw [hnormal]
    exact ht
  · rw [hnormal]
    exact hd
  · exact Resolve.conditionInOrder_of_denotes hplain d c hdenotes hsettled

/-- **An aggregation whose names are no operators is read again.** -/
theorem parseAggregation_render (hplain : catalog.Plain) {c : Call}
    (hc : c.Replays catalog contexts) (hnames : ∀ n, .name n ∈ c.leaves → ¬ IsOperator n) :
    (parseAggregation c.render catalog contexts).result = .ok ⟨c, c.render⟩ := by
  -- the written text is its own normal form
  have hnormal : Source.normalizeChars c.render.toList = c.write := by
    rw [Call.render, String.toList_ofList]
    exact hc.readable.spelled.normal (fun n hn => settle_of_not_isOperator (hnames n hn)) 0
  obtain ⟨t, ht, hshown⟩ := hc.readable.statement c.render
  obtain ⟨d, hdenotes, -, hd⟩ := hshown ⟨c.render.toList, c.write, catalog⟩ hc.settled.fits
  refine parseAggregation_eq_ok_iff.mpr ⟨t, d, ?_, ?_, ?_, rfl⟩
  · rw [hnormal]
    exact ht
  · rw [hnormal]
    exact hd
  · exact Resolve.callInOrder_of_denotes hplain hdenotes hc.settled

end Again

/-! ### Capital letters -/

/-- A literal has no more capital letters than its atom. -/
theorem capitals_literal_le {t : ParseTree} {l : Literal} (h : Draft.literal? t = some l) :
    Leaf.capitals id (.value l.value) ≤ t.atomCapitals := by
  -- only the literals that are words have capital letters
  have hcases : (∃ n, l = .int n) ∨ (∃ x, l = .float x) ∨ (∃ s, l = .str s) ∨
      t.rule ∈ [Rule.trueLit, .falseLit, .noneLit] := by
    unfold Draft.literal? at h
    split at h <;> rename_i hrule
    · obtain ⟨n, -, rfl⟩ := Option.map_eq_some_iff.mp h
      exact .inl ⟨n, rfl⟩
    · obtain ⟨x, -, rfl⟩ := Option.map_eq_some_iff.mp h
      exact .inr (.inl ⟨x, rfl⟩)
    · obtain ⟨cs, -, rfl⟩ := Option.map_eq_some_iff.mp h
      exact .inr (.inr (.inl ⟨_, rfl⟩))
    · exact .inr (.inr (.inr (by simp [hrule])))
    · exact .inr (.inr (.inr (by simp [hrule])))
    · exact .inr (.inr (.inr (by simp [hrule])))
    · cases h
  rcases hcases with ⟨n, rfl⟩ | ⟨x, rfl⟩ | ⟨s, rfl⟩ | hrule
  · exact Nat.zero_le _
  · exact Nat.zero_le _
  · exact Nat.zero_le _
  · have hone : t.atomCapitals = 1 := by
      rw [ParseTree.atomCapitals]
      simp only [List.mem_cons, List.not_mem_nil, or_false] at hrule
      rcases hrule with hrule | hrule | hrule <;> rw [hrule]
    have hle : Leaf.capitals id (.value l.value) ≤ 1 := by
      cases l <;> simp [Literal.value, Leaf.capitals]
    omega

/-- A leaf of a query has no more capital letters than the atom that it comes from. -/
theorem Leaf.capitals_le {t : ParseTree} {l l' : Leaf} (hread : Draft.ReadAs t l)
    (hbecomes : Resolve.Becomes l l') : l'.capitals id ≤ t.atomCapitals := by
  cases hbecomes with
  | name n =>
    generalize hl : Leaf.name n = l at hread
    cases hread with
    | name ht =>
      cases hl
      rw [capitals, String.toList_ofList, ParseTree.atomCapitals, ht]
      exact Nat.le_refl _
    | literal | negInt | negFloat => cases hl
  | @value v w hcast =>
    cases hcast with
    -- numbers have no capital letters
    | widened n => exact Nat.zero_le _
    | same =>
      generalize hl : Leaf.value v = l at hread
      cases hread with
      | name => cases hl
      | literal ht => cases hl; exact capitals_literal_le ht
      | negInt | negFloat => cases hl; exact Nat.zero_le _

/-- The leaves of a query have no more capital letters than the tree that it comes from. -/
theorem capitals_leaves_le {t : ParseTree} {ls ls' : List Leaf}
    (hread : List.Forall₂ Draft.ReadAs t.atoms ls) (hbecomes : List.Forall₂ Resolve.Becomes ls ls') :
    (ls'.map (Leaf.capitals id)).sum ≤ t.capitals := by
  have hboth := forall₂_comp hread hbecomes
    (T := fun t l => Leaf.capitals id l ≤ ParseTree.atomCapitals t)
    fun _ _ _ => Leaf.capitals_le
  exact sum_map_le_of_forall₂ (fun _ _ h => h) hboth

theorem toLower_of_capitals {w : List Char} (hw : capitals w = 0) : w.map Char.toLower = w := by
  have hall := List.countP_eq_zero.mp hw
  conv_rhs => rw [← List.map_id w]
  refine List.map_congr_left fun c hc => ?_
  have hlower : ¬ c.isUpper = true := hall c hc
  exact dif_neg fun hupper => hlower (decide_eq_true hupper)

/-- Operators have capital letters where they are names, and none in normal form. -/
theorem capitals_settle_lt {n : String} (hn : IsName n) (hoperator : IsOperator n) :
    capitals (Source.settle n.toList) < capitals n.toList := by
  have hlowered : ∀ w ∈ Source.lowered, w ∈ reservedWords ∧ capitals w = 0 := by decide
  have hsettle : Source.settle n.toList = n.toList.map Char.toLower := if_pos hoperator
  rw [hsettle, (hlowered _ hoperator).2]
  -- a spelling without capital letters is reserved, and no name
  by_contra hzero
  have hsame := toLower_of_capitals (Nat.eq_zero_of_not_pos hzero)
  exact hn.free (hsame ▸ (hlowered _ hoperator).1)

theorem capitals_settle_le {l : Leaf} (hl : l.Readable) :
    l.capitals Source.settle ≤ l.capitals id := by
  cases l with
  | name n =>
    by_cases hoperator : IsOperator n
    · exact Nat.le_of_lt (capitals_settle_lt hl hoperator)
    · rw [Leaf.capitals, settle_of_not_isOperator hoperator]
      exact Nat.le_refl _
  | value v => cases v <;> exact Nat.le_refl _

/-- **No name is an operator** if normalization takes no capital letter away. -/
theorem not_isOperator_of_capitals {ls : List Leaf} (hls : ∀ l ∈ ls, l.Readable)
    (h : (ls.map (Leaf.capitals id)).sum ≤ (ls.map (Leaf.capitals Source.settle)).sum) :
    ∀ n, .name n ∈ ls → ¬ IsOperator n := by
  intro n hn hoperator
  have hlt := List.sum_lt_sum (Leaf.capitals Source.settle) (Leaf.capitals id)
    (fun l hl => capitals_settle_le (hls l hl)) ⟨_, hn, capitals_settle_lt (hls _ hn) hoperator⟩
  omega

/-! ### Queries that are read again -/

section Names

variable {catalog : Catalog} {contexts : List Context}

/-- What the narrowing and the resolution of the rendering show of its names. -/
theorem not_isOperator_of_statement {source : String} {ls ls' : List Leaf} {cs : List Char}
    {t : ParseTree} (hls : ∀ l ∈ ls, l.Readable) (hspelled : Render.Spelled ls cs)
    (ht : Source.statement source (Source.normalizeChars cs) = .ok t)
    (hread : List.Forall₂ Draft.ReadAs t.atoms ls')
    (hbecomes : List.Forall₂ Resolve.Becomes ls' ls) : ∀ n, .name n ∈ ls → ¬ IsOperator n := by
  have hatoms := capitals_leaves_le hread hbecomes
  have hcode := Source.statement_capitals_le ht (hspelled.code 0)
  exact not_isOperator_of_capitals hls (Nat.le_trans hatoms hcode)

theorem not_isOperator_of_parseFilter (hplain : catalog.Plain) {c : Condition}
    (hc : c.Built Call.Readable) {q : Query Condition}
    (h : (parseFilter c.render catalog contexts).result = .ok q) (hq : q.root = c) :
    ∀ n, .name n ∈ c.leaves → ¬ IsOperator n := by
  obtain ⟨t, d, ht, hd, hroot, -⟩ := parseFilter_eq_ok_iff.mp h
  obtain ⟨tree, -, hgrown, -⟩ := Source.statement_atoms ht
  have hwell := Draft.ofTree_wellFormed hgrown _ _ hd
  obtain ⟨hsupported, hbecomes, -⟩ := Resolve.conditionInOrder_leaves hwell hplain _ hroot
  obtain ⟨hread, -⟩ := Draft.ofTree_leaves hgrown _ _ hd hsupported
  rw [Condition.render, String.toList_ofList] at ht
  rw [hq] at hbecomes
  exact not_isOperator_of_statement hc.leaves hc.spelled ht hread hbecomes

theorem not_isOperator_of_parseAggregation (hplain : catalog.Plain) {c : Call} (hc : c.Readable)
    {q : Query Call} (h : (parseAggregation c.render catalog contexts).result = .ok q)
    (hq : q.root = c) : ∀ n, .name n ∈ c.leaves → ¬ IsOperator n := by
  obtain ⟨t, d, ht, hd, hroot, -⟩ := parseAggregation_eq_ok_iff.mp h
  obtain ⟨tree, -, hgrown, -⟩ := Source.statement_atoms ht
  have hwell := Draft.aggregationOfTree_wellFormed hgrown hd
  obtain ⟨hsupported, hbecomes, -⟩ := Resolve.callInOrder_leaves hwell hplain hroot
  obtain ⟨hread, -⟩ := Draft.aggregationOfTree_leaves hgrown hd hsupported
  rw [Call.render, String.toList_ofList] at ht
  rw [hq] at hbecomes
  exact not_isOperator_of_statement hc.leaves hc.spelled ht hread hbecomes

end Names

/-- **When the rendering of an accepted query is accepted as the same query**: exactly if none of
its functions and contexts is called `and`, `or` or `not` in any case. -/
theorem parse_render_iff {catalog : Catalog} (hplain : catalog.Plain) (contexts : List Context)
    (source : String) :
    (∀ q, (parseFilter source catalog contexts).result = .ok q →
      ((∃ q', (parseFilter q.root.render catalog contexts).result = .ok q' ∧ q'.root = q.root) ↔
        ∀ n, .name n ∈ q.root.leaves → ¬ IsOperator n)) ∧
    (∀ q, (parseAggregation source catalog contexts).result = .ok q →
      ((∃ q', (parseAggregation q.root.render catalog contexts).result = .ok q' ∧
          q'.root = q.root) ↔
        ∀ n, .name n ∈ q.root.leaves → ¬ IsOperator n)) := by
  constructor
  · intro q hq
    -- an accepted query resolves to itself from its values
    have hreplays := parseFilter_replays hq
    constructor
    · rintro ⟨q', hq', hroot⟩
      exact not_isOperator_of_parseFilter hplain (hreplays.imp fun _ h => h.readable) hq' hroot
    · intro hnames
      exact ⟨_, parseFilter_render hplain hreplays hnames, rfl⟩
  · intro q hq
    have hreplays := parseAggregation_replays hq
    constructor
    · rintro ⟨q', hq', hroot⟩
      exact not_isOperator_of_parseAggregation hplain hreplays.readable hq' hroot
    · intro hnames
      exact ⟨_, parseAggregation_render hplain hreplays hnames, rfl⟩

/-- A catalog with functions that have the names of operators. -/
def Catalog.operators : Catalog :=
  ⟨[⟨"Or", none, [⟨"a", .int, none⟩]⟩, ⟨"Any", none, [⟨"a", .list .str, none⟩]⟩]⟩

/-- Over this catalog a call is read again, and a call of a function that is called `Or` is not. -/
theorem parse_render_operators :
    (∃ q, (parseFilter "not Any(['or', 'Not'])" .operators []).result = .ok q ∧
      ∃ q', (parseFilter q.root.render .operators []).result = .ok q' ∧ q'.root = q.root) ∧
    (∃ q, (parseAggregation "# c\rOr(1)" .operators []).result = .ok q ∧
      ¬ ∃ q', (parseAggregation q.root.render .operators []).result = .ok q' ∧
        q'.root = q.root) := by
  have hplain : Catalog.operators.Plain := by
    simp [Catalog.Plain, Catalog.operators]
  constructor
  · -- the operators between quotes are no names
    have hnames : (parseFilter "not Any(['or', 'Not'])" .operators []).result.toOption.any
        (fun q => q.root.leaves.all fun l =>
          l.casesOn (fun n => decide (¬ IsOperator n)) fun _ => true) = true := by decide +kernel
    cases hq : (parseFilter "not Any(['or', 'Not'])" .operators []).result with
    | error e => rw [hq] at hnames; cases hnames
    | ok q =>
      rw [hq] at hnames
      refine ⟨q, rfl, ((parse_render_iff hplain [] "not Any(['or', 'Not'])").1 q hq).mpr ?_⟩
      intro n hn
      simpa using List.all_eq_true.mp hnames _ hn
  · -- behind the carriage return the name is not lowered, and as rendered it is
    have hnames : (parseAggregation "# c\rOr(1)" .operators []).result.toOption.any
        (fun q => q.root.function == "Or") = true := by decide +kernel
    cases hq : (parseAggregation "# c\rOr(1)" .operators []).result with
    | error e => rw [hq] at hnames; cases hnames
    | ok q =>
      rw [hq] at hnames
      have hname : q.root.function = "Or" := eq_of_beq hnames
      refine ⟨q, rfl, fun h => ?_⟩
      refine ((parse_render_iff hplain [] "# c\rOr(1)").2 q hq).mp h "Or" ?_ (by decide)
      rw [Call.leaves, hname]
      exact List.mem_cons_self

/-- **Some accepted filter is not accepted as it is rendered.** -/
theorem not_parse_render :
    ¬ ∀ (catalog : Catalog) (contexts : List Context) (source : String), catalog.Plain →
      ∀ q, (parseFilter source catalog contexts).result = .ok q →
        ∃ q', (parseFilter q.root.render catalog contexts).result = .ok q' ∧ q'.root = q.root := by
  intro hall
  have hplain : Catalog.operators.Plain := by
    simp [Catalog.Plain, Catalog.operators]
  have haccepted : (parseFilter "# c\rOr(1)" .operators []).result.toOption.any
      (fun q => q.root.render == "Or(1)") = true := by decide +kernel
  have hrefused : (parseFilter "Or(1)" .operators []).result.toOption.isNone = true := by
    decide +kernel
  cases hq : (parseFilter "# c\rOr(1)" .operators []).result with
  | error e => rw [hq] at haccepted; cases haccepted
  | ok q =>
    rw [hq] at haccepted
    have hrender : q.root.render = "Or(1)" := eq_of_beq haccepted
    -- the name is lowered in the rendering, where no comment stands before it
    obtain ⟨q', hq', -⟩ := hall .operators [] "# c\rOr(1)" hplain q hq
    rw [← hrender, hq'] at hrefused
    cases hrefused

end CatalogQuery
