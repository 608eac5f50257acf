import CatalogQuery.Proofs.Formula.Layout
import CatalogQuery.Proofs.Render.Conditions
import CatalogQuery.Proofs.Resolve.InOrder

/-!
# Formulas are matched as they are read

A formula that is laid out is matched as a disjunction, and the node that is found is narrowed and
resolved to what the formula means in the standard reading (`Standard.matched`). The induction is
over the reading: each tier is matched by a rule of its own, as long as what follows does not go on
with an operator that binds tighter.
-/

namespace CatalogQuery.Formula

open Grammar Source

variable {catalog : Catalog} {contexts : List Context}

/-! ### Nodes and conditions -/

/-- The node is narrowed and resolved to the condition. -/
def Yields (catalog : Catalog) (contexts : List Context) (c : Condition) (t : ParseTree) : Prop :=
  ∀ r : Reading, r.catalog = catalog → ∀ around, ∃ d, Draft.ofTree r around t = .ok d ∧
    Resolve.conditionInOrder contexts d = .ok c

/-- The operands among the nodes are narrowed and resolved to the conditions. -/
def YieldsEach (catalog : Catalog) (contexts : List Context) (operand : Rule)
    (cs : List Condition) (ts : List ParseTree) : Prop :=
  ∀ r : Reading, r.catalog = catalog → ∃ ds, Draft.operands r operand ts = .ok ds ∧
    Resolve.conditionsInOrder contexts ds = .ok cs

theorem layered_yields (c : Condition) : Layered (Yields catalog contexts c) := by
  intro rule b e text t hrule ht r hr around
  rw [Draft.ofTree_layer hrule]
  exact ht r hr around

section Nodes

variable {c : Condition} {cs : List Condition} {t word : ParseTree} {ts : List ParseTree}
  {operand : Rule} {b e : Nat} {text : List Char}

theorem yields_not (h : Yields catalog contexts c t) :
    Yields catalog contexts (.not c) (.node .negation b e text [word, t]) := by
  intro r hr around
  obtain ⟨d, hd, hc⟩ := h r hr .negation
  refine ⟨.not d, ?_, ?_⟩
  · rw [Draft.ofTree, hd]
    rfl
  · rw [Resolve.conditionInOrder, hc]
    rfl

theorem YieldsEach.cons (h : Yields catalog contexts c t) (ht : t.rule = operand)
    (hs : YieldsEach catalog contexts operand cs ts) :
    YieldsEach catalog contexts operand (c :: cs) (t :: ts) := by
  intro r hr
  obtain ⟨d, hd, hc⟩ := h r hr .chain
  obtain ⟨ds, hds, hcs⟩ := hs r hr
  refine ⟨d :: ds, ?_, ?_⟩
  · rw [Draft.operands, if_pos ht, hd, hds]
    rfl
  · rw [Resolve.conditionsInOrder, hc, hcs]
    rfl

theorem YieldsEach.of_paired (h : Paired operand (Yields catalog contexts) cs ts) :
    YieldsEach catalog contexts operand cs ts := by
  induction h with
  | nil => exact fun r _ => ⟨[], rfl, rfl⟩
  | cons hword h ht _ ih =>
    intro r hr
    obtain ⟨ds, hds, hcs⟩ := YieldsEach.cons h ht ih r hr
    exact ⟨ds, by rwa [Draft.operands, if_neg hword], hcs⟩

/-- A level of chains makes a condition of several operands. -/
def Makes (catalog : Catalog) (contexts : List Context) (l : Condition.Level)
    (make : List Condition → Condition) : Prop :=
  ∀ cs ts b e text, ts.length ≠ 1 → YieldsEach catalog contexts l.operand cs ts →
    Yields catalog contexts (make cs) (.node l.rule b e text ts)

theorem makes_all : Makes catalog contexts .conjunction .all := by
  intro cs ts b e text hmany h r hr around
  obtain ⟨ds, hds, hcs⟩ := h r hr
  refine ⟨.all ds, (Draft.ofTree_conjunction hmany).trans (congrArg (Except.map Draft.all) hds), ?_⟩
  rw [Resolve.conditionInOrder, hcs]
  rfl

theorem makes_any : Makes catalog contexts .disjunction .any := by
  intro cs ts b e text hmany h r hr around
  obtain ⟨ds, hds, hcs⟩ := h r hr
  refine ⟨.any ds, (Draft.ofTree_disjunction hmany).trans (congrArg (Except.map Draft.any) hds), ?_⟩
  rw [Resolve.conditionInOrder, hcs]
  rfl

end Nodes

/-! ### Formulas -/

/-- What the induction says of a row of tokens: it is matched by a rule, and what is found yields
the condition. -/
structure Matched (catalog : Catalog) (contexts : List Context) (rule : Rule) (v r : List Char)
    (c : Condition) : Prop where
  start : Start v
  found : Matches .spaced (.rule rule) v r (Found (Yields catalog contexts c))

/-- A formula in parentheses. -/
theorem Matched.group {c : Condition} {u v : List Char}
    (h : Matched catalog contexts .disjunction (skipped u) (')' :: v) c) (hv : Quiet (skipped v)) :
    Matched catalog contexts .negation ('(' :: u) (skipped v) c := by
  have hclosed : Closed (')' :: v) := by
    rintro _ ⟨⟩
    decide
  have hexpr := expr_of_disjunction (layered_yields c) hclosed h.start.kwLambda h.found
  exact ⟨.of_open u, negation_of_expr (layered_yields c) hexpr hclosed.quiet.skipped hv⟩

/-- A formula behind `not`. -/
theorem Matched.not {c : Condition} {u r : List Char} (hu : Ends u)
    (h : Matched catalog contexts .negation (skipped u) r c) :
    Matched catalog contexts .negation ("not".toList ++ u) r (.not c) := by
  refine ⟨.of_word (by decide) (by decide) hu (by decide) (by decide) (by decide),
    (negation_of_not hu h.found).imp ?_⟩
  rintro _ ⟨_, rfl, b, e, text, word, t, rfl, ht⟩
  exact ⟨_, rfl, yields_not ht⟩

/-- Behind a gap a formula begins. -/
theorem Matched.skipped_gap {rule : Rule} {c : Condition} {gap v r : List Char}
    (h : Matched catalog contexts rule v r c) (hgap : ∀ c ∈ gap, c ∈ [' ', '\t']) :
    skipped (gap ++ v) = v :=
  (Formula.skipped_gap hgap v).trans (Mode.next_of_solid .spaced h.start.solid)

/-- The rule that a tier is matched by. -/
def Tier.rule : Tier → Rule
  | .operand | .negation => .negation
  | .conjunction => .conjunction
  | .disjunction => .disjunction

/-- What follows begins with no operator that binds tighter. -/
def Tier.Follows : Tier → List Char → Prop
  | .operand | .negation => Condition.Level.conjunction.Follows
  | .conjunction => Condition.Level.disjunction.Follows
  | .disjunction => Closed

section Chains

variable {α : Type} {spell : α → List Char} {rest v : List Char} {l : Condition.Level}
  {separator : Token α}

/-- The further operands of a chain that is laid out, each behind the word of the chain. -/
theorem Laid.further (hl : l.Regular) (hword : separator.isWord = true)
    (htext : separator.text spell = l.word.toList)
    {others : List (List (Token α) × Condition)}
    (hothers : ∀ p ∈ others, ∀ v rest, Laid spell rest p.1 v → l.Follows (skipped rest) →
      Matched catalog contexts l.operand v (skipped rest) p.2)
    (hrest : l.Follows (skipped rest))
    (h : Laid spell rest ((others.map Prod.fst).flatMap (separator :: ·)) v) :
    Further l.operand l.word (Yields catalog contexts) rest (others.map Prod.snd) v ∧
      l.Follows (skipped v) := by
  induction others generalizing v with
  | nil =>
    cases h
    exact ⟨.nil, hrest⟩
  | cons p others ih =>
    obtain ⟨hp, hothers⟩ := List.forall_mem_cons.mp hothers
    rw [List.map_cons, List.flatMap_cons, List.cons_append] at h
    cases h with
    | @cons _ _ gap u hgap hends h =>
      -- the later operands are matched first, as they say what follows this one
      obtain ⟨w, hfirst, hlater⟩ := h.cut
      obtain ⟨hfurther, hfollows⟩ := ih hothers hlater
      have hmatched := hp u w hfirst hfollows
      have hskipped : skipped (l.word.toList ++ (gap ++ u)) = l.word.toList ++ (gap ++ u) :=
        hl.next_of_follows (hl.follows_word _)
      rw [htext]
      refine ⟨.cons hskipped (ends_of_isWordChar (hends hword))
        (by rw [hmatched.skipped_gap hgap]; exact hmatched.found) hfurther, ?_⟩
      rw [hskipped]
      exact hl.follows_word _

/-- Operands one after the other are matched as a chain: several operands make a node, and a single
one leaves no trace but a layer. -/
theorem Matched.chain (hl : l.Regular) (hlayer : Draft.isLayer l.rule = true)
    {make : List Condition → Condition} (hmake : Makes catalog contexts l make) {c : Condition}
    {cs : List Condition} {u : List Char} (h : Matched catalog contexts l.operand v (skipped u) c)
    (hfurther : Further l.operand l.word (Yields catalog contexts) rest cs u)
    (hend : Refuses .spaced (.rule l.operator) (skipped rest)) :
    Matched catalog contexts l.rule v (skipped rest) (combined make c cs) := by
  -- the body of the rule: the first operand and the further ones
  have hbody := hfurther.chain_matches hl.operatorBody hl.operatorFlavor hl.ne h.found hend
  have hmode : Mode.spaced.inside l.rule.flavor = .spaced := by
    rw [hl.flavor]
    rfl
  refine ⟨h.start, (Matches.rule (m := .spaced) (r := l.rule) rfl
    (by rw [hmode, hl.body]; exact hbody)).imp ?_⟩
  rintro _ ⟨_, rfl, b, e, text, _, rfl, -, t, ts, rfl, ht, hrule, hts⟩
  refine ⟨_, rfl, ?_⟩
  cases cs with
  | nil =>
    -- a single operand is under a layer
    cases hts
    exact layered_yields _ _ _ _ _ _ hlayer ht
  | cons d cs =>
    -- several are the operands of one node
    refine hmake _ _ b e text ?_ (.cons ht hrule (.of_paired hts))
    cases hts
    simp

/-- **A chain that is laid out is matched at its level.** -/
theorem Laid.chain_matched (hl : l.Regular) (hlayer : Draft.isLayer l.rule = true)
    {make : List Condition → Condition} (hmake : Makes catalog contexts l make)
    (hword : separator.isWord = true) (htext : separator.text spell = l.word.toList)
    {first : List (Token α) × Condition} {others : List (List (Token α) × Condition)}
    (hoperands : ∀ p ∈ first :: others, ∀ v rest, Laid spell rest p.1 v →
      l.Follows (skipped rest) → Matched catalog contexts l.operand v (skipped rest) p.2)
    (hrest : l.Follows (skipped rest)) (hend : Refuses .spaced (.rule l.operator) (skipped rest))
    (h : Laid spell rest (separated separator first.1 (others.map Prod.fst)) v) :
    Matched catalog contexts l.rule v (skipped rest)
      (combined make first.2 (others.map Prod.snd)) := by
  -- the layout is cut behind the first operand
  obtain ⟨hfirst, hothers⟩ := List.forall_mem_cons.mp hoperands
  obtain ⟨u, hu, hlater⟩ := h.cut
  obtain ⟨hfurther, hfollows⟩ := hlater.further hl hword htext hothers hrest
  exact (hfirst v u hu hfollows).chain hl hlayer hmake hfurther hend

end Chains

/-- **A formula is matched as it is read**, if its calls are. -/
theorem Standard.matched {α : Type} {spell : α → List Char} {meaning : α → Condition}
    (hcall : ∀ a rest, Quiet (skipped rest) →
      Matched catalog contexts .negation (spell a ++ rest) (skipped rest) (meaning a))
    {tier : Tier} {ts : List (Token α)} {c : Condition} (h : Standard meaning tier ts c)
    {v rest : List Char} (hlaid : Laid spell rest ts v) (hrest : tier.Follows (skipped rest)) :
    Matched catalog contexts tier.rule v (skipped rest) c := by
  induction h generalizing v rest with
  | call a =>
    cases hlaid with
    | @cons _ _ gap u hgap _ h =>
      cases h
      have hskipped := skipped_gap hgap rest
      have hmatched := hcall a (gap ++ rest) (by rwa [hskipped])
      rwa [hskipped] at hmatched
  | group _ ih =>
    cases hlaid with
    | @cons _ _ gap u hgap _ h =>
      -- inside, the closing bracket is what follows
      obtain ⟨w, hinner, hclosing⟩ := h.cut
      cases hclosing with
      | @cons _ _ gap' _ hgap' _ h =>
        cases h
        have hbracket : skipped (')' :: (gap' ++ rest)) = ')' :: (gap' ++ rest) :=
          skipped_cons (by decide) _
        have hclosed : Closed (skipped (')' :: (gap' ++ rest))) := by
          rw [hbracket]
          rintro _ ⟨⟩
          decide
        have hmatched : Matched catalog contexts .disjunction u _ _ := ih hinner hclosed
        have hgroup : Matched catalog contexts .negation ('(' :: (gap ++ u)) _ _ :=
          Matched.group (by rw [hmatched.skipped_gap hgap, ← hbracket]; exact hmatched)
            (by rw [skipped_gap hgap']; exact hrest)
        rwa [skipped_gap hgap'] at hgroup
  -- the tiers of one operand differ by name only
  | operand _ ih => exact ih hlaid hrest
  | not _ ih =>
    cases hlaid with
    | cons hgap hends h =>
      have hmatched := ih h hrest
      exact .not (ends_of_isWordChar (hends rfl)) (by rw [hmatched.skipped_gap hgap]; exact hmatched)
  | conjunction first others _ ih =>
    -- what follows a conjunction follows its operands, too, or is another `and`
    obtain ⟨hquiet, hand⟩ := hrest.quiet_and
    exact hlaid.chain_matched Condition.Level.regular_conjunction rfl makes_all rfl rfl
      (fun p hp v rest h hrest => ih p hp h hrest) hquiet hand
  | disjunction first others _ ih =>
    -- a disjunction is followed by a closing mark or the end, where no `or` begins
    have hor := Condition.closed_refuses_words hrest .kwOr (by simp)
    have hfollows : Condition.Level.disjunction.Follows (skipped rest) := by
      have hall : ∀ c ∈ [',', ')', ']'], c ∈ [',', ')', ']', 'o'] := by decide
      exact fun c hc => hall c (hrest c hc)
    exact hlaid.chain_matched Condition.Level.regular_disjunction rfl makes_any rfl rfl
      (fun p hp v rest h hrest => ih p hp h hrest) hfollows hor

end CatalogQuery.Formula
