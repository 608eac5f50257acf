import CatalogQuery.Proofs.Grammar.Totality

/-!
# The shape of parse trees

`Expr.Finds e ts` says that `ts` is a row of nodes that the expression `e` can find, as far as the
rules of the nodes go: it forgets the text, the order of alternatives and the lookaheads. Since it
is a recursive proposition, unfolding it at the body of a rule lists the shapes that the children of
the rule can have.

A tree is `Grown` if each of its nodes comes from a match of its rule. All trees of `parse` are
(`parse_grown`), and their children are found by the bodies of their rules (`Grown.finds`).
-/

namespace CatalogQuery.Grammar

/-- The rows of nodes that an expression can find. -/
def Expr.Finds : Expr → List ParseTree → Prop
  | .nothing, ts | .atEnd, ts | .text _, ts | .anyCase _, ts | .char _, ts | .absent _, ts => ts = []
  | .rule r, ts => ∃ t, ts = [t] ∧ t.rule = r
  | .seq a b, ts => ∃ us vs, ts = us ++ vs ∧ a.Finds us ∧ b.Finds vs
  | .choice a b, ts => a.Finds ts ∨ b.Finds ts
  | .optional a, ts => ts = [] ∨ a.Finds ts
  | .many a, ts | .more a, ts => ∃ parts, ts = List.flatten parts ∧ ∀ us ∈ parts, a.Finds us

/-- A repetition finds one more row in front. -/
theorem Expr.finds_many_cons {a : Expr} {us vs : List ParseTree} (ha : a.Finds us)
    (hmore : (Expr.more a).Finds vs) : (Expr.many a).Finds (us ++ vs) := by
  obtain ⟨parts, rfl, hparts⟩ := hmore
  exact ⟨us :: parts, rfl, List.forall_mem_cons.mpr ⟨ha, hparts⟩⟩

/-- In a mode that does not record there are no nodes. -/
theorem Reads.eq_nil {m : Mode} {e : Expr} {c c' : Cursor} {ts : List ParseTree}
    (h : Reads m e c (some (c', ts))) (hm : m.records = false) : ts = [] := by
  generalize ho : some (c', ts) = o at h
  induction h generalizing c' ts with
  | nothing | atEnd | text | anyCase | char | optional_none | many_none | more_none | absent =>
    cases ho; rfl
  -- a node would have been recorded
  | node hm' => exact absurd (hm.symm.trans hm') (by simp)
  | @bare m _ _ r _ _ _ ih =>
    refine ih ?_ ho
    cases hr : r.flavor <;> simp [Mode.inside, hm]
  | seq _ _ iha ihb => cases ho; rw [iha hm rfl, ihb hm rfl, List.append_nil]
  | choice_left _ iha | optional_some _ iha => exact iha hm ho
  | choice_right _ _ _ ihb => exact ihb hm ho
  | many_some _ _ iha ihmore => cases ho; rw [iha hm rfl, ihmore hm rfl, List.append_nil]
  | more_some _ _ iha ihmore => cases ho; rw [iha hm rfl, ihmore hm rfl, List.append_nil]
  | atEnd_fails | text_fails | anyCase_fails | char_fails | rule_fails | seq_fails_left
  | seq_fails_right | absent_fails => cases ho

/-- A match finds what its expression can find. -/
theorem Reads.finds {m : Mode} {e : Expr} {c c' : Cursor} {ts : List ParseTree}
    (h : Reads m e c (some (c', ts))) (hm : m.records = true) : e.Finds ts := by
  generalize ho : some (c', ts) = o at h
  induction h generalizing c' ts with
  | nothing | atEnd | text | anyCase | char | absent => cases ho; rfl
  -- one node of the rule itself
  | node => cases ho; exact ⟨_, rfl, rfl⟩
  | bare hm' => exact absurd (hm.symm.trans hm') (by simp)
  | seq _ _ iha ihb => cases ho; exact ⟨_, _, rfl, iha hm rfl, ihb hm rfl⟩
  | choice_left _ iha => exact .inl (iha hm ho)
  | choice_right _ _ _ ihb => exact .inr (ihb hm ho)
  | optional_some _ iha => exact .inr (iha hm ho)
  | optional_none => cases ho; exact .inl rfl
  | many_some _ _ iha ihmore => cases ho; exact Expr.finds_many_cons (iha hm rfl) (ihmore hm rfl)
  | more_some _ _ iha ihmore => cases ho; exact Expr.finds_many_cons (iha hm rfl) (ihmore hm rfl)
  -- repeated no times
  | many_none | more_none => cases ho; exact ⟨[], rfl, by simp⟩
  | atEnd_fails | text_fails | anyCase_fails | char_fails | rule_fails | seq_fails_left
  | seq_fails_right | absent_fails => cases ho

/-! ### Grown trees -/

/-- A tree each of whose nodes comes from a match of its rule. -/
inductive ParseTree.Grown : ParseTree → Prop where
  | node {m : Mode} {r : Rule} {c c' : Cursor} {ts : List ParseTree} (hm : m.records = true)
      (h : Reads (m.inside r.flavor) r.body c (some (c', ts))) (hts : ∀ t ∈ ts, t.Grown) :
      (c.nodeTo c' r ts).Grown

/-- Every node that a match finds is the root of a grown tree. -/
theorem Reads.grown {m : Mode} {e : Expr} {c c' : Cursor} {ts : List ParseTree}
    (h : Reads m e c (some (c', ts))) (hm : m.records = true) : ∀ t ∈ ts, t.Grown := by
  generalize ho : some (c', ts) = o at h
  induction h generalizing c' ts with
  | nothing | atEnd | text | anyCase | char | optional_none | many_none | more_none | absent =>
    cases ho
    simp
  | @node m _ _ r _ hm' h ih =>
    cases ho
    refine List.forall_mem_singleton.mpr (.node hm' h ?_)
    -- a token records nothing of its inside
    cases hr : (m.inside r.flavor).records with
    | true => exact ih hr rfl
    | false => rw [h.eq_nil hr]; simp
  | bare hm' => exact absurd (hm.symm.trans hm') (by simp)
  | seq _ _ iha ihb | many_some _ _ iha ihb | more_some _ _ iha ihb =>
    cases ho
    exact List.forall_mem_append.mpr ⟨iha hm rfl, ihb hm rfl⟩
  | choice_left _ iha | optional_some _ iha => exact iha hm ho
  | choice_right _ _ _ ihb => exact ihb hm ho
  | atEnd_fails | text_fails | anyCase_fails | char_fails | rule_fails | seq_fails_left
  | seq_fails_right | absent_fails => cases ho

theorem parse_grown {cs : List Char} {tree : ParseTree} (h : parse cs = .ok tree) : tree.Grown := by
  obtain ⟨c, hc⟩ := parse_eq_ok_iff.mp h
  exact hc.grown rfl tree (List.mem_singleton_self tree)

theorem parse_rule {cs : List Char} {tree : ParseTree} (h : parse cs = .ok tree) :
    tree.rule = .program := by
  obtain ⟨c, hc⟩ := parse_eq_ok_iff.mp h
  obtain ⟨t, heq, hrule⟩ := hc.finds rfl
  cases heq
  exact hrule

namespace ParseTree

/-- What is known of the children of a node. -/
structure Branches (r : Rule) (children : List ParseTree) : Prop where
  grown : ∀ t ∈ children, t.Grown
  /-- The parts of a token are not nodes. -/
  leaf : r.flavor = .token → children = []
  finds : r.flavor ≠ .token → r.body.Finds children

theorem Grown.branches {r : Rule} {b e : Nat} {text : List Char} {ts : List ParseTree}
    (h : (ParseTree.node r b e text ts).Grown) : Branches r ts := by
  generalize ht : ParseTree.node r b e text ts = t at h
  cases h with
  | @node m r' c c' ts' hm h hts =>
    cases ht
    refine ⟨hts, fun hr => h.eq_nil (by rw [hr]; rfl), fun hr => h.finds ?_⟩
    -- only tokens stop the recording
    cases hr' : r.flavor with
    | token => exact absurd hr' hr
    | spaced | tight => exact hm

/-- The induction over a grown tree. -/
@[elab_as_elim]
theorem Grown.induct {P : ParseTree → Prop}
    (node : ∀ r b e text ts, (ParseTree.node r b e text ts).Grown → (∀ t ∈ ts, P t) →
      P (.node r b e text ts)) {t : ParseTree} (h : t.Grown) : P t := by
  induction h with
  | node hm h hts ih => exact node _ _ _ _ _ (.node hm h hts) ih

end ParseTree

/-! ### Shapes -/

/-- Nodes of two rules in turn: an operand, then an operator before each further operand. -/
def Alternates (operand operator : Rule) (ts : List ParseTree) : Prop :=
  ∃ (first : ParseTree) (pairs : List (ParseTree × ParseTree)),
    ts = first :: pairs.flatMap (fun p => [p.1, p.2]) ∧ first.rule = operand ∧
      ∀ p ∈ pairs, p.1.rule = operator ∧ p.2.rule = operand

/-- A chain finds operands and operators in turn. -/
theorem Expr.Finds.alternates {operand operator : Rule} {ts : List ParseTree}
    (h : (chain (.rule operand) (.rule operator)).Finds ts) : Alternates operand operator ts := by
  obtain ⟨_, _, rfl, ⟨first, rfl, hfirst⟩, parts, rfl, hparts⟩ := h
  refine ⟨first, ?_⟩
  -- the repetition adds one operator and one operand each time
  induction parts with
  | nil => exact ⟨[], rfl, hfirst, by simp⟩
  | cons part parts ih =>
    obtain ⟨hpart, hrest⟩ := List.forall_mem_cons.mp hparts
    obtain ⟨_, _, rfl, ⟨word, rfl, hword⟩, ⟨t, rfl, ht⟩⟩ := hpart
    obtain ⟨pairs, heq, -, hpairs⟩ := ih hrest
    refine ⟨(word, t) :: pairs, ?_, hfirst, List.forall_mem_cons.mpr ⟨⟨hword, ht⟩, hpairs⟩⟩
    rw [List.singleton_append, List.cons.injEq] at heq
    rw [List.flatten_cons, List.flatMap_cons, ← heq.2]
    rfl

namespace Alternates

variable {operand operator : Rule} {ts : List ParseTree}

theorem rule_eq (h : Alternates operand operator ts) :
    ∀ t ∈ ts, t.rule = operand ∨ t.rule = operator := by
  obtain ⟨first, pairs, rfl, hfirst, hpairs⟩ := h
  intro t ht
  rcases List.mem_cons.mp ht with rfl | ht
  · exact .inl hfirst
  · obtain ⟨p, hp, htp⟩ := List.mem_flatMap.mp ht
    rcases List.mem_pair.mp htp with rfl | rfl
    · exact .inr (hpairs p hp).1
    · exact .inl (hpairs p hp).2

/-- More than one node means at least two operands. -/
theorem two_le_operands (h : Alternates operand operator ts) (hmany : ts.length ≠ 1) :
    2 ≤ (ts.filter (·.rule = operand)).length := by
  obtain ⟨first, pairs, rfl, hfirst, hpairs⟩ := h
  cases pairs with
  | nil => exact absurd rfl hmany
  | cons p pairs =>
    have hp : p.2.rule = operand := (hpairs p List.mem_cons_self).2
    -- the first operand and the one behind the first operator
    have hsub : [first, p.2].Sublist (first :: (p :: pairs).flatMap fun p => [p.1, p.2]) :=
      .cons_cons _ (.cons _ (.cons_cons _ (List.nil_sublist _)))
    have hboth : [first, p.2].filter (·.rule = operand) = [first, p.2] := by simp [hfirst, hp]
    have hlen := (hsub.filter fun t => decide (t.rule = operand)).length_le
    rwa [hboth] at hlen

end Alternates

namespace ParseTree.Branches

variable {ts : List ParseTree}

theorem disjunction (h : Branches .disjunction ts) : Alternates .conjunction .kwOr ts :=
  (h.finds (by decide)).alternates

theorem conjunction (h : Branches .conjunction ts) : Alternates .negation .kwAnd ts :=
  (h.finds (by decide)).alternates

/-- A negation that is not a bare comparison is `not` before another negation. -/
theorem negation {word operand : ParseTree} (h : Branches .negation [word, operand]) :
    word.rule = .kwNot ∧ operand.rule = .negation := by
  rcases h.finds (by decide) with h | h
  · obtain ⟨_, _, heq, ⟨t, rfl, ht⟩, ⟨u, rfl, hu⟩⟩ := h
    cases heq
    exact ⟨ht, hu⟩
  · obtain ⟨t, heq, -⟩ := h
    cases heq

/-- A signed expression that is not a bare power is a sign before another signed expression. -/
theorem signed {sign operand : ParseTree} (h : Branches .signed [sign, operand]) :
    sign.rule = .sign ∧ operand.rule = .signed := by
  rcases h.finds (by decide) with h | h
  · obtain ⟨_, _, heq, ⟨t, rfl, ht⟩, ⟨u, rfl, hu⟩⟩ := h
    cases heq
    exact ⟨ht, hu⟩
  · obtain ⟨t, heq, -⟩ := h
    cases heq

/-- The rules that only mark something: the words between operands, signs, commas and the end. -/
def isMark : Rule → Bool
  | .kwAnd | .kwOr | .kwNot | .sign | .comma | .endOfInput => true
  | _ => false

/-- A mark has no parts. -/
theorem of_isMark {r : Rule} (h : Branches r ts) (hr : isMark r = true) : ts = [] := by
  cases r with
  | kwAnd | kwOr | kwNot => exact h.leaf rfl
  | sign => rcases h.finds (by decide) with h | h | h <;> exact h
  | comma | endOfInput => exact h.finds (by decide)
  | _ => cases hr

end ParseTree.Branches

/-! ### All nodes of a tree -/

/-- Every node of the tree has the property. -/
inductive ParseTree.Everywhere (P : ParseTree → Prop) : ParseTree → Prop where
  | node {r : Rule} {b e : Nat} {text : List Char} {ts : List ParseTree}
      (h : P (.node r b e text ts)) (hts : ∀ t ∈ ts, t.Everywhere P) : Everywhere P (.node r b e text ts)

namespace ParseTree.Everywhere

variable {P Q R : ParseTree → Prop} {t : ParseTree}

theorem imp (h : t.Everywhere P) (hPQ : ∀ t, P t → Q t) : t.Everywhere Q := by
  induction h with
  | node h _ ih => exact .node (hPQ _ h) ih

theorem imp₂ (hPQ : ∀ t, P t → Q t → R t) (hP : t.Everywhere P) (hQ : t.Everywhere Q) :
    t.Everywhere R := by
  induction hP with
  | node h _ ih =>
    cases hQ with
    | node h' hts => exact .node (hPQ _ h h') fun t ht => ih t ht (hts t ht)

/-- Beside the only statement of a program there is nothing but the end of the input. -/
theorem of_statement {cs : List Char} {tree : ParseTree} (h : parse cs = .ok tree)
    (hfilter : tree.children.filter (·.rule != .endOfInput) = [t])
    (hP : ∀ u : ParseTree, u.rule = .program ∨ u.rule = .endOfInput → P u) (ht : t.Everywhere P) :
    tree.Everywhere P := by
  have hgrown := parse_grown h
  have hrule := parse_rule h
  obtain ⟨r, b, e, text, ts⟩ := tree
  refine .node (hP _ (.inl hrule)) fun u hu => ?_
  -- the children are the end of the input and the statement
  by_cases hend : u.rule = .endOfInput
  · have hleaf := hgrown.branches.grown u hu
    obtain ⟨r', b', e', text', us⟩ := u
    obtain rfl : r' = .endOfInput := hend
    obtain rfl : us = [] := hleaf.branches.of_isMark rfl
    exact .node (hP _ (.inr rfl)) (by simp)
  · have hmem : u ∈ ts.filter (·.rule != .endOfInput) :=
      List.mem_filter.mpr ⟨hu, by simpa using hend⟩
    have hfilter : ts.filter (·.rule != .endOfInput) = [t] := hfilter
    rw [hfilter] at hmem
    exact List.mem_singleton.mp hmem ▸ ht

end ParseTree.Everywhere

/-! ### Programs -/

theorem finds_separators {ts : List ParseTree} (h : (Expr.many separator).Finds ts) : ts = [] := by
  obtain ⟨parts, rfl, hparts⟩ := h
  rw [List.flatten_eq_nil_iff]
  intro us hus
  rcases hparts us hus with (h | h | h) | h
  · exact h
  · exact h
  · exact h
  · exact h

theorem finds_statement {ts : List ParseTree} (h : statement.Finds ts) :
    ∃ t, ts = [t] ∧ t.rule ∈ [.importStmt, .assignStmt, .exprStmt] := by
  rcases h with ⟨t, rfl, ht⟩ | ⟨t, rfl, ht⟩ | ⟨t, rfl, ht⟩ <;> exact ⟨t, rfl, by simp [ht]⟩

/-- What a rule finds is its own node. -/
theorem Reads.rule_eq {r : Rule} {m : Mode} (hm : m.records = true) {c c' : Cursor} {t : ParseTree}
    (h : Reads m (.rule r) c (some (c', [t]))) : t.rule = r := by
  obtain ⟨u, hu, hrule⟩ := h.finds hm
  rwa [List.singleton_inj.mp hu]

/-- **The frame of a program**: separators, the statements if there are any, and separators up to
the end of the text. -/
theorem Reads.program_frame {c c' : Cursor} {ts : List ParseTree}
    (h : Reads .spaced Rule.program.body c (some (c', ts))) :
    ∃ c₁ c₂ c₃ us final, ts = us ++ [final] ∧ final.rule = .endOfInput ∧
      Reads .spaced (.many separator) (c.skip .spaced) (some (c₁, [])) ∧
      Reads .spaced (.optional (.seq statement (.many (.seq (Expr.manyOne separator) statement))))
        (c₁.skip .spaced) (some (c₂, us)) ∧
      Reads .spaced (.many separator) (c₂.skip .spaced) (some (c₃, [])) ∧
      (c₃.skip .spaced).rest = [] := by
  cases h with
  | @seq _ _ c₀ _ _ _ _ _ hnothing h =>
  cases hnothing
  cases h with
  | @seq _ _ c₁ _ _ _ vs _ hbefore h =>
  -- separators leave no nodes
  obtain rfl : vs = [] := finds_separators (hbefore.finds rfl)
  cases h with
  | @seq _ _ c₂ _ _ _ us xs hstatements hend =>
  cases hend with
  | @seq _ _ c₃ _ _ _ seps last hafter hfinal =>
  obtain rfl : seps = [] := finds_separators (hafter.finds rfl)
  have hrest : (c₃.skip .spaced).rest = [] := by
    cases hfinal with
    | node _ h | bare _ h =>
      cases h with
      | atEnd h => exact h
  obtain ⟨final, rfl, hrule⟩ := hfinal.finds rfl
  exact ⟨c₁, c₂, c₃, us, final, rfl, hrule, hbefore, hstatements, hafter, hrest⟩

/-- **The parts of a program** whose only statement is an expression: separators, the expression,
which is neither an import nor an assignment, and separators up to the end. -/
theorem Reads.program_parts {c c' : Cursor} {ts : List ParseTree} {t : ParseTree}
    (h : Reads .spaced Rule.program.body c (some (c', ts)))
    (hts : ts.filter (·.rule != .endOfInput) = [t]) (ht : t.rule = .exprStmt) :
    ∃ c₁ c₂ c₃, Reads .spaced (.many separator) (c.skip .spaced) (some (c₁, [])) ∧
      Reads .spaced (.rule .importStmt) (c₁.skip .spaced) none ∧
      Reads .spaced (.rule .assignStmt) (c₁.skip .spaced) none ∧
      Reads .spaced (.rule .exprStmt) (c₁.skip .spaced) (some (c₂, [t])) ∧
      Reads .spaced (.seq (Expr.manyOne separator) statement) (c₂.skip .spaced) none ∧
      Reads .spaced (.many separator) ((c₂.skip .spaced).skip .spaced) (some (c₃, [])) ∧
      (c₃.skip .spaced).rest = [] := by
  have hkept : ∀ {u : ParseTree}, u.rule ∈ [.importStmt, .assignStmt, .exprStmt] →
      (u.rule != .endOfInput) = true := fun {u} hu => by
    rw [bne_iff_ne]
    rintro heq
    rw [heq] at hu
    exact absurd hu (by decide)
  obtain ⟨c₁, c₂, c₃, us, final, rfl, hfinal, hbefore, hstatements, hafter, hrest⟩ :=
    h.program_frame
  have hfilter : us.filter (·.rule != .endOfInput) = [t] := by
    rw [← hts]
    simp [hfinal]
  cases hstatements with
  | optional_none => cases hfilter
  | optional_some h =>
  cases h with
  | @seq _ _ c₄ _ _ _ us others hstatement hmore =>
  obtain ⟨u, rfl, hu⟩ := finds_statement (hstatement.finds rfl)
  have hlist : u :: others.filter (·.rule != .endOfInput) = [t] := by
    rw [← hfilter]
    simp [hkept hu]
  obtain ⟨rfl, hothers⟩ := List.cons.inj hlist
  have hnone : Reads .spaced (.seq (Expr.manyOne separator) statement) (c₄.skip .spaced) none ∧
      c₂ = c₄.skip .spaced := by
    cases hmore with
    | many_none hfurther => exact ⟨hfurther, rfl⟩
    | many_some hfurther =>
      -- another statement would have been found
      obtain ⟨_, _, rfl, -, hfound⟩ := hfurther.finds rfl
      obtain ⟨v, rfl, hv⟩ := finds_statement hfound
      rw [List.filter_eq_nil_iff] at hothers
      exact absurd (hkept hv) (hothers v (by simp))
  obtain ⟨hnone, rfl⟩ := hnone
  cases hstatement with
  | choice_left h => cases ht.symm.trans (h.rule_eq rfl)
  | choice_right himport h =>
  cases h with
  | choice_left h => cases ht.symm.trans (h.rule_eq rfl)
  | choice_right hassign h => exact ⟨_, _, _, hbefore, himport, hassign, h, hnone, hafter, hrest⟩

/-- **The statement of a program**, if it is its only one and an expression. What holds at the
beginning and is kept by blanks and separators holds where the statement begins. -/
theorem Reads.program_statement {I : Cursor → Prop} (hskip : ∀ c, I c → I (c.skip .spaced))
    (hseparators : ∀ c c' us, Reads .spaced (.many separator) c (some (c', us)) → I c → I c')
    {c c' : Cursor} {ts : List ParseTree} {t : ParseTree}
    (h : Reads .spaced Rule.program.body c (some (c', ts))) (hc : I c)
    (hts : ts.filter (·.rule != .endOfInput) = [t]) (ht : t.rule = .exprStmt) :
    ∃ c₁ c₂, I c₁ ∧ Reads .spaced (.rule .exprStmt) c₁ (some (c₂, [t])) := by
  obtain ⟨c₁, c₂, _, hbefore, -, -, hexpr, -⟩ := h.program_parts hts ht
  exact ⟨_, c₂, hskip _ (hseparators _ _ _ hbefore (hskip _ hc)), hexpr⟩

end CatalogQuery.Grammar
