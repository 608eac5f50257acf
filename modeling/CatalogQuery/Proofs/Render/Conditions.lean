import CatalogQuery.Proofs.Grammar.Chains
import CatalogQuery.Proofs.Query.Leaves
import CatalogQuery.Proofs.Render.Calls

/-!
# Written conditions are matched

The text of a condition of readable calls is matched as an expression from which narrowing makes a
draft of the condition again (`Condition.Built.matched`). Operands of chains and of `not` are
matched as negations, chains among them inside parentheses; this is what the induction is about
(`Condition.OperandMatched`).
-/

namespace CatalogQuery

open Grammar

/-- All calls of the condition fit the catalog. -/
def Condition.Fits (catalog : Catalog) (c : Condition) : Prop := ∀ call ∈ c.calls, call.Fits catalog

/-- The draft has the shape of the condition, and its calls denote those of the condition. -/
inductive Draft.Denotes (catalog : Catalog) : Draft → Condition → Prop where
  | all {ds : List Draft} {cs : List Condition} (h : List.Forall₂ (Denotes catalog) ds cs) :
      Denotes catalog (.all ds) (.all cs)
  | any {ds : List Draft} {cs : List Condition} (h : List.Forall₂ (Denotes catalog) ds cs) :
      Denotes catalog (.any ds) (.any cs)
  | not {d : Draft} {c : Condition} (h : Denotes catalog d c) : Denotes catalog (.not d) (.not c)
  | call {d : DraftCall} {c : Call} (h : d.Denotes catalog c) : Denotes catalog (.call d) (.call c)

namespace Condition

/-- Narrowing makes of the node a draft that denotes the condition, wherever its calls fit. -/
def ShownBy (c : Condition) (t : ParseTree) : Prop :=
  ∀ r, c.Fits r.catalog → ∀ around, ∃ d, Draft.ofTree r around t = .ok d ∧ d.Denotes r.catalog c

theorem layered_shownBy (c : Condition) : Layered c.ShownBy := by
  intro rule b e text t hrule ht r hr around
  rw [Draft.ofTree_layer hrule]
  exact ht r hr around

theorem shownBy_call {c : Call} {t : ParseTree} (h : c.ShownBy t) : (Condition.call c).ShownBy t := by
  intro r hr around
  obtain ⟨d, hd, hfilter, -⟩ := h r (hr c (by simp [calls]))
  exact ⟨.call d, hfilter around, .call hd⟩

theorem shownBy_not {c : Condition} {b e : Nat} {text : List Char} {word t : ParseTree}
    (h : c.ShownBy t) : (Condition.not c).ShownBy (.node .negation b e text [word, t]) := by
  intro r hr around
  obtain ⟨d, hd, hdenotes⟩ := h r hr .negation
  refine ⟨.not d, ?_, .not hdenotes⟩
  rw [Draft.ofTree, hd]
  rfl

/-! ### Chains -/

/-- Words and operands in turn, the operands showing the given conditions. -/
inductive Chained (operand : Rule) : List Condition → List ParseTree → Prop where
  | nil : Chained operand [] []
  | cons {c : Condition} {cs : List Condition} {word t : ParseTree} {ts : List ParseTree}
      (hword : word.rule ≠ operand) (h : c.ShownBy t) (ht : t.rule = operand)
      (hs : Chained operand cs ts) : Chained operand (c :: cs) (word :: t :: ts)

theorem Chained.of_paired {operand : Rule} {cs : List Condition} {ts : List ParseTree}
    (h : Paired operand ShownBy cs ts) : Chained operand cs ts := by
  induction h with
  | nil => exact .nil
  | cons hword h ht _ ih => exact .cons hword h ht ih

theorem Chained.operands {operand : Rule} {cs : List Condition} {ts : List ParseTree} {r : Reading}
    (h : Chained operand cs ts) (hfits : ∀ c ∈ cs, c.Fits r.catalog) :
    ∃ ds, Draft.operands r operand ts = .ok ds ∧
      List.Forall₂ (Draft.Denotes r.catalog) ds cs := by
  induction h with
  | nil => exact ⟨[], rfl, .nil⟩
  | cons hword h ht _ ih =>
    obtain ⟨hc, hcs⟩ := List.forall_mem_cons.mp hfits
    obtain ⟨d, hd, hdenotes⟩ := h r hc .chain
    obtain ⟨ds, hds, hrest⟩ := ih hcs
    refine ⟨d :: ds, ?_, .cons hdenotes hrest⟩
    -- the operator is left out, and its operand is narrowed
    rw [Draft.operands, if_neg hword, Draft.operands, if_pos ht, hd, hds]
    rfl

theorem fits_of_each {catalog : Catalog} {cs : List Condition}
    (h : ∀ call ∈ callsOfEach cs, call.Fits catalog) : ∀ c ∈ cs, c.Fits catalog := by
  intro c hc call hcall
  apply h
  rw [callsOfEach_eq]
  exact List.mem_flatMap.mpr ⟨c, hc, hcall⟩

/-- The operands of a chain, the first one included. -/
theorem Chained.operands_cons {operand : Rule} {c : Condition} {cs : List Condition}
    {t : ParseTree} {ts : List ParseTree} {r : Reading} (h : c.ShownBy t) (ht : t.rule = operand)
    (hs : Chained operand cs ts) (hfits : ∀ call ∈ callsOfEach (c :: cs), call.Fits r.catalog) :
    ∃ ds, Draft.operands r operand (t :: ts) = .ok ds ∧
      List.Forall₂ (Draft.Denotes r.catalog) ds (c :: cs) := by
  obtain ⟨hc, hcs⟩ := List.forall_mem_cons.mp (fits_of_each hfits)
  obtain ⟨d, hd, hdenotes⟩ := h r hc .chain
  obtain ⟨ds, hds, hrest⟩ := hs.operands hcs
  refine ⟨d :: ds, ?_, .cons hdenotes hrest⟩
  rw [Draft.operands, if_pos ht, hd, hds]
  rfl

theorem shownBy_all {c : Condition} {cs : List Condition} {t : ParseTree} {ts : List ParseTree}
    {b e : Nat} {text : List Char} (hne : cs ≠ []) (h : c.ShownBy t) (ht : t.rule = .negation)
    (hs : Chained .negation cs ts) :
    (Condition.all (c :: cs)).ShownBy (.node .conjunction b e text (t :: ts)) := by
  intro r hr around
  obtain ⟨ds, hds, hdenotes⟩ := Chained.operands_cons h ht hs hr
  refine ⟨.all ds, ?_, .all hdenotes⟩
  cases hs with
  | nil => exact absurd rfl hne
  | cons =>
    rw [Draft.ofTree_conjunction (by simp), hds]
    rfl

theorem shownBy_any {c : Condition} {cs : List Condition} {t : ParseTree} {ts : List ParseTree}
    {b e : Nat} {text : List Char} (hne : cs ≠ []) (h : c.ShownBy t) (ht : t.rule = .conjunction)
    (hs : Chained .conjunction cs ts) :
    (Condition.any (c :: cs)).ShownBy (.node .disjunction b e text (t :: ts)) := by
  intro r hr around
  obtain ⟨ds, hds, hdenotes⟩ := Chained.operands_cons h ht hs hr
  refine ⟨.any ds, ?_, .any hdenotes⟩
  cases hs with
  | nil => exact absurd rfl hne
  | cons =>
    rw [Draft.ofTree_disjunction (by simp), hds]
    rfl

/-! ### Operands -/

/-- An operand of a chain or of `not` as query text. -/
def writeOperand (c : Condition) : List Char := parenthesized c.isChain c.write

/-- The operands of a chain after the first, each after the word of the chain. -/
def writeFurther (word : List Char) (cs : List Condition) : List Char :=
  cs.flatMap fun c => ' ' :: (word ++ ' ' :: c.writeOperand)

theorem writeOperands_cons (word : List Char) (c : Condition) (cs : List Condition) :
    writeOperands (' ' :: (word ++ [' '])) (c :: cs) = c.writeOperand ++ writeFurther word cs := by
  induction cs generalizing c with
  | nil => rw [writeOperands]; simp [writeFurther, writeOperand]
  | cons d cs ih =>
    rw [writeOperands, ih, writeFurther, writeFurther, List.flatMap_cons]
    · simp [writeOperand]
    · simp

/-- What the induction says of an operand in front of a text: it is matched as a negation that
shows the condition. -/
structure OperandMatched (c : Condition) (rest : List Char) : Prop where
  start : Start (c.writeOperand ++ rest)
  negation : Matches .spaced (.rule .negation) (c.writeOperand ++ rest) (skipped rest)
    (Found c.ShownBy)

/-- What the induction says of a whole condition in front of a text. -/
structure WholeMatched (c : Condition) (rest : List Char) : Prop where
  start : Start (c.write ++ rest)
  expr : Matches .spaced (.rule .expr) (c.write ++ rest) rest (Found c.ShownBy)

theorem operandMatched_call {c : Call} (hc : c.Readable) {rest : List Char}
    (hrest : Quiet (skipped rest)) : OperandMatched (.call c) rest := by
  refine ⟨hc.start rest, (hc.negation_matches hrest).imp ?_⟩
  rintro _ ⟨t, rfl, ht⟩
  exact ⟨t, rfl, shownBy_call ht⟩

theorem operandMatched_not {c : Condition} {rest : List Char} (h : OperandMatched c rest) :
    OperandMatched (.not c) rest := by
  have htext : (Condition.not c).writeOperand ++ rest
      = "not".toList ++ ' ' :: (c.writeOperand ++ rest) := by
    show (Condition.not c).write ++ rest = _
    rw [write]
    simp [writeOperand]
  have hends : Ends (' ' :: (c.writeOperand ++ rest)) := by
    rintro _ ⟨⟩
    rfl
  -- one blank is skipped between the word and the operand
  have hnext : skipped (' ' :: (c.writeOperand ++ rest)) = c.writeOperand ++ rest :=
    (skipped_blank _).trans (Mode.next_of_solid .spaced h.start.solid)
  constructor
  · rw [htext]
    exact .of_word (by decide) (by decide) hends (by decide) (by decide) (by decide)
  · rw [htext]
    refine (negation_of_not hends (by rw [hnext]; exact h.negation)).imp ?_
    rintro _ ⟨_, rfl, b, e, text, word, t, rfl, ht⟩
    exact ⟨_, rfl, shownBy_not ht⟩

/-- A condition that is not a chain is an operand as it is. -/
theorem wholeMatched_of_operand {c : Condition} (hc : c.isChain = false) {rest : List Char}
    (hrest : Closed rest) (h : OperandMatched c rest) : WholeMatched c rest := by
  have htext : c.writeOperand = c.write := by
    rw [writeOperand, hc]
    rfl
  have hstart := h.start
  have hnegation := h.negation
  rw [hrest.quiet.skipped] at hnegation
  rw [htext] at hstart hnegation
  exact ⟨hstart, expr_of_negation (layered_shownBy c) hrest hstart.kwLambda hnegation⟩

/-- A chain is an operand in parentheses. -/
theorem operandMatched_of_whole {c : Condition} (hc : c.isChain = true) {rest : List Char}
    (hrest : Quiet (skipped rest)) (h : WholeMatched c (')' :: rest)) : OperandMatched c rest := by
  have htext : c.writeOperand ++ rest = '(' :: (c.write ++ ')' :: rest) := by
    rw [writeOperand, hc, parenthesized]
    simp
  -- nothing is skipped inside the parentheses
  have hnext : skipped (c.write ++ ')' :: rest) = c.write ++ ')' :: rest :=
    Mode.next_of_solid .spaced h.start.solid
  have hclose : skipped (')' :: rest) = ')' :: rest := skipped_cons (by decide) rest
  constructor
  · rw [htext]
    exact .of_open _
  · rw [htext]
    exact negation_of_expr (layered_shownBy c) (by rw [hnext]; exact h.expr) hclose hrest

/-! ### Chains as texts -/

/-- A level of chains: a rule whose body is a chain of operands of one rule with a word between
them, and what may follow an operand of the level. -/
structure Level where
  rule : Rule
  operand : Rule
  operator : Rule
  word : String
  follow : List Char

/-- What follows an operand, after blanks, begins with one of the characters that may follow. -/
def Level.Follows (l : Level) (cs : List Char) : Prop := ∀ c ∈ cs.head?, c ∈ l.follow

/-- The level of `and`. -/
def Level.conjunction : Level :=
  ⟨.conjunction, .negation, .kwAnd, "and", [',', ')', ']', 'a', 'o']⟩

/-- The level of `or`. -/
def Level.disjunction : Level :=
  ⟨.disjunction, .conjunction, .kwOr, "or", [',', ')', ']', 'o']⟩

/-- What the proofs about chains use of a level. -/
structure Level.Regular (l : Level) : Prop where
  body : l.rule.body = chain (.rule l.operand) (.rule l.operator)
  flavor : l.rule.flavor = .spaced
  operatorBody : l.operator.body = Grammar.word l.word
  operatorFlavor : l.operator.flavor = .token
  ne : l.operator ≠ l.operand
  solid : ∀ c ∈ l.follow, Solid c
  word : ∃ c cs, l.word.toList = c :: cs ∧ c ∈ l.follow

theorem Level.regular_conjunction : Level.conjunction.Regular :=
  ⟨rfl, rfl, rfl, rfl, by decide, by decide, 'a', _, rfl, by decide⟩

theorem Level.regular_disjunction : Level.disjunction.Regular :=
  ⟨rfl, rfl, rfl, rfl, by decide, by decide, 'o', _, rfl, by decide⟩

section Chains

variable {l : Level} {rest : List Char}

theorem Level.Regular.follows_word (hl : l.Regular) (cs : List Char) :
    l.Follows (l.word.toList ++ cs) := by
  obtain ⟨c, w, hw, hc⟩ := hl.word
  rw [hw]
  rintro _ ⟨⟩
  exact hc

theorem Level.Regular.next_of_follows (hl : l.Regular) {cs : List Char} (h : l.Follows cs) :
    Mode.spaced.next cs = cs := Mode.next_of_solid _ fun c hc => hl.solid c (h c hc)

/-- After blanks, the further operands begin with their word. -/
theorem skipped_further (hl : l.Regular) (c : Condition) (cs : List Condition) (rest : List Char) :
    skipped (writeFurther l.word.toList (c :: cs) ++ rest)
      = l.word.toList ++ ' ' :: (c.writeOperand ++ (writeFurther l.word.toList cs ++ rest)) := by
  have htext : writeFurther l.word.toList (c :: cs) ++ rest = ' ' :: (l.word.toList ++
      ' ' :: (c.writeOperand ++ (writeFurther l.word.toList cs ++ rest))) := by
    rw [writeFurther, List.flatMap_cons, ← writeFurther]
    simp
  rw [htext, skipped_blank]
  exact hl.next_of_follows (hl.follows_word _)

theorem follows_further (hl : l.Regular) (cs : List Condition) (hrest : l.Follows (skipped rest)) :
    l.Follows (skipped (writeFurther l.word.toList cs ++ rest)) := by
  cases cs with
  | nil => exact hrest
  | cons c cs =>
    rw [skipped_further hl]
    exact hl.follows_word _

/-- What is needed of an operand at a level, in front of every text that may follow. -/
def Level.Operands (l : Level) (cs : List Condition) : Prop :=
  ∀ c ∈ cs, ∀ rest, l.Follows (skipped rest) → Start (c.writeOperand ++ rest) ∧
    Matches .spaced (.rule l.operand) (c.writeOperand ++ rest) (skipped rest) (Found c.ShownBy)

/-- The further operands of a written chain, each behind its word. -/
theorem further (hl : l.Regular) {cs : List Condition} (hcs : l.Operands cs)
    (hrest : l.Follows (skipped rest)) :
    Further l.operand l.word ShownBy rest cs (writeFurther l.word.toList cs ++ rest) := by
  induction cs with
  | nil => exact .nil
  | cons c cs ih =>
    obtain ⟨hc, hcs⟩ := List.forall_mem_cons.mp hcs
    obtain ⟨hstart, hoperand⟩ := hc _ (follows_further hl cs hrest)
    -- the word of the chain ends at a blank, which is skipped before the operand
    have hends : Ends (' ' :: (c.writeOperand ++ (writeFurther l.word.toList cs ++ rest))) := by
      rintro _ ⟨⟩
      rfl
    have hnext : skipped (' ' :: (c.writeOperand ++ (writeFurther l.word.toList cs ++ rest)))
        = c.writeOperand ++ (writeFurther l.word.toList cs ++ rest) :=
      (skipped_blank _).trans (Mode.next_of_solid .spaced hstart.solid)
    exact .cons (skipped_further hl c cs rest) hends (by rw [hnext]; exact hoperand) (ih hcs)

/-- **A chain is matched at its level**, and finds its operands. -/
theorem chain_matches (hl : l.Regular) {c d : Condition} {ds : List Condition}
    (hcs : l.Operands (c :: d :: ds)) (hrest : l.Follows (skipped rest))
    (hend : Refuses .spaced (.rule l.operator) (skipped rest)) :
    Matches .spaced (.rule l.rule)
      (c.writeOperand ++ (writeFurther l.word.toList (d :: ds) ++ rest)) (skipped rest)
      (Found fun t => ∃ b e text first ts, t = .node l.rule b e text (first :: ts) ∧
        c.ShownBy first ∧ first.rule = l.operand ∧ Chained l.operand (d :: ds) ts) := by
  obtain ⟨hc, hcs⟩ := List.forall_mem_cons.mp hcs
  obtain ⟨hstart, hoperand⟩ := hc _ (follows_further hl (d :: ds) hrest)
  have hbody := Further.chain_matches hl.operatorBody hl.operatorFlavor hl.ne hoperand hend
    (further hl hcs hrest)
  have hmode : Mode.spaced.inside l.rule.flavor = .spaced := by rw [hl.flavor]; rfl
  -- the parts of the node are the first operand and the chain behind it
  refine (Matches.rule (m := .spaced) (r := l.rule) rfl (by rw [hmode, hl.body]; exact hbody)).imp ?_
  rintro _ ⟨_, rfl, b, e, text, _, rfl, -, first, ts, rfl, hfirst, hrule, hts⟩
  exact ⟨_, rfl, b, e, text, first, ts, rfl, hfirst, hrule, .of_paired hts⟩

/-- **A written chain is matched at its level**, and shows the condition that has its shape. -/
theorem level_matches (hl : l.Regular) {whole : Condition} {cs : List Condition}
    (hmany : 2 ≤ cs.length)
    (hwrite : whole.write = writeOperands (' ' :: (l.word.toList ++ [' '])) cs)
    (hshown : ∀ {c ds b e text t ts}, cs = c :: ds → ds ≠ [] → c.ShownBy t → t.rule = l.operand →
      Chained l.operand ds ts → whole.ShownBy (.node l.rule b e text (t :: ts)))
    (hcs : l.Operands cs) (hfollow : ∀ c ∈ [',', ')', ']'], c ∈ l.follow) (hrest : Closed rest)
    (hend : Refuses .spaced (.rule l.operator) rest) :
    Start (whole.write ++ rest) ∧
      Matches .spaced (.rule l.rule) (whole.write ++ rest) rest (Found whole.ShownBy) := by
  -- two operands at least, so that the word of the chain is written
  obtain ⟨c, d, ds, rfl⟩ : ∃ c d ds, cs = c :: d :: ds := by
    match cs, hmany with
    | c :: d :: ds, _ => exact ⟨c, d, ds, rfl⟩
  have hskipped := hrest.quiet.skipped
  have hfollows : l.Follows (skipped rest) := by
    rw [hskipped]
    exact fun c hc => hfollow c (hrest c hc)
  have htext : whole.write ++ rest
      = c.writeOperand ++ (writeFurther l.word.toList (d :: ds) ++ rest) := by
    rw [hwrite, writeOperands_cons, List.append_assoc]
  have hchain := chain_matches hl hcs hfollows (by rw [hskipped]; exact hend)
  rw [hskipped] at hchain
  rw [htext]
  constructor
  · exact (hcs c List.mem_cons_self _ (follows_further hl _ hfollows)).1
  · refine hchain.imp ?_
    rintro _ ⟨_, rfl, b, e, text, first, ts, rfl, hfirst, hrule, hts⟩
    exact ⟨_, rfl, hshown rfl (by simp) hfirst hrule hts⟩

end Chains

/-! ### Conditions -/

/-- None of the words of chains stands in front of a comma, a closing bracket or the end. -/
theorem closed_refuses_words {rest : List Char} (hrest : Closed rest) :
    ∀ r ∈ [Rule.kwAnd, .kwOr], Refuses .spaced (.rule r) rest := by
  have hall : ∀ r ∈ [Rule.kwAnd, .kwOr], (Expr.rule r).steady = true ∧
      (Expr.rule r).nullable = false ∧
      ∀ c ∈ [',', ')', ']'], (Expr.rule r).begins 1 c = false := by decide
  exact fun r hr => hrest.refuses 1 (hall r hr).1 (hall r hr).2.1 (hall r hr).2.2

/-- No `and` follows an operand of a disjunction. -/
theorem Level.Follows.quiet_and {cs : List Char} (h : Level.disjunction.Follows cs) :
    Quiet cs ∧ Refuses .spaced (.rule .kwAnd) cs := by
  have hquiet : Quiet cs := by
    have hall : ∀ c ∈ [',', ')', ']', 'o'], c ∈ [',', ')', ']', 'a', 'o'] := by decide
    exact fun c hc => hall c (h c hc)
  have hall : ∀ c ∈ [',', ')', ']', 'o'], (Expr.rule .kwAnd).begins 1 c = false := by decide
  exact ⟨hquiet, refuses_of_head 1 (by decide) (by decide) fun c hc =>
    ⟨fun _ => hquiet.solid c hc, hall c (h c hc)⟩⟩

/-- A conjunction of several operands is matched if its operands are. -/
theorem wholeMatched_all {cs : List Condition} (hmany : 2 ≤ cs.length)
    (hcs : ∀ c ∈ cs, ∀ rest, Quiet (skipped rest) → OperandMatched c rest) {rest : List Char}
    (hrest : Closed rest) : WholeMatched (.all cs) rest := by
  have hwords := closed_refuses_words hrest
  -- operands of a conjunction are negations
  have hoperands : Level.conjunction.Operands cs := fun c hc rest hrest =>
    ⟨(hcs c hc rest hrest).start, (hcs c hc rest hrest).negation⟩
  have hshown : ∀ {c ds b e text t ts}, cs = c :: ds → ds ≠ [] → c.ShownBy t →
      t.rule = .negation → Chained .negation ds ts →
      (Condition.all cs).ShownBy (.node .conjunction b e text (t :: ts)) := by
    rintro c ds b e text t ts rfl hne h ht hts
    exact shownBy_all hne h ht hts
  obtain ⟨hstart, hconjunction⟩ := level_matches Level.regular_conjunction hmany (by rw [write]; rfl)
    hshown hoperands (by decide) hrest (hwords _ (by simp [Level.conjunction]))
  -- above the conjunction there are only layers
  have hlayered := layered_shownBy (.all cs)
  exact ⟨hstart, expr_of_disjunction hlayered hrest hstart.kwLambda
    (.layer rfl hlayered (hconjunction.chain hrest.quiet (hwords _ (by simp))))⟩

/-- A disjunction of several operands is matched if its operands are. -/
theorem wholeMatched_any {cs : List Condition} (hmany : 2 ≤ cs.length)
    (hcs : ∀ c ∈ cs, ∀ rest, Quiet (skipped rest) → OperandMatched c rest) {rest : List Char}
    (hrest : Closed rest) : WholeMatched (.any cs) rest := by
  have hwords := closed_refuses_words hrest
  -- no `and` follows an operand of a disjunction, so that each of them is a conjunction of its own
  have hoperands : Level.disjunction.Operands cs := by
    intro c hc rest hrest
    obtain ⟨hquiet, hand⟩ := hrest.quiet_and
    have hc := hcs c hc rest hquiet
    exact ⟨hc.start, .layer rfl (layered_shownBy c) (hc.negation.chain hquiet hand)⟩
  have hshown : ∀ {c ds b e text t ts}, cs = c :: ds → ds ≠ [] → c.ShownBy t →
      t.rule = .conjunction → Chained .conjunction ds ts →
      (Condition.any cs).ShownBy (.node .disjunction b e text (t :: ts)) := by
    rintro c ds b e text t ts rfl hne h ht hts
    exact shownBy_any hne h ht hts
  obtain ⟨hstart, hdisjunction⟩ := level_matches Level.regular_disjunction hmany (by rw [write]; rfl)
    hshown hoperands (by decide) hrest (hwords _ (by simp [Level.disjunction]))
  exact ⟨hstart, expr_of_disjunction (layered_shownBy _) hrest hstart.kwLambda hdisjunction⟩

/-- **A written condition is matched as an expression that shows it**, and as an operand. -/
theorem Built.matched {c : Condition} (hc : c.Built Call.Readable) :
    (∀ rest, Quiet (skipped rest) → OperandMatched c rest) ∧
      ∀ rest, Closed rest → WholeMatched c rest := by
  have hclose : ∀ rest, Closed (')' :: rest) := by
    rintro rest _ ⟨⟩
    decide
  have hquiet : ∀ rest, Closed rest → Quiet (skipped rest) := by
    intro rest hrest
    rw [hrest.quiet.skipped]
    exact hrest.quiet
  -- a chain is an operand through its parentheses, anything else is whole through its layers
  induction hc with
  | all hmany h ih =>
    have hwhole := fun rest (hrest : Closed rest) =>
      wholeMatched_all hmany (fun c hc => (ih c hc).1) hrest
    exact ⟨fun rest hrest => operandMatched_of_whole rfl hrest (hwhole _ (hclose rest)), hwhole⟩
  | any hmany h ih =>
    have hwhole := fun rest (hrest : Closed rest) =>
      wholeMatched_any hmany (fun c hc => (ih c hc).1) hrest
    exact ⟨fun rest hrest => operandMatched_of_whole rfl hrest (hwhole _ (hclose rest)), hwhole⟩
  | not h ih =>
    have hoperand := fun rest (hrest : Quiet (skipped rest)) => operandMatched_not (ih.1 rest hrest)
    exact ⟨hoperand, fun rest hrest =>
      wholeMatched_of_operand rfl hrest (hoperand rest (hquiet rest hrest))⟩
  | call h =>
    exact ⟨fun rest hrest => operandMatched_call h hrest, fun rest hrest =>
      wholeMatched_of_operand rfl hrest (operandMatched_call h (hquiet rest hrest))⟩

end Condition

end CatalogQuery
