import CatalogQuery.Proofs.Draft.Pieces

/-!
# Narrowing within a bound

Narrowing follows a tree downwards, and may look through any number of layers before it reads a
node. The functions of `Draft.Bounded` do this by separate steps, and count them: `descend` looks
through layers, and `argument`, `signed` and `node` read the node that it comes to. Each of them may
nest as many calls as its first argument says, and answers nothing if it would have to nest more.

The depth of a tree is enough for each of them, and then they answer what narrowing answers
(`Bounded.argument_eq`, `Bounded.node_eq`, `Bounded.aggregation_eq`).
-/

namespace CatalogQuery

open Grammar

/-! ### Depth -/

namespace Grammar.ParseTree

mutual

/-- How many nodes stand one below the other, at most. -/
def depth : ParseTree → Nat
  | .node _ _ _ _ ts => depths ts + 1

def depths : List ParseTree → Nat
  | [] => 0
  | t :: ts => max t.depth (depths ts)

end

theorem depth_le_depths {t : ParseTree} {ts : List ParseTree} (h : t ∈ ts) :
    t.depth ≤ depths ts := by
  induction ts with
  | nil => cases h
  | cons u us ih =>
    rw [depths]
    rcases List.mem_cons.mp h with rfl | h
    · exact Nat.le_max_left _ _
    · exact Nat.le_trans (ih h) (Nat.le_max_right _ _)

theorem depth_lt_of_mem {t u : ParseTree} (h : t ∈ u.children) : t.depth < u.depth := by
  obtain ⟨r, b, e, text, ts⟩ := u
  rw [depth]
  exact Nat.lt_succ_of_le (depth_le_depths h)

theorem depth_pos (t : ParseTree) : 0 < t.depth := by
  obtain ⟨r, b, e, text, ts⟩ := t
  rw [depth]
  exact Nat.succ_pos _

end Grammar.ParseTree

namespace Draft.Bounded

/-! ### The steps of narrowing -/

/-- Statements and expressions are looked through, and so are layers and brackets that hold one part
only. -/
def isPassed (t : ParseTree) : Bool :=
  t.rule == .exprStmt || t.rule == .expr || isLayer t.rule && t.children.length == 1

/-- The first node on the way down that is not looked through. -/
def descend : Nat → ParseTree → Option ParseTree
  | 0, _ => none
  | n + 1, t =>
    if isPassed t then
      match t.children with
      | child :: _ => descend n child
      | [] => some t
    else some t

/-- What a computation gives for each item, up to the first error. -/
def collect {α β ε : Type} (f : α → Option (Except ε β)) : List α → Option (Except ε (List β))
  | [] => some (.ok [])
  | a :: rest =>
    match f a with
    | none => none
    | some (.error e) => some (.error e)
    | some (.ok b) => (collect f rest).map (·.map (b :: ·))

section Steps

variable (argue : ParseTree → Option RawArg) (r : Reading)

/-- A sign and its operand, which is read by `argue`. -/
def signed (t : ParseTree) : Option RawArg :=
  match t.children with
  | sign :: operand :: _ => (argue operand).map (applySign sign.text · (snippet r t))
  | _ => some (.unsupported (snippet r t))

/-- An argument that is not looked through. Its parts are read by `argue`. -/
def argumentAt (t : ParseTree) : Option RawArg :=
  if t.rule = .signed then signed argue r t
  else if t.rule = .ident then some (.name (String.ofList t.text) (snippet r t))
  else if t.rule = .group ∨ (t.rule = .list ∧ !t.children.any (·.rule == .comprehension)) then
    ((t.children.filter (·.rule ≠ .comma)).mapM argue).map (.list · (snippet r t))
  else some (literalOr (snippet r t) (literal? t))

/-- An argument of a call. None may be given by keyword or spread. -/
def given (t : ParseTree) : Option (Except QueryError RawArg) :=
  if t.rule == .keywordArg || t.rule == .starArg then some (.error (refuse r .call t))
  else (argue t).map .ok

/-- A call. The arguments are read before they are counted. -/
def call (around : Surroundings) (t : ParseTree) : Option (Except QueryError DraftCall) :=
  match t.children with
  | [callee, args] =>
    if callee.rule = .ident ∧ args.rule = .call then
      match r.catalog.find? (String.ofList callee.text) with
      | none => some (.error (.unknownFunction (String.ofList callee.text) (snippet r t)))
      | some function =>
        (collect (given argue r) args.children).map fun raw => raw.bind fun given =>
          if given.length = function.arity then .ok ⟨function, given⟩
          else .error (.wrongArity function.name function.arity given.length (snippet r t))
    else some (.error (refuse r around t))
  | _ => some (.error (refuse r around t))

variable (narrow : Surroundings → ParseTree → Option (Except QueryError Draft))

/-- The operands of a chain, which are the nodes of one rule. -/
def operands (rule : Rule) (t : ParseTree) : Option (Except QueryError (List Draft)) :=
  collect (narrow .chain) (t.children.filter (·.rule = rule))

/-- A node that is not looked through. Its operands are narrowed by `narrow`. -/
def nodeAt (around : Surroundings) (t : ParseTree) : Option (Except QueryError Draft) :=
  match t.rule with
  | .disjunction => (operands narrow .conjunction t).map (·.map .any)
  | .conjunction => (operands narrow .negation t).map (·.map .all)
  | .negation =>
    match t.children.find? (·.rule = .negation) with
    | some operand => (narrow .negation operand).map (·.map .not)
    | none => some (.error (refuse r around t))
  | .primary => (call argue r around t).map (·.map .call)
  | _ => some (.error (refuse r around t))

end Steps

/-- The argument that a node stands for. -/
def argument (r : Reading) : Nat → ParseTree → Option RawArg
  | 0, _ => none
  | n + 1, t => (descend (n + 1) t).bind (argumentAt (argument r n) r)

/-- The draft that a node stands for. -/
def node (r : Reading) : Nat → Surroundings → ParseTree → Option (Except QueryError Draft)
  | 0, _, _ => none
  | n + 1, around, t => (descend (n + 1) t).bind (nodeAt (argument r n) r (node r n) around)

/-- The single call that an aggregation consists of. -/
def aggregation (r : Reading) (n : Nat) (t : ParseTree) : Option (Except QueryError DraftCall) :=
  (descend n t).bind fun u =>
    match u.rule with
    | .primary => call (argument r n) r .topLevel u
    | .disjunction | .conjunction | .negation => some (.error (refuse r .aggregation u))
    | _ => some (.error (refuse r .topLevel u))

/-! ### Shapes of nodes that are not looked through -/

section Shapes

variable {t : ParseTree} {ts : List ParseTree}

theorem branches_of_grown (ht : t.Grown) : ParseTree.Branches t.rule t.children := by
  obtain ⟨rule, b, e, text, ts⟩ := t
  exact ht.branches

/-- What is looked through has one part. -/
theorem exists_child_of_isPassed (ht : t.Grown) (h : isPassed t = true) :
    isLayer t.rule = true ∧ ∃ child, t.children = [child] := by
  have hts := branches_of_grown ht
  simp only [isPassed, Bool.or_eq_true, Bool.and_eq_true, beq_iff_eq] at h
  -- statements and expressions have one part always, other layers if they have no operator
  rcases h with (hrule | hrule) | ⟨hlayer, hlength⟩
  · rw [hrule] at hts ⊢
    obtain ⟨child, hchild, -⟩ := hts.finds (by decide)
    exact ⟨rfl, child, hchild⟩
  · rw [hrule] at hts ⊢
    rcases hts.finds (by decide) with ⟨child, hchild, -⟩ | ⟨child, hchild, -⟩ <;>
      exact ⟨rfl, child, hchild⟩
  · exact ⟨hlayer, List.length_eq_one_iff.mp hlength⟩

theorem length_ne_one_of_layer (h : isPassed t = false) (hlayer : isLayer t.rule = true) :
    t.children.length ≠ 1 := by
  intro hlength
  simp [isPassed, hlayer, hlength] at h

theorem negation_parts (hts : ParseTree.Branches .negation ts) (hmany : ts.length ≠ 1) :
    ∃ word operand, ts = [word, operand] ∧ word.rule = .kwNot ∧ operand.rule = .negation := by
  rcases hts.finds (by decide) with ⟨_, _, rfl, ⟨word, rfl, hword⟩, ⟨operand, rfl, hoperand⟩⟩ | h
  · exact ⟨word, operand, rfl, hword, hoperand⟩
  · obtain ⟨child, rfl, -⟩ := h
    exact absurd rfl hmany

theorem signed_parts (hts : ParseTree.Branches .signed ts) (hmany : ts.length ≠ 1) :
    ∃ sign operand, ts = [sign, operand] := by
  rcases hts.finds (by decide) with ⟨_, _, rfl, ⟨sign, rfl, -⟩, ⟨operand, rfl, -⟩⟩ | h
  · exact ⟨sign, operand, rfl⟩
  · obtain ⟨child, rfl, -⟩ := h
    exact absurd rfl hmany

/-- A comprehension stands behind an item. -/
theorem no_comprehension_of_single {child : ParseTree} (hts : ParseTree.Branches .list [child]) :
    child.rule ≠ .comprehension := by
  obtain ⟨_, _, hts', rfl, _, _, rfl, hitems, rfl⟩ := hts.finds (by decide)
  rw [List.nil_append, List.append_nil] at hts'
  subst hts'
  rcases hitems with hnil | ⟨_, _, hparts, ⟨first, rfl, hfirst⟩, -⟩
  · cases hnil
  · obtain ⟨rfl, -⟩ := List.cons.inj hparts
    rw [hfirst]
    decide

end Shapes

/-! ### Rows of parts -/

section Rows

variable {α β : Type}

theorem mapM_eq_some {f : α → Option β} {g : α → β} {as : List α} (h : ∀ a ∈ as, f a = some (g a)) :
    as.mapM f = some (as.map g) := by
  induction as with
  | nil => rfl
  | cons a as ih =>
    obtain ⟨ha, has⟩ := List.forall_mem_cons.mp h
    rw [List.mapM_cons, ha, ih has]
    rfl

variable {r : Reading} {ts : List ParseTree}

theorem collect_operands {rule : Rule} {narrow : ParseTree → Option (Except QueryError Draft)}
    (h : ∀ t ∈ ts, narrow t = some (ofTree r .chain t)) :
    collect narrow (ts.filter (·.rule = rule)) = some (Draft.operands r rule ts) := by
  induction ts with
  | nil => rfl
  | cons t ts ih =>
    obtain ⟨ht, hts⟩ := List.forall_mem_cons.mp h
    rw [operands_cons]
    -- the words of the chain are left out on both sides
    by_cases hrule : t.rule = rule
    · rw [if_pos hrule, List.filter_cons_of_pos (by simpa using hrule), collect, ht]
      cases ofTree r .chain t with
      | error e => rfl
      | ok d => rw [ih hts]; rfl
    · rw [if_neg hrule, List.filter_cons_of_neg (by simpa using hrule), ih hts]

/-- The first argument that is given by keyword or spread is refused. -/
theorem collect_given {argue : ParseTree → Option RawArg}
    (h : ∀ t ∈ ts, argue t = some (Draft.argument r t)) :
    collect (given argue r) ts
      = some (match ts.find? fun a => a.rule == .keywordArg || a.rule == .starArg with
        | some a => .error (refuse r .call a)
        | none => .ok (ts.map (Draft.argument r))) := by
  induction ts with
  | nil => rfl
  | cons t ts ih =>
    obtain ⟨ht, hts⟩ := List.forall_mem_cons.mp h
    rw [collect, given, List.find?_cons]
    cases hrule : t.rule == .keywordArg || t.rule == .starArg with
    | true => rfl
    | false =>
      -- the first one is given by position, so the others decide
      rw [if_neg Bool.false_ne_true, ht, ih hts]
      cases ts.find? fun a => a.rule == .keywordArg || a.rule == .starArg <;> rfl

end Rows

/-! ### Nodes -/

section Nodes

variable {r : Reading} {t : ParseTree} {argue : ParseTree → Option RawArg}
  {narrow : Surroundings → ParseTree → Option (Except QueryError Draft)}

theorem call_eq {around : Surroundings}
    (h : ∀ args ∈ t.children, ∀ a ∈ args.children, argue a = some (Draft.argument r a)) :
    call argue r around t = some (callOf r around t) := by
  unfold call
  split
  · rename_i callee args hchildren
    have hargs := collect_given (h args (by simp [hchildren]))
    rw [callOf_pair r hchildren, hargs]
    -- a name in front of arguments, or something else that is refused
    split_ifs
    · cases r.catalog.find? (String.ofList callee.text) with
      | none => rfl
      | some function =>
        dsimp only
        rw [Option.map_some]
        cases args.children.find? fun a => a.rule == .keywordArg || a.rule == .starArg with
        | some a => rfl
        | none =>
          show some (ite _ _ _) = _
          rw [List.length_map]
    · rfl
  · rename_i hpair
    rw [callOf_other r]
    intro hlength
    obtain ⟨callee, args, hchildren⟩ := List.length_eq_two.mp hlength
    exact hpair callee args hchildren

/-- **What an argument is read as**, if its parts are read as narrowing reads them. -/
theorem argumentAt_eq (ht : t.Grown) (hpassed : isPassed t = false)
    (h : ∀ a ∈ t.children, argue a = some (Draft.argument r a)) :
    argumentAt argue r t = some (Draft.argument r t) := by
  have hts := branches_of_grown ht
  have hitems : (t.children.filter (·.rule ≠ .comma)).mapM argue
      = some (arguments r t.children) := by
    rw [arguments_eq]
    exact mapM_eq_some fun a ha => h a (List.mem_filter.mp ha).1
  unfold argumentAt
  rw [hitems, Option.map_some]
  by_cases hsingle : t.children.length = 1
  · -- a node of one part that is no layer is a list or no argument
    obtain ⟨child, hchild⟩ := List.length_eq_one_iff.mp hsingle
    have hlayer : isLayer t.rule = false := by
      by_contra hlayer
      exact length_ne_one_of_layer hpassed (by simpa using hlayer) hsingle
    have hrules : t.rule ≠ .signed ∧ t.rule ≠ .group := by
      constructor <;> (intro hrule; rw [hrule] at hlayer; cases hlayer)
    have hident : t.rule ≠ .ident := by
      intro hrule
      rw [hts.leaf (by rw [hrule]; rfl)] at hchild
      cases hchild
    rw [argument_single r hchild, if_neg hrules.1, if_neg hident, hlayer,
      if_neg Bool.false_ne_true]
    by_cases hlist : t.rule = .list
    · rw [hlist, hchild] at hts
      have hplain : t.children.any (·.rule == .comprehension) = false := by
        simpa [hchild] using no_comprehension_of_single hts
      rw [if_pos (.inr ⟨hlist, by rw [hplain]; rfl⟩), if_pos hlist, hchild]
    · rw [if_neg (by simp [hrules.2, hlist]), if_neg hlist]
  · by_cases hsigned : t.rule = .signed
    · rw [hsigned] at hts
      obtain ⟨sign, operand, hchildren⟩ := signed_parts hts hsingle
      rw [if_pos hsigned, argument_signed r hsigned hchildren]
      simp only [signed, hchildren, h operand (by simp [hchildren]), Option.map_some]
    · rw [if_neg hsigned, argument_several r hsingle fun hrule => absurd hrule hsigned]
      split_ifs <;> rfl

/-- **What a node is narrowed to**, if its parts are as narrowing has them. -/
theorem nodeAt_eq {around : Surroundings} (ht : t.Grown) (hpassed : isPassed t = false)
    (hcall : call argue r around t = some (callOf r around t))
    (h : ∀ u ∈ t.children, ∀ around, narrow around u = some (ofTree r around u)) :
    nodeAt argue r narrow around t = some (ofTree r around t) := by
  have hts := branches_of_grown ht
  have hoperands (rule : Rule) : operands narrow rule t = some (Draft.operands r rule t.children) :=
    collect_operands fun u hu => h u hu .chain
  -- layers of one part have been looked through, so that chains have operators
  have hlayer : isLayer t.rule = true → t.children.length ≠ 1 := length_ne_one_of_layer hpassed
  unfold nodeAt
  split
  · rename_i hrule
    rw [hoperands, ofTree_chain r (hlayer (by rw [hrule]; rfl)) (by rw [hrule]; rintro ⟨⟩),
      if_pos hrule]
    rfl
  · rename_i hrule
    rw [hoperands, ofTree_chain r (hlayer (by rw [hrule]; rfl)) (by rw [hrule]; rintro ⟨⟩),
      if_neg (by rw [hrule]; decide), if_pos hrule]
    rfl
  · rename_i hrule
    -- a negation is its word and its operand
    rw [hrule] at hts
    obtain ⟨word, operand, hchildren, hword, hoperand⟩ :=
      negation_parts hts (hlayer (by rw [hrule]; rfl))
    have hfind : t.children.find? (·.rule = .negation) = some operand := by
      simp [hchildren, hword, hoperand]
    simp only [hfind]
    rw [ofTree_not r hrule hchildren, h operand (by simp [hchildren])]
    rfl
  · rename_i hrule
    rw [hcall, ofTree_chain r (hlayer (by rw [hrule]; rfl)) (by rw [hrule]; rintro ⟨⟩),
      if_neg (by rw [hrule]; decide), if_neg (by rw [hrule]; decide), if_pos hrule]
    rfl
  · rename_i hany hall hnot hprimary
    -- all that is left is refused
    by_cases hsingle : t.children.length = 1
    · obtain ⟨child, hchild⟩ := List.length_eq_one_iff.mp hsingle
      rw [ofTree_single r hchild, if_neg fun h => hlayer h hsingle]
    · rw [ofTree_chain r hsingle fun hrule => absurd hrule hnot, if_neg hany, if_neg hall,
        if_neg hprimary]

end Nodes

/-! ### Whole trees -/

/-- What `descend` comes to from a node: a node that is not looked through, and that narrowing takes
for the same as the first one. -/
structure Leads (t u : ParseTree) : Prop where
  grown : u.Grown
  depth_le : u.depth ≤ t.depth
  settled : isPassed u = false
  argument : ∀ r, Draft.argument r t = Draft.argument r u
  ofTree : ∀ r around, Draft.ofTree r around t = Draft.ofTree r around u
  aggregationOfTree : ∀ r, Draft.aggregationOfTree r t = Draft.aggregationOfTree r u

/-- **Looking through layers ends** at the depth of the tree at the latest. -/
theorem descend_leads {n : Nat} {t : ParseTree} (ht : t.Grown) (hn : t.depth ≤ n) :
    ∃ u, descend n t = some u ∧ Leads t u := by
  induction n generalizing t with
  | zero => exact absurd t.depth_pos (Nat.not_lt.mpr hn)
  | succ n ih =>
    cases hpassed : isPassed t with
    | false =>
      exact ⟨t, by rw [descend, hpassed]; rfl, ht, Nat.le_refl _, hpassed, fun _ => rfl,
        fun _ _ => rfl, fun _ => rfl⟩
    | true =>
      obtain ⟨hlayer, child, hchild⟩ := exists_child_of_isPassed ht hpassed
      -- the part is lower than the layer
      have hdepth : child.depth < t.depth := ParseTree.depth_lt_of_mem (by simp [hchild])
      have hgrown : child.Grown := (branches_of_grown ht).grown child (by simp [hchild])
      obtain ⟨u, hu, hleads⟩ := ih hgrown (by omega)
      -- what the part leads to, the layer leads to
      refine ⟨u, ?_, hleads.grown, Nat.le_trans hleads.depth_le (Nat.le_of_lt hdepth),
        hleads.settled, fun r => ?_, fun r around => ?_, fun r => ?_⟩
      · simp only [descend, hpassed, hchild]
        exact hu
      · rw [argument_single r hchild, if_pos hlayer, hleads.argument]
      · rw [ofTree_single r hchild, if_pos hlayer, hleads.ofTree]
      · rw [aggregationOfTree_single r hchild, if_pos hlayer, hleads.aggregationOfTree]

variable {r : Reading}

/-- **Reading an argument ends** within the depth of its tree. -/
theorem argument_eq {n : Nat} {t : ParseTree} (ht : t.Grown) (hn : t.depth ≤ n) :
    argument r n t = some (Draft.argument r t) := by
  induction n generalizing t with
  | zero => exact absurd t.depth_pos (Nat.not_lt.mpr hn)
  | succ n ih =>
    obtain ⟨u, hu, hleads⟩ := descend_leads ht hn
    rw [argument, hu, Option.bind_some, hleads.argument]
    refine argumentAt_eq hleads.grown hleads.settled fun a ha => ?_
    have hdepth := ParseTree.depth_lt_of_mem ha
    have hle := hleads.depth_le
    exact ih ((branches_of_grown hleads.grown).grown a ha) (by omega)

/-- The arguments of a call are two levels below it. -/
theorem call_eq_of_depth {n : Nat} {around : Surroundings} {t : ParseTree} (ht : t.Grown)
    (hn : t.depth ≤ n + 1) : call (argument r n) r around t = some (callOf r around t) := by
  refine call_eq fun args hargs a ha => ?_
  have hgrown := (branches_of_grown ht).grown args hargs
  have hdepth := ParseTree.depth_lt_of_mem hargs
  have hdepth' := ParseTree.depth_lt_of_mem ha
  exact argument_eq ((branches_of_grown hgrown).grown a ha) (by omega)

/-- **Narrowing a condition ends** within the depth of its tree. -/
theorem node_eq {n : Nat} {around : Surroundings} {t : ParseTree} (ht : t.Grown)
    (hn : t.depth ≤ n) : node r n around t = some (ofTree r around t) := by
  induction n generalizing around t with
  | zero => exact absurd t.depth_pos (Nat.not_lt.mpr hn)
  | succ n ih =>
    obtain ⟨u, hu, hleads⟩ := descend_leads ht hn
    have hle := hleads.depth_le
    rw [node, hu, Option.bind_some, hleads.ofTree]
    -- below the layers every part is lower, and the fuel is enough for it
    refine nodeAt_eq hleads.grown hleads.settled
      (call_eq_of_depth hleads.grown (by omega)) fun v hv around' => ?_
    have hdepth := ParseTree.depth_lt_of_mem hv
    exact ih ((branches_of_grown hleads.grown).grown v hv) (by omega)

/-- **Narrowing an aggregation ends** within the depth of its tree. -/
theorem aggregation_eq {n : Nat} {t : ParseTree} (ht : t.Grown) (hn : t.depth ≤ n) :
    aggregation r n t = some (aggregationOfTree r t) := by
  obtain ⟨u, hu, hleads⟩ := descend_leads ht hn
  have hle := hleads.depth_le
  have hlayer : isLayer u.rule = true → u.children.length ≠ 1 :=
    length_ne_one_of_layer hleads.settled
  rw [aggregation, hu, Option.bind_some, hleads.aggregationOfTree]
  by_cases hsingle : u.children.length = 1
  · obtain ⟨child, hchild⟩ := List.length_eq_one_iff.mp hsingle
    -- a layer of one part would have been looked through
    have hnone : isLayer u.rule = false := by
      by_contra h
      exact hlayer (by simpa using h) hsingle
    rw [aggregationOfTree_single r hchild, hnone, if_neg Bool.false_ne_true]
    split <;> rename_i hrule <;> first | rfl | (rw [hrule] at hnone; cases hnone)
  · rw [aggregationOfTree_call r hsingle]
    split
    · rename_i hrule
      rw [if_pos hrule]
      exact call_eq_of_depth hleads.grown (by omega)
    · rename_i hrule
      rw [hrule]
      rfl
    · rename_i hrule
      rw [hrule]
      rfl
    · rename_i hrule
      rw [hrule]
      rfl
    · rename_i hprimary hany hall hnot
      -- whatever else it is, it is no condition
      have hrefused : ¬ (u.rule = .disjunction ∨ u.rule = .conjunction ∨ u.rule = .negation) :=
        fun h => h.elim hany fun h => h.elim hall hnot
      rw [if_neg hprimary, if_neg hrefused]

/-- A sign is read at the node that carries it, and only its operand is called for. -/
theorem signed_ends {n : Nat} {t : ParseTree} (ht : t.Grown) (hn : t.depth ≤ n + 1) :
    ∃ a, signed (argument r n) r t = some a := by
  unfold signed
  split
  · rename_i sign operand rest hchildren
    have hmem : operand ∈ t.children := by simp [hchildren]
    have hdepth := ParseTree.depth_lt_of_mem hmem
    rw [argument_eq ((branches_of_grown ht).grown operand hmem) (by omega)]
    exact ⟨_, rfl⟩
  · exact ⟨_, rfl⟩

/-- Every step of narrowing ends at the node, with no more nested calls than its tree is deep, and
with what narrowing makes of the node. -/
structure Ends (r : Reading) (t : ParseTree) : Prop where
  descend : ∀ n, t.depth ≤ n → ∃ u, descend n t = some u ∧ Leads t u
  argument : ∀ n, t.depth ≤ n → argument r n t = some (Draft.argument r t)
  signed : ∀ n, t.depth ≤ n + 1 → ∃ a, signed (Bounded.argument r n) r t = some a
  node : ∀ n, t.depth ≤ n → ∀ around, node r n around t = some (Draft.ofTree r around t)
  aggregation : ∀ n, t.depth ≤ n → aggregation r n t = some (Draft.aggregationOfTree r t)

/-- **Narrowing ends at every node of a tree of the grammar.** -/
theorem everywhere_ends (r : Reading) {t : ParseTree} (ht : t.Grown) : t.Everywhere (Ends r) := by
  refine ParseTree.Grown.induct (fun rule b e text ts hgrown ih => .node ?_ ih) ht
  exact ⟨fun _ => descend_leads hgrown, fun _ => argument_eq hgrown, fun _ => signed_ends hgrown,
    fun _ hn _ => node_eq hgrown hn, fun _ => aggregation_eq hgrown⟩

end Draft.Bounded

end CatalogQuery
