import CatalogQuery.Proofs.Draft.Narrow
import CatalogQuery.Proofs.Query.Leaves

/-!
# Narrowing keeps the leaves

The atoms of a parse tree are its names and literals, from left to right. Narrowing turns them into
the leaves of the draft, one by one: `argument_leaves` for an argument, `callOf_leaves` for a call
and `ofTree_leaves` for a condition. An argument with an unsupported part has lost something, so all
three are about drafts without such parts.

A draft that narrowing made is also `WellFormed`: its chains have at least two operands, and its
calls have the function of the catalog that they name and as many arguments as it has parameters.
-/

namespace CatalogQuery

open Grammar

/-! ### Atoms of parse trees -/

namespace Grammar.ParseTree

/-- A name or a literal. -/
def isAtom : Rule → Bool
  | .ident | .formatted | .string | .float | .int | .trueLit | .falseLit | .noneLit => true
  | _ => false

mutual

/-- The names and literals of a tree from left to right. -/
def atoms : ParseTree → List ParseTree
  | .node rule start stop text ts =>
    if isAtom rule then [.node rule start stop text ts] else atomsOfEach ts

def atomsOfEach : List ParseTree → List ParseTree
  | [] => []
  | t :: rest => t.atoms ++ atomsOfEach rest

end

/-- The name that is called where a call follows a name. -/
def calledName : List ParseTree → List (List Char)
  | callee :: trailer :: _ =>
    if callee.rule = .ident ∧ trailer.rule = .call then [callee.text] else []
  | _ => []

mutual

/-- The names that are called in a tree from left to right. -/
def callees : ParseTree → List (List Char)
  | .node rule _ _ _ ts =>
    if isAtom rule then []
    else (if rule = .primary then calledName ts else []) ++ calleesOfEach ts

def calleesOfEach : List ParseTree → List (List Char)
  | [] => []
  | t :: rest => t.callees ++ calleesOfEach rest

end

theorem atomsOfEach_eq (ts : List ParseTree) : atomsOfEach ts = ts.flatMap atoms := by
  induction ts with
  | nil => rfl
  | cons t ts ih => rw [atomsOfEach, ih, List.flatMap_cons]

theorem calleesOfEach_eq (ts : List ParseTree) : calleesOfEach ts = ts.flatMap callees := by
  induction ts with
  | nil => rfl
  | cons t ts ih => rw [calleesOfEach, ih, List.flatMap_cons]

theorem Grown.of_mem_atoms {t : ParseTree} (ht : t.Grown) : ∀ a ∈ t.atoms, a.Grown := by
  refine ParseTree.Grown.induct ?_ ht
  intro rule b e text ts hgrown ih a ha
  rw [atoms] at ha
  split at ha
  · obtain rfl := List.mem_singleton.mp ha
    exact hgrown
  · rw [atomsOfEach_eq] at ha
    obtain ⟨t, ht, ha⟩ := List.mem_flatMap.mp ha
    exact ih t ht a ha

/-- Marks have no atoms and call nothing. -/
theorem Grown.atoms_of_isMark {t : ParseTree} (h : t.Grown) (ht : Branches.isMark t.rule = true) :
    t.atoms = [] ∧ t.callees = [] := by
  obtain ⟨rule, b, e, text, ts⟩ := t
  cases h.branches.of_isMark ht
  cases rule with
  | kwAnd | kwOr | kwNot | sign | comma | endOfInput => exact ⟨rfl, rfl⟩
  | _ => cases ht

end Grammar.ParseTree

/-! ### Leaves of drafts -/

namespace RawArg

mutual

/-- The leaves of an argument as the source has it. -/
def leaves : RawArg → List Leaf
  | .literal l _ => [.value l.value]
  | .list items _ => leavesOfEach items
  | .name n _ => [.name n]
  | .unsupported _ => []

def leavesOfEach : List RawArg → List Leaf
  | [] => []
  | a :: rest => a.leaves ++ leavesOfEach rest

end

/-- No part of the argument is unsupported. -/
inductive Supported : RawArg → Prop where
  | literal (l : Literal) (piece : Snippet) : Supported (.literal l piece)
  | list {items : List RawArg} (piece : Snippet) (h : ∀ a ∈ items, a.Supported) :
      Supported (.list items piece)
  | name (n : String) (piece : Snippet) : Supported (.name n piece)

end RawArg

/-- The leaves of a draft call. -/
def DraftCall.leaves (c : DraftCall) : List Leaf :=
  .name c.function.name :: RawArg.leavesOfEach c.arguments

/-- All arguments of a call are supported throughout. -/
def DraftCall.Supported (c : DraftCall) : Prop := ∀ a ∈ c.arguments, a.Supported

namespace Draft

mutual

/-- The leaves of a draft from left to right. -/
def leaves : Draft → List Leaf
  | .all ds | .any ds => leavesOfEach ds
  | .not d => d.leaves
  | .call c => c.leaves

def leavesOfEach : List Draft → List Leaf
  | [] => []
  | d :: rest => d.leaves ++ leavesOfEach rest

end

mutual

/-- The calls of a draft from left to right. -/
def calls : Draft → List DraftCall
  | .all ds | .any ds => callsOfEach ds
  | .not d => d.calls
  | .call c => [c]

def callsOfEach : List Draft → List DraftCall
  | [] => []
  | d :: rest => d.calls ++ callsOfEach rest

end

/-! ### Narrowing keeps the leaves -/

/-- What narrowing makes of an atom: a name, a literal, or a number with its sign changed. -/
inductive ReadAs : ParseTree → Leaf → Prop where
  | name {t : ParseTree} (ht : t.rule = .ident) : ReadAs t (.name (String.ofList t.text))
  | literal {t : ParseTree} {l : Literal} (h : literal? t = some l) : ReadAs t (.value l.value)
  | negInt {t : ParseTree} {n : Int64} (h : literal? t = some (.int n)) :
      ReadAs t (.value (.int (-n)))
  | negFloat {t : ParseTree} {x : Double} (h : literal? t = some (.float x)) :
      ReadAs t (.value (.float x.neg))

/-- One more sign. -/
theorem ReadAs.sign {t : ParseTree} {l l' : Literal} {sign : List Char}
    (h : ReadAs t (.value l.value)) (hsign : applySign? sign l = some l') :
    ReadAs t (.value l'.value) := by
  generalize hv : Leaf.value l.value = v at h
  cases l with
  | none | bool | str => cases hsign
  | int n =>
    simp only [applySign?] at hsign
    split_ifs at hsign with hplus hminus <;> cases hsign
    · exact hv ▸ h
    · cases h with
      | name => cases hv
      | @literal l h =>
        cases l <;> cases hv
        -- the first sign
        exact .negInt h
      | @negInt m h =>
        cases hv
        -- a sign takes another one back
        rw [Literal.value, Int64.neg_neg]
        exact .literal h
      | negFloat => cases hv
  | float x =>
    simp only [applySign?] at hsign
    split_ifs at hsign with hplus hminus <;> cases hsign
    · exact hv ▸ h
    · cases h with
      | name => cases hv
      | @literal l h =>
        cases l <;> cases hv
        -- the same for decimals
        exact .negFloat h
      | negInt => cases hv
      | @negFloat y h =>
        cases hv
        rw [Literal.value, Binary.neg, Binary.neg, Bool.not_not]
        exact .literal h

theorem isAtom_of_literal? {t : ParseTree} {l : Literal} (h : literal? t = some l) :
    ParseTree.isAtom t.rule = true := by
  unfold literal? at h
  split at h <;> rename_i hrule
  · rw [hrule]; rfl
  · rw [hrule]; rfl
  · rw [hrule]; rfl
  · rw [hrule]; rfl
  · rw [hrule]; rfl
  · rw [hrule]; rfl
  · cases h

theorem not_isAtom_of_isLayer {rule : Rule} (h : isLayer rule = true) :
    ParseTree.isAtom rule = false := by
  cases rule <;> first | rfl | cases h

theorem literalOr_supported {piece : Snippet} {l? : Option Literal}
    (h : (literalOr piece l?).Supported) : ∃ l, l? = some l ∧ literalOr piece l? = .literal l piece := by
  cases l? with
  | none => cases h
  | some l => exact ⟨l, rfl, rfl⟩

theorem applySign_supported {sign : List Char} {a : RawArg} {piece : Snippet}
    (h : (applySign sign a piece).Supported) : ∃ l l' piece', a = .literal l piece' ∧
      applySign? sign l = some l' ∧ applySign sign a piece = .literal l' piece := by
  cases a with
  | literal l piece' =>
    obtain ⟨l', hl', heq⟩ := literalOr_supported h
    exact ⟨l, l', piece', rfl, hl', heq⟩
  | list | name | unsupported => cases h

/-- The leaves of an argument are those of its node: what `argument_leaves` says of one node. -/
def Kept (r : Reading) (t : ParseTree) : Prop :=
  (argument r t).Supported →
    List.Forall₂ ReadAs t.atoms (argument r t).leaves ∧ t.callees = []

/-- The items of a bracket keep their leaves, and its commas have none. -/
theorem arguments_kept {r : Reading} {ts : List ParseTree} (hgrown : ∀ t ∈ ts, t.Grown)
    (hkept : ∀ t ∈ ts, Kept r t) (hs : ∀ a ∈ arguments r ts, a.Supported) :
    List.Forall₂ ReadAs (ParseTree.atomsOfEach ts) (RawArg.leavesOfEach (arguments r ts)) ∧
      ParseTree.calleesOfEach ts = [] := by
  induction ts with
  | nil => exact ⟨.nil, rfl⟩
  | cons t ts ih =>
    obtain ⟨ht, hts⟩ := List.forall_mem_cons.mp hgrown
    obtain ⟨hkept, hkepts⟩ := List.forall_mem_cons.mp hkept
    rw [arguments] at hs ⊢
    rw [ParseTree.atomsOfEach, ParseTree.calleesOfEach]
    -- commas stand between the items, and have no leaves
    by_cases hcomma : t.rule = .comma
    · rw [if_pos hcomma] at hs ⊢
      obtain ⟨hatoms, hcallees⟩ := ht.atoms_of_isMark (by rw [hcomma]; rfl)
      rw [hatoms, hcallees]
      exact ih hts hkepts hs
    · rw [if_neg hcomma] at hs ⊢
      obtain ⟨hs, hss⟩ := List.forall_mem_cons.mp hs
      obtain ⟨hleaves, hcallees⟩ := hkept hs
      obtain ⟨hrest, hcallees'⟩ := ih hts hkepts hss
      rw [hcallees, hcallees']
      exact ⟨List.rel_append hleaves hrest, rfl⟩

/-- **An argument keeps the leaves of its node**, and no call is in it. -/
theorem argument_leaves (r : Reading) {t : ParseTree} (ht : t.Grown) : Kept r t := by
  refine ParseTree.Grown.induct ?_ ht
  intro rule b e text ts hgrown ih hs
  have hts := hgrown.branches
  have hcases : Argued r rule (.node rule b e text ts) ts (argument r (.node rule b e text ts)) :=
    argument_cases r hts
  generalize argument r (.node rule b e text ts) = a at hcases hs ⊢
  rw [ParseTree.atoms, ParseTree.callees]
  cases hcases with
  | @layer child hchild hrule =>
    subst hchild
    obtain ⟨hleaves, hcallees⟩ := ih child (by simp) hs
    rw [not_isAtom_of_isLayer hrule]
    simp only [ParseTree.atomsOfEach, ParseTree.calleesOfEach, ParseTree.calledName, hcallees]
    simpa using hleaves
  | @signed sign operand hchildren hrule hsign =>
    subst hchildren hrule
    obtain ⟨l, l', piece', hoperand, hl', heq⟩ := applySign_supported hs
    obtain ⟨hleaves, hcallees⟩ := ih operand (by simp) (hoperand ▸ .literal l piece')
    obtain ⟨hatoms, hcallees'⟩ := (hts.grown sign (by simp)).atoms_of_isMark (by rw [hsign]; rfl)
    rw [hoperand] at hleaves
    rw [heq]
    simp only [ParseTree.atomsOfEach, ParseTree.calleesOfEach, hatoms, hcallees, hcallees']
    refine ⟨?_, rfl⟩
    -- the operand is one literal, so that its node holds one atom, which takes the sign
    cases hoper : operand.atoms with
    | nil => rw [hoper] at hleaves; cases hleaves
    | cons x xs =>
      rw [hoper] at hleaves
      cases hleaves with
      | cons hx hxs =>
        cases hxs
        exact .cons (hx.sign hl') .nil
  | name hrule =>
    subst hrule
    exact ⟨.cons (.name rfl) .nil, rfl⟩
  | items hrule =>
    cases hs with
    | list _ hs =>
      obtain ⟨hleaves, hcallees⟩ := arguments_kept hts.grown ih hs
      rcases hrule with rfl | rfl <;> exact ⟨hleaves, hcallees⟩
  | literal =>
    obtain ⟨l, hl, heq⟩ := literalOr_supported hs
    have hatom : ParseTree.isAtom rule = true := isAtom_of_literal? hl
    rw [heq, if_pos hatom, if_pos hatom]
    exact ⟨.cons (.literal hl) .nil, rfl⟩

theorem arguments_leaves (r : Reading) {ts : List ParseTree} (hgrown : ∀ t ∈ ts, t.Grown)
    (hs : ∀ a ∈ ts.map (argument r), a.Supported) :
    List.Forall₂ ReadAs (ParseTree.atomsOfEach ts)
      (RawArg.leavesOfEach (ts.map (argument r))) ∧ ParseTree.calleesOfEach ts = [] := by
  induction ts with
  | nil => exact ⟨.nil, rfl⟩
  | cons t ts ih =>
    obtain ⟨ht, hts⟩ := List.forall_mem_cons.mp hgrown
    obtain ⟨hs, hss⟩ := List.forall_mem_cons.mp hs
    obtain ⟨hleaves, hcallees⟩ := argument_leaves r ht hs
    obtain ⟨hrest, hcallees'⟩ := ih hts hss
    -- the leaves of the first argument come before those of the others
    rw [ParseTree.atomsOfEach, ParseTree.calleesOfEach, hcallees, hcallees']
    exact ⟨List.rel_append hleaves hrest, rfl⟩

/-- **A call keeps the leaves of its node**, and it is the only call there. -/
theorem callOf_leaves {r : Reading} {around : Surroundings} {t : ParseTree} {c : DraftCall}
    (ht : t.Grown) (hrule : t.rule = .primary) (h : callOf r around t = .ok c)
    (hs : c.Supported) :
    List.Forall₂ ReadAs t.atoms c.leaves ∧ t.callees = [c.function.name.toList] := by
  obtain ⟨callee, args, hchildren, hcallee, hargs, hfind, harguments, -⟩ := callOf_ok h
  obtain ⟨rule, b, e, text, ts⟩ := t
  cases hrule
  cases hchildren
  -- the function has the name by which it was found
  have hname : c.function.name = String.ofList callee.text := by
    simpa using List.find?_some hfind
  have hargsGrown := ht.branches.grown args (by simp)
  obtain ⟨crule, cb, ce, ctext, cts⟩ := callee
  obtain ⟨arule, ab, ae, atext, ats⟩ := args
  cases hcallee
  cases hargs
  unfold DraftCall.Supported at hs
  rw [harguments] at hs
  obtain ⟨hleaves, hcallees⟩ := arguments_leaves r hargsGrown.branches.grown hs
  rw [DraftCall.leaves, harguments, hname, String.toList_ofList]
  constructor
  · show List.Forall₂ ReadAs (_ :: (ParseTree.atomsOfEach ats ++ [])) _
    -- the leaves: the name, and those of the arguments
    rw [List.append_nil]
    exact .cons (.name rfl) hleaves
  · show [ctext] ++ ([] ++ (ParseTree.calleesOfEach ats ++ [])) = [ctext]
    -- the names: no argument calls anything
    rw [hcallees]
    rfl

/-- All calls of a draft are supported throughout. -/
def Supported (d : Draft) : Prop := ∀ c ∈ d.calls, c.Supported

theorem mem_callsOfEach {c : DraftCall} {ds : List Draft} :
    c ∈ callsOfEach ds ↔ ∃ d ∈ ds, c ∈ d.calls := by
  induction ds with
  | nil => simp [callsOfEach]
  | cons d ds ih => simp [callsOfEach, ih]

/-- The operands of a chain are supported exactly if all its calls are. -/
theorem supported_each_iff {ds : List Draft} :
    (∀ c ∈ callsOfEach ds, c.Supported) ↔ ∀ d ∈ ds, d.Supported := by
  constructor
  · exact fun h d hd c hc => h c (mem_callsOfEach.mpr ⟨d, hd, hc⟩)
  · intro h c hc
    obtain ⟨d, hd, hc⟩ := mem_callsOfEach.mp hc
    exact h d hd c hc

/-- The operands of a chain keep their leaves, and the words between them have none. -/
theorem operands_leaves {r : Reading} {rule : Rule} {ts : List ParseTree} {ds : List Draft}
    (hgrown : ∀ t ∈ ts, t.Grown)
    (hmarks : ∀ t ∈ ts, t.rule = rule ∨ ParseTree.Branches.isMark t.rule = true)
    (hkept : ∀ t ∈ ts, ∀ d, ofTree r .chain t = .ok d → d.Supported →
      List.Forall₂ ReadAs t.atoms d.leaves ∧
        t.callees = d.calls.map fun c => c.function.name.toList)
    (h : operands r rule ts = .ok ds) (hs : ∀ c ∈ callsOfEach ds, c.Supported) :
    List.Forall₂ ReadAs (ParseTree.atomsOfEach ts) (leavesOfEach ds) ∧
      ParseTree.calleesOfEach ts = (callsOfEach ds).map fun c => c.function.name.toList := by
  induction ts generalizing ds with
  | nil => cases h; exact ⟨.nil, rfl⟩
  | cons t ts ih =>
    obtain ⟨ht, hts⟩ := List.forall_mem_cons.mp hgrown
    obtain ⟨hmark, hmarks⟩ := List.forall_mem_cons.mp hmarks
    obtain ⟨hkept, hkepts⟩ := List.forall_mem_cons.mp hkept
    rw [operands] at h
    rw [ParseTree.atomsOfEach, ParseTree.calleesOfEach]
    -- an operand, or a word between two of them
    by_cases hrule : t.rule = rule
    · rw [if_pos hrule] at h
      split at h
      · rename_i d hd
        obtain ⟨ds', hds', rfl⟩ := map_eq_ok h
        obtain ⟨hs, hss⟩ := List.forall_mem_append.mp hs
        obtain ⟨hleaves, hcallees⟩ := hkept d hd hs
        obtain ⟨hrest, hcallees'⟩ := ih hts hmarks hkepts hds' hss
        rw [hcallees, hcallees', leavesOfEach, callsOfEach, List.map_append]
        exact ⟨List.rel_append hleaves hrest, rfl⟩
      · cases h
    · rw [if_neg hrule] at h
      obtain ⟨hatoms, hcallees⟩ := ht.atoms_of_isMark (hmark.resolve_left hrule)
      rw [hatoms, hcallees]
      exact ih hts hmarks hkepts h hs

/-- **A condition keeps the leaves of its node**, and its calls are those of the node in order. -/
theorem ofTree_leaves {r : Reading} {t : ParseTree} (ht : t.Grown) :
    ∀ around d, ofTree r around t = .ok d → d.Supported →
      List.Forall₂ ReadAs t.atoms d.leaves ∧
        t.callees = d.calls.map fun c => c.function.name.toList := by
  refine ParseTree.Grown.induct ?_ ht
  intro rule b e text ts hgrown ih around d h hs
  have hts := hgrown.branches
  cases ofTree_cases hts h with
  | @layer child _ hchild hrule h' =>
    -- a layer has the leaves of its part
    subst hchild
    obtain ⟨hleaves, hcallees⟩ := ih child (by simp) around _ h' hs
    rw [ParseTree.atoms, ParseTree.callees, not_isAtom_of_isLayer hrule]
    simp only [ParseTree.atomsOfEach, ParseTree.calleesOfEach, ParseTree.calledName, hcallees]
    simpa using hleaves
  | @not word operand d hchildren hrule hword h' =>
    subst hchildren hrule
    obtain ⟨hleaves, hcallees⟩ := ih operand (by simp) .negation _ h' hs
    obtain ⟨hatoms, hcallees'⟩ := (hts.grown word (by simp)).atoms_of_isMark (by rw [hword]; rfl)
    show List.Forall₂ ReadAs (word.atoms ++ (operand.atoms ++ [])) d.leaves ∧
      [] ++ (word.callees ++ (operand.callees ++ [])) = d.calls.map _
    -- the word has no leaves
    rw [hatoms, hcallees, hcallees']
    simpa using hleaves
  | any halt hmany hrule h' =>
    subst hrule
    refine operands_leaves hts.grown (fun t ht => ?_) (fun t ht => ih t ht .chain) h' hs
    exact (halt.rule_eq t ht).imp id fun hword => by rw [hword]; rfl
  | all halt hmany hrule h' =>
    subst hrule
    refine operands_leaves hts.grown (fun t ht => ?_) (fun t ht => ih t ht .chain) h' hs
    exact (halt.rule_eq t ht).imp id fun hword => by rw [hword]; rfl
  | call hrule h' => exact callOf_leaves hgrown hrule h' (hs _ (by simp [calls]))

theorem aggregationOfTree_leaves {r : Reading} {t : ParseTree} {c : DraftCall} (ht : t.Grown)
    (h : aggregationOfTree r t = .ok c) (hs : c.Supported) :
    List.Forall₂ ReadAs t.atoms c.leaves ∧ t.callees = [c.function.name.toList] := by
  revert h
  refine ParseTree.Grown.induct ?_ ht
  intro rule b e text ts hgrown ih h
  -- by the layers above the call
  rcases aggregationOfTree_cases h with ⟨child, hchild, hrule, h'⟩ | ⟨hrule, h'⟩
  · subst hchild
    obtain ⟨hleaves, hcallees⟩ := ih child (by simp) h'
    rw [ParseTree.atoms, ParseTree.callees, not_isAtom_of_isLayer hrule]
    simp only [ParseTree.atomsOfEach, ParseTree.calleesOfEach, ParseTree.calledName, hcallees]
    simpa using hleaves
  · exact callOf_leaves hgrown hrule h' hs

end Draft

/-! ### Well-formed drafts -/

/-- A draft call has the function of the catalog that it names and as many arguments as that has
parameters, and its name and its arguments come from the grammar. -/
structure DraftCall.WellFormed (r : Reading) (c : DraftCall) : Prop where
  found : r.catalog.find? c.function.name = some c.function
  named : ∃ t : ParseTree, t.Grown ∧ t.rule = .ident ∧ c.function.name = String.ofList t.text
  arity : c.arguments.length = c.function.parameters.length
  read : ∀ a ∈ c.arguments, ∃ t : ParseTree, t.Grown ∧ a = Draft.argument r t

namespace Draft

/-- The chains of a draft have at least two operands, and its calls are well-formed. -/
inductive WellFormed (r : Reading) : Draft → Prop where
  | all {ds : List Draft} (hmany : 2 ≤ ds.length) (h : ∀ d ∈ ds, d.WellFormed r) :
      WellFormed r (.all ds)
  | any {ds : List Draft} (hmany : 2 ≤ ds.length) (h : ∀ d ∈ ds, d.WellFormed r) :
      WellFormed r (.any ds)
  | not {d : Draft} (h : d.WellFormed r) : WellFormed r (.not d)
  | call {c : DraftCall} (h : c.WellFormed r) : WellFormed r (.call c)

theorem callOf_wellFormed {r : Reading} {around : Surroundings} {t : ParseTree} {c : DraftCall}
    (ht : t.Grown) (h : callOf r around t = .ok c) : c.WellFormed r := by
  obtain ⟨callee, args, hchildren, hcallee, -, hfind, harguments, harity⟩ := callOf_ok h
  obtain ⟨rule, b, e, text, ts⟩ := t
  cases hchildren
  have hname : c.function.name = String.ofList callee.text := by
    simpa using List.find?_some hfind
  have hgrown := ht.branches.grown
  obtain ⟨arule, ab, ae, atext, ats⟩ := args
  have hargs := (hgrown _ (List.mem_cons_of_mem _ List.mem_cons_self)).branches.grown
  refine ⟨hname ▸ hfind, ⟨callee, hgrown _ List.mem_cons_self, hcallee, hname⟩, harity,
    fun a ha => ?_⟩
  -- each argument is read from a grown tree
  rw [harguments] at ha
  obtain ⟨t, ht, rfl⟩ := List.mem_map.mp ha
  exact ⟨t, hargs t ht, rfl⟩

/-- The operands of a chain that does not hold one part only. -/
theorem operands_wellFormed {r : Reading} {operand operator : Rule} {ts : List ParseTree}
    {ds : List Draft} (halt : Alternates operand operator ts) (hmany : ts.length ≠ 1)
    (hkept : ∀ t ∈ ts, ∀ around d, ofTree r around t = .ok d → d.WellFormed r)
    (h : operands r operand ts = .ok ds) : 2 ≤ ds.length ∧ ∀ d ∈ ds, d.WellFormed r := by
  have hds := operands_forall₂ h
  constructor
  · -- as many operands as are narrowed
    rw [← hds.length_eq]
    exact halt.two_le_operands hmany
  · intro d hd
    obtain ⟨i, hi, rfl⟩ := List.mem_iff_getElem.mp hd
    have hi' : i < (ts.filter (·.rule = operand)).length := by rw [hds.length_eq]; exact hi
    exact hkept _ (List.mem_of_mem_filter (List.getElem_mem hi')) _ _ (hds.get hi' hi)

/-- **A condition is narrowed to a well-formed draft.** -/
theorem ofTree_wellFormed {r : Reading} {t : ParseTree} (ht : t.Grown) :
    ∀ around d, ofTree r around t = .ok d → d.WellFormed r := by
  refine ParseTree.Grown.induct ?_ ht
  intro rule b e text ts hgrown ih around d h
  cases ofTree_cases hgrown.branches h with
  | @layer child _ hchild hrule h' => exact ih child (by simp [hchild]) _ _ h'
  | @not word operand d hchildren hrule hword h' =>
    exact .not (ih operand (by simp [hchildren]) _ _ h')
  | any halt hmany hrule h' =>
    obtain ⟨hlen, hds⟩ := operands_wellFormed halt hmany ih h'
    exact .any hlen hds
  | all halt hmany hrule h' =>
    obtain ⟨hlen, hds⟩ := operands_wellFormed halt hmany ih h'
    exact .all hlen hds
  | call hrule h' => exact .call (callOf_wellFormed hgrown h')

theorem aggregationOfTree_wellFormed {r : Reading} {t : ParseTree} {c : DraftCall} (ht : t.Grown)
    (h : aggregationOfTree r t = .ok c) : c.WellFormed r := by
  revert h
  refine ParseTree.Grown.induct ?_ ht
  intro rule b e text ts hgrown ih h
  rcases aggregationOfTree_cases h with ⟨child, hchild, -, h'⟩ | ⟨-, h'⟩
  · exact ih child (by simp [hchild]) h'
  · exact callOf_wellFormed hgrown h'

end Draft

/-! ### Sources -/

/-- **The statement of a source** holds all atoms and all calls of its parse tree. -/
theorem Source.statement_atoms {source : String} {normal : List Char} {t : ParseTree}
    (h : Source.statement source normal = .ok t) :
    ∃ tree, Grammar.parse normal = .ok tree ∧ t.Grown ∧ tree.atoms = t.atoms ∧
      tree.callees = t.callees := by
  obtain ⟨tree, hparse, hfilter, -⟩ := Source.statement_ok h
  have hgrown := parse_grown hparse
  have hrule := parse_rule hparse
  obtain ⟨rule, b, e, text, ts⟩ := tree
  cases hrule
  have hts := hgrown.branches.grown
  -- only the end of the input is left out of the statements, and it holds nothing
  have hend : ∀ u ∈ ts, (u.rule != .endOfInput) = false → u.atoms = [] ∧ u.callees = [] := by
    intro u hu hrule
    have hrule : u.rule = .endOfInput := by simpa using hrule
    exact (hts u hu).atoms_of_isMark (by rw [hrule]; rfl)
  have ht : t ∈ ts := List.mem_of_mem_filter (hfilter ▸ List.mem_singleton_self t)
  have hatoms := flatMap_filter fun u hu hrule => (hend u hu hrule).1
  have hcallees := flatMap_filter fun u hu hrule => (hend u hu hrule).2
  have hfilter : ts.filter (fun u => u.rule != .endOfInput) = [t] := hfilter
  rw [hfilter, List.flatMap_singleton] at hatoms hcallees
  refine ⟨_, hparse, hts t ht, ?_, ?_⟩
  · show ParseTree.atomsOfEach ts = t.atoms
    rw [ParseTree.atomsOfEach_eq, hatoms]
  · show [] ++ ParseTree.calleesOfEach ts = t.callees
    rw [List.nil_append, ParseTree.calleesOfEach_eq, hcallees]

end CatalogQuery
