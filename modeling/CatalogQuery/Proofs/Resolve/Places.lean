import CatalogQuery.Proofs.Draft.Narrow
import CatalogQuery.Proofs.Grammar.Rows
import CatalogQuery.Proofs.Resolve.Stages

/-!
# Stages stand in the order of the source

The stages of a draft that narrowing made are `Placed`: from left to right, each stands further on
in the source than the one before, or is the check right after it. An argument is placed within its
node (`argumentStages_placed`), and nodes stand one after another, so the same holds of calls
(`callOf_placed`) and of whole drafts (`ofTree_placed`).
-/

namespace CatalogQuery

open Grammar

/-- Stages that stand one after another between two offsets. -/
structure Placed (lo hi : Nat) (stages : List Stage) : Prop where
  sorted : stages.Pairwise fun s s' => s.spot < s'.spot
  within : ∀ s ∈ stages, lo ≤ s.place ∧ s.place < hi

namespace Placed

variable {lo mid hi lo' hi' : Nat} {xs ys : List Stage}

theorem nil (lo hi : Nat) : Placed lo hi [] := ⟨.nil, by simp⟩

theorem singleton {s : Stage} (hlo : lo ≤ s.place) (hhi : s.place < hi) : Placed lo hi [s] :=
  ⟨List.pairwise_singleton _ _, List.forall_mem_singleton.mpr ⟨hlo, hhi⟩⟩

theorem mono (h : Placed lo hi xs) (hlo : lo' ≤ lo) (hhi : hi ≤ hi') : Placed lo' hi' xs :=
  ⟨h.sorted, fun s hs => ⟨hlo.trans (h.within s hs).1, (h.within s hs).2.trans_le hhi⟩⟩

theorem append (h : Placed lo mid xs) (h' : Placed mid hi ys) (hlo : lo ≤ mid) (hhi : mid ≤ hi) :
    Placed lo hi (xs ++ ys) := by
  refine ⟨List.pairwise_append.mpr ⟨h.sorted, h'.sorted, fun s hs s' hs' => ?_⟩,
    List.forall_mem_append.mpr ⟨(h.mono le_rfl hhi).within, (h'.mono hlo le_rfl).within⟩⟩
  exact Prod.Lex.toLex_lt_toLex.mpr (.inl ((h.within s hs).2.trans_le (h'.within s' hs').1))

/-- What stands in the nodes of a row. -/
theorem flatMap {ts : List ParseTree} (hrow : Row lo hi ts) {f : ParseTree → List Stage}
    (hf : ∀ t ∈ ts, Placed t.start t.stop (f t)) : Placed lo hi (ts.flatMap f) := by
  induction hrow with
  | nil => exact .nil _ _
  | cons hlo ht hrest ih =>
    obtain ⟨hfirst, hothers⟩ := List.forall_mem_cons.mp hf
    rw [List.flatMap_cons]
    exact (hfirst.mono hlo le_rfl).append (ih hothers) (hlo.trans ht) hrest.le

/-- A check stands behind the leaves at the place of the last, or at `start` if there is none. -/
theorem append_check {c : Stage} {start : Nat} (h : Placed lo hi xs)
    (hleaf : ∀ s ∈ xs, s.isCheck = false) (hcheck : c.isCheck = true)
    (hplace : c.place = (xs.getLast?.map Stage.place).getD start) (hlo : lo ≤ start)
    (hhi : start < hi) : Placed lo hi (xs ++ [c]) := by
  obtain rfl | ⟨front, last, rfl⟩ := xs.eq_nil_or_concat'
  · exact .singleton (hlo.trans_eq hplace.symm) (hplace.trans_lt hhi)
  · have hlast : last ∈ front ++ [last] := by simp
    have hplace : c.place = last.place := by
      rw [hplace]
      simp
    -- the check has the place of the last leaf, and comes behind it there because it is no leaf
    have hbehind : last.spot < c.spot := by
      refine Prod.Lex.toLex_lt_toLex.mpr (.inr ⟨hplace.symm, ?_⟩)
      rw [hcheck, hleaf last hlast]
      exact Bool.false_lt_true
    refine ⟨List.pairwise_append.mpr ⟨h.sorted, List.pairwise_singleton _ _, ?_⟩,
      List.forall_mem_append.mpr ⟨h.within, List.forall_mem_singleton.mpr ?_⟩⟩
    · intro s hs c' hc'
      rw [List.mem_singleton.mp hc']
      rcases List.mem_append.mp hs with hs | hs
      · exact ((List.pairwise_append.mp h.sorted).2.2 s hs last (by simp)).trans hbehind
      · rw [List.mem_singleton.mp hs]
        exact hbehind
    · rw [hplace]
      exact h.within last hlast

end Placed

namespace Resolve

variable (contexts : List Context) (r : Reading)

/-- The leaves of items, one item after another. -/
theorem leafStagesOfEach_eq (p : Parameter) (as : List RawArg) :
    leafStagesOfEach contexts p as = as.flatMap (leafStages contexts p) := by
  induction as with
  | nil => rfl
  | cons a as ih => rw [leafStagesOfEach, ih, List.flatMap_cons]

mutual

/-- No leaf is a check. -/
theorem isCheck_leafStages (p : Parameter) :
    ∀ a, ∀ s ∈ leafStages contexts p a, s.isCheck = false
  | .literal .. => List.forall_mem_singleton.mpr rfl
  | .list items _ => isCheck_leafStagesOfEach p items
  | .name .. => List.forall_mem_singleton.mpr rfl
  | .unsupported _ => List.forall_mem_singleton.mpr rfl

theorem isCheck_leafStagesOfEach (p : Parameter) :
    ∀ items, ∀ s ∈ leafStagesOfEach contexts p items, s.isCheck = false
  | [] => by simp [leafStagesOfEach]
  | a :: rest =>
    List.forall_mem_append.mpr ⟨isCheck_leafStages p a, isCheck_leafStagesOfEach p rest⟩

end

/-- The rules of layers and rows of items find nodes of some width. -/
theorem solid_body (rule : Rule) (h : Draft.isLayer rule = true ∨ rule = .list ∨ rule = .call) :
    rule.body.solid = true ∧ rule.flavor ≠ .token := by
  revert h
  cases rule <;> decide

/-- A literal, or what is refused in its place, is one leaf. -/
theorem literalOr_placed (p : Parameter) {lo hi : Nat} (piece : Snippet) (hlo : lo ≤ piece.start)
    (hhi : piece.start < hi) (l? : Option Literal) :
    Placed lo hi (leafStages contexts p (Draft.literalOr piece l?)) ∧
      (Draft.literalOr piece l?).snippet = piece := by
  cases l? <;> exact ⟨.singleton hlo hhi, rfl⟩

theorem applySign_placed (p : Parameter) {lo hi : Nat} (piece : Snippet) (hlo : lo ≤ piece.start)
    (hhi : piece.start < hi) (sign : List Char) (a : RawArg) :
    Placed lo hi (leafStages contexts p (Draft.applySign sign a piece)) ∧
      (Draft.applySign sign a piece).snippet = piece := by
  cases a with
  | literal l piece' => exact literalOr_placed contexts p piece hlo hhi _
  | list | name | unsupported => exact ⟨.singleton hlo hhi, rfl⟩

/-- **The leaves of an argument** stand in its node, and so does the argument itself. -/
theorem leafStages_placed (p : Parameter) {t : ParseTree} (ht : t.Grown) :
    t.Laid → t.rule.nullable = false →
      Placed t.start t.stop (leafStages contexts p (Draft.argument r t)) ∧
        t.start ≤ (Draft.argument r t).snippet.start ∧
        (Draft.argument r t).snippet.start < t.stop := by
  refine ParseTree.Grown.induct ?_ ht
  intro rule b e text ts hgrown ih hlaid hrule
  have hts := hgrown.branches
  have hcases : Draft.Argued r rule (.node rule b e text ts) ts
      (Draft.argument r (.node rule b e text ts)) := Draft.argument_cases r hts
  generalize Draft.argument r (.node rule b e text ts) = a at hcases ⊢
  cases hlaid with
  | node hwide hrow hlaids =>
    have hwidth : b < e := hwide hrule
    show Placed b e (leafStages contexts p a) ∧ b ≤ a.snippet.start ∧ a.snippet.start < e
    cases hcases with
    | @layer child hchild hlayer =>
      subst hchild
      obtain ⟨hsolid, htoken⟩ := solid_body rule (.inl hlayer)
      have hwide' := (hts.finds htoken).not_nullable hsolid child (List.mem_singleton_self child)
      obtain ⟨hplaced, hlo, hhi⟩ := ih child (List.mem_singleton_self child)
        (hlaids child (List.mem_singleton_self child)) hwide'
      obtain ⟨hstart, hstop⟩ := hrow.of_mem (List.mem_singleton_self child)
      exact ⟨hplaced.mono hstart hstop, hstart.trans hlo, hhi.trans_le hstop⟩
    | signed =>
      obtain ⟨hplaced, hpiece⟩ := applySign_placed contexts p
        (Draft.snippet r (.node rule b e text ts)) (Nat.le_refl b) hwidth _ _
      exact ⟨hplaced, by rw [hpiece]; exact ⟨Nat.le_refl b, hwidth⟩⟩
    | name => exact ⟨.singleton (Nat.le_refl b) hwidth, Nat.le_refl b, hwidth⟩
    | items hbracket =>
      refine ⟨?_, Nat.le_refl b, hwidth⟩
      -- the items stand in the node one after another, and each has some width
      have hrules : Draft.isLayer rule = true ∨ rule = .list ∨ rule = .call := by
        rcases hbracket with rfl | rfl
        · exact .inl rfl
        · exact .inr (.inl rfl)
      obtain ⟨hsolid, htoken⟩ := solid_body rule hrules
      rw [leafStages, leafStagesOfEach_eq, Draft.arguments_eq, List.flatMap_map]
      refine .flatMap (hrow.filter _) fun t ht => ?_
      have hmem := List.mem_of_mem_filter ht
      exact (ih t hmem (hlaids t hmem) ((hts.finds htoken).not_nullable hsolid t hmem)).1
    | literal =>
      obtain ⟨hplaced, hpiece⟩ := literalOr_placed contexts p
        (Draft.snippet r (.node rule b e text ts)) (Nat.le_refl b) hwidth
        (Draft.literal? (.node rule b e text ts))
      exact ⟨hplaced, by rw [hpiece]; exact ⟨Nat.le_refl b, hwidth⟩⟩

/-- **The stages of an argument** stand in its node: the check is behind the leaves. -/
theorem argumentStages_placed (p : Parameter) {t : ParseTree} (ht : t.Grown) (hlaid : t.Laid)
    (hrule : t.rule.nullable = false) :
    Placed t.start t.stop (argumentStages contexts p (Draft.argument r t)) := by
  obtain ⟨hplaced, hlo, hhi⟩ := leafStages_placed contexts r p ht hlaid hrule
  exact hplaced.append_check (isCheck_leafStages contexts p _) rfl rfl hlo hhi

/-- The stages of arguments in a row. -/
theorem arguments_placed {lo hi : Nat} {ts : List ParseTree} (hrow : Row lo hi ts)
    (hgrown : ∀ t ∈ ts, t.Grown) (hlaid : ∀ t ∈ ts, t.Laid)
    (hrules : ∀ t ∈ ts, t.rule.nullable = false) (ps : List Parameter) :
    Placed lo hi
      (List.zipWith (argumentStages contexts) ps (ts.map (Draft.argument r))).flatten := by
  induction hrow generalizing ps with
  | nil =>
    rw [List.map_nil, List.zipWith_nil_right]
    exact .nil _ _
  | cons hlo ht hrest ih =>
    obtain ⟨hgrown, hgrowns⟩ := List.forall_mem_cons.mp hgrown
    obtain ⟨hlaid, hlaids⟩ := List.forall_mem_cons.mp hlaid
    obtain ⟨hrule, hrules⟩ := List.forall_mem_cons.mp hrules
    cases ps with
    | nil => exact .nil _ _
    | cons p ps =>
      rw [List.map_cons, List.zipWith_cons_cons, List.flatten_cons]
      -- the stages of the first argument stand before those of the others
      have hfirst := argumentStages_placed contexts r p hgrown hlaid hrule
      exact (hfirst.mono hlo le_rfl).append (ih hgrowns hlaids hrules ps) (hlo.trans ht) hrest.le

/-- **The stages of a call** stand in its node. -/
theorem callOf_placed {around : Surroundings} {t : ParseTree} {c : DraftCall} (ht : t.Grown)
    (hlaid : t.Laid) (h : Draft.callOf r around t = .ok c) :
    Placed t.start t.stop (callStages contexts c) := by
  obtain ⟨callee, args, hchildren, -, hrule, -, harguments, -⟩ := Draft.callOf_ok h
  obtain ⟨rule, b, e, text, ts⟩ := t
  cases hchildren
  cases hlaid with
  | node _ hrow hlaids =>
    have hmem : args ∈ [callee, args] := by simp
    -- the arguments stand inside the node of the call
    have hargs := hlaids args hmem
    have hgrown := ht.branches.grown args hmem
    obtain ⟨hstart, hstop⟩ := hrow.of_mem hmem
    obtain ⟨arule, ab, ae, atext, ats⟩ := args
    cases hrule
    obtain ⟨hsolid, htoken⟩ := solid_body .call (.inr (.inr rfl))
    have hbranches := hgrown.branches
    cases hargs with
    | node _ hrow' hlaids' =>
      rw [callStages, harguments]
      exact (arguments_placed contexts r hrow' hbranches.grown hlaids'
        ((hbranches.finds htoken).not_nullable hsolid) _).mono hstart hstop

/-- The stages of the operands of a chain. -/
theorem operands_placed {rule : Rule} {lo hi : Nat} {ts : List ParseTree} {ds : List Draft}
    (hrow : Row lo hi ts)
    (hplaced : ∀ t ∈ ts, ∀ d, Draft.ofTree r .chain t = .ok d →
      Placed t.start t.stop (stages contexts d))
    (h : Draft.operands r rule ts = .ok ds) :
    Placed lo hi ((Draft.callsOfEach ds).flatMap (callStages contexts)) := by
  induction hrow generalizing ds with
  | nil =>
    cases h
    exact .nil _ _
  | @cons lo hi t ts hlo ht hrest ih =>
    obtain ⟨hfirst, hothers⟩ := List.forall_mem_cons.mp hplaced
    rw [Draft.operands] at h
    by_cases hrule : t.rule = rule
    · rw [if_pos hrule] at h
      split at h
      · rename_i d hd
        obtain ⟨ds', hds', rfl⟩ := map_eq_ok h
        rw [Draft.callsOfEach, List.flatMap_append]
        exact ((hfirst d hd).mono hlo le_rfl).append (ih hothers hds') (hlo.trans ht) hrest.le
      · cases h
    · -- a word between the operands has no stages
      rw [if_neg hrule] at h
      exact (ih hothers h).mono (hlo.trans ht) le_rfl

/-- **The stages of a condition** stand in its node. -/
theorem ofTree_placed {t : ParseTree} (ht : t.Grown) : ∀ around d, t.Laid →
    Draft.ofTree r around t = .ok d → Placed t.start t.stop (stages contexts d) := by
  refine ParseTree.Grown.induct ?_ ht
  intro rule b e text ts hgrown ih around d hlaid h
  have hwhole := hlaid
  cases hlaid with
  | node _ hrow hlaids =>
    cases Draft.ofTree_cases hgrown.branches h with
    | @layer child _ hchild _ h' =>
      subst hchild
      -- the part stands inside its layer
      obtain ⟨hstart, hstop⟩ := hrow.of_mem (List.mem_singleton_self child)
      exact (ih child (by simp) around d (hlaids child (by simp)) h').mono hstart hstop
    | @not word operand d hchildren _ _ h' =>
      subst hchildren
      have hmem : operand ∈ [word, operand] := by simp
      obtain ⟨hstart, hstop⟩ := hrow.of_mem hmem
      exact (ih operand hmem .negation d (hlaids operand hmem) h').mono hstart hstop
    | any _ _ _ h' =>
      exact operands_placed contexts r hrow (fun t ht d => ih t ht .chain d (hlaids t ht)) h'
    | all _ _ _ h' =>
      exact operands_placed contexts r hrow (fun t ht d => ih t ht .chain d (hlaids t ht)) h'
    | @call c _ h' =>
      rw [stages, Draft.calls, List.flatMap_singleton]
      exact callOf_placed contexts r hgrown hwhole h'

/-- The stages of an aggregation stand in its node. -/
theorem aggregationOfTree_placed {t : ParseTree} {c : DraftCall} (ht : t.Grown) :
    t.Laid → Draft.aggregationOfTree r t = .ok c →
      Placed t.start t.stop (callStages contexts c) := by
  refine ParseTree.Grown.induct ?_ ht
  intro rule b e text ts hgrown ih hlaid h
  have hwhole := hlaid
  cases hlaid with
  | node _ hrow hlaids =>
    -- a layer, or the call itself
    rcases Draft.aggregationOfTree_cases h with ⟨child, hchild, -, h'⟩ | ⟨-, h'⟩
    · subst hchild
      obtain ⟨hstart, hstop⟩ := hrow.of_mem (List.mem_singleton_self child)
      exact (ih child (by simp) (hlaids child (by simp)) h').mono hstart hstop
    · exact callOf_placed contexts r hgrown hwhole h'

end Resolve

end CatalogQuery
