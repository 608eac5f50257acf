import CatalogQuery.Proofs.Grammar.Chains
import CatalogQuery.Proofs.Grammar.InStep

/-!
# Arguments of calls

A node `IsArgument` if it is what is read as an argument somewhere, in front of a comma or a closing
bracket. The parts of every call in a parse tree are arguments in this sense (`parse_arguments`), so
that what a text is read as wherever an argument may end is what each argument with this text is.
-/

namespace CatalogQuery.Grammar

variable {c c' : Cursor} {ts : List ParseTree}

/-- The node is read as an argument, and an argument may end behind it. -/
def ParseTree.IsArgument (a : ParseTree) : Prop :=
  ∃ c c', Reads .spaced argument c (some (c', [a])) ∧ Closed (skipped c'.rest)

theorem finds_argument (h : argument.Finds ts) : ∃ a, ts = [a] := by
  rcases h with ⟨a, rfl, -⟩ | ⟨a, rfl, -⟩ | ⟨a, rfl, -⟩ <;> exact ⟨a, rfl⟩

/-- The text of a node is what its rule has passed over. -/
theorem Reads.rule_text {r : Rule} {t : ParseTree}
    (h : Reads .spaced (.rule r) c (some (c', [t]))) : c.rest = t.text ++ c'.rest := by
  obtain ⟨w, hw, -⟩ := h.before
  generalize ho : some (c', [t]) = o at h
  cases h with
  | node =>
    cases ho
    rw [hw]
    exact congrArg (· ++ c'.rest) (Cursor.textTo_eq hw).symm
  | bare hm => cases hm
  | rule_fails => cases ho

theorem Reads.argument_text {a : ParseTree} (h : Reads .spaced argument c (some (c', [a]))) :
    c.rest = a.text ++ c'.rest := by
  cases h with
  | choice_left h => exact h.rule_text
  | choice_right _ h =>
    cases h with
    | choice_left h => exact h.rule_text
    | choice_right _ h => exact h.rule_text

/-! ### Rows of arguments -/

/-- Where a comma or a closing bracket is read, an argument may end. -/
theorem Reads.closed_of_text {m : Mode} {t : List Char} {s : Char} (hs : s ∈ [',', ')', ']'])
    (h : Reads m (.text (s :: t)) c (some (c', ts))) : Closed c.rest := by
  cases h with
  | text hrest =>
    rw [hrest]
    rintro _ ⟨⟩
    exact hs

/-- One more argument, behind a comma: in front of the comma another may end. -/
theorem Reads.further_argument
    (h : Reads .spaced (.seq (Expr.lit ",") argument) c (some (c', ts)))
    (hend : Closed (skipped c'.rest)) : Closed c.rest ∧ ∀ a ∈ ts, a.IsArgument := by
  cases h with
  | seq hcomma hargument =>
    obtain ⟨a, rfl⟩ := finds_argument (hargument.finds rfl)
    obtain rfl := hcomma.finds rfl
    exact ⟨hcomma.closed_of_text (by decide), by simpa using ⟨_, _, hargument, hend⟩⟩

/-- All further arguments, each behind a comma. -/
theorem Reads.more_arguments
    (h : Reads .spaced (.more (.seq (Expr.lit ",") argument)) c (some (c', ts)))
    (hend : Closed (skipped c'.rest)) : Closed (skipped c.rest) ∧ ∀ a ∈ ts, a.IsArgument := by
  generalize hm : Mode.spaced = m at h
  generalize he : Expr.more _ = e at h
  generalize ho : some (c', ts) = o at h
  -- that an argument may end is known behind the last one, and so in front of each comma
  induction h generalizing c' ts with
  | @more_some m c _ _ _ _ _ ha _ _ ih =>
    cases he
    cases ho
    subst hm
    obtain ⟨hend₁, hmore⟩ := ih hend rfl rfl rfl
    obtain ⟨hclosed, hfirst⟩ := ha.further_argument hend₁
    rw [Cursor.skip_rest] at hclosed
    exact ⟨hclosed, List.forall_mem_append.mpr ⟨hfirst, hmore⟩⟩
  | more_none =>
    cases ho
    exact ⟨hend, by simp⟩
  | _ => cases he

/-- **The parts of a call are arguments.** -/
theorem Reads.call_arguments (h : Reads .spaced Rule.call.body c (some (c', ts))) :
    ∀ a ∈ ts, a.IsArgument := by
  have hskip : ∀ c : Cursor, Closed (skipped (c.skip .spaced).rest) → Closed (skipped c.rest) := by
    intro c h
    rwa [Cursor.skip_rest, Mode.next, if_pos rfl, skipped_skipped] at h
  cases h with
  | seq hopen h =>
  cases h with
  | @seq _ _ c₂ _ _ _ _ _ hlist hclose =>
  obtain rfl := hopen.finds rfl
  obtain rfl := hclose.finds rfl
  have hend : Closed (skipped c₂.rest) := by
    have hclosed := hclose.closed_of_text (by decide)
    rwa [Cursor.skip_rest] at hclosed
  rw [List.nil_append, List.append_nil]
  cases hlist with
  | optional_none => simp
  | optional_some h =>
  cases h with
  | @seq _ _ c₄ _ _ _ _ _ hfirst h =>
  cases h with
  | @seq _ _ c₃ _ _ _ _ us hmany hcomma =>
  obtain rfl : us = [] := (hcomma.finds rfl).elim id id
  -- behind the last argument there is a comma or the bracket
  have hend₃ : Closed (skipped c₃.rest) := by
    cases hcomma with
    | optional_some h =>
      have hclosed := h.closed_of_text (by decide)
      rwa [Cursor.skip_rest] at hclosed
    | optional_none => exact hskip _ hend
  obtain ⟨a, rfl⟩ := finds_argument (hfirst.finds rfl)
  rw [List.append_nil, List.singleton_append]
  cases hmany with
  | many_none => simpa using ⟨_, _, hfirst, hskip _ hend₃⟩
  | many_some ha hmore =>
    obtain ⟨hend₅, hmore⟩ := hmore.more_arguments hend₃
    obtain ⟨hclosed, hothers⟩ := ha.further_argument hend₅
    rw [Cursor.skip_rest] at hclosed
    exact List.forall_mem_cons.mpr
      ⟨⟨_, _, hfirst, hclosed⟩, List.forall_mem_append.mpr ⟨hothers, hmore⟩⟩

/-! ### Whole trees -/

/-- A node is no call, or its parts are arguments. -/
def ParseTree.CallsArguments (t : ParseTree) : Prop :=
  t.rule = .call → ∀ a ∈ t.children, a.IsArgument

theorem Reads.calls_arguments {m : Mode} {e : Expr} (hm : m = .spaced)
    (h : Reads m e c (some (c', ts))) : ∀ t ∈ ts, t.Everywhere (·.CallsArguments) := by
  generalize ho : some (c', ts) = o at h
  induction h generalizing c' ts with
  | nothing | atEnd | text | anyCase | char | optional_none | many_none | more_none | absent =>
    cases ho
    simp
  | @node m c c' r ts hrecords h ih =>
    cases ho
    subst hm
    refine List.forall_mem_singleton.mpr (.node ?_ ?_)
    · rintro (rfl : r = .call)
      exact h.call_arguments
    · cases hflavor : r.flavor with
      | spaced => exact ih (by rw [hflavor]; rfl) rfl
      | token =>
        rw [h.eq_nil (by rw [hflavor]; rfl)]
        simp
      | tight =>
        -- in quoted literals there are no calls
        have hrecords : (Mode.spaced.inside r.flavor).records = true := by rw [hflavor]; rfl
        have hgrown := h.grown hrecords
        have hbranches : ParseTree.Branches r ts :=
          ⟨hgrown, by simp [hflavor], fun _ => h.finds hrecords⟩
        intro t ht
        exact ((hgrown t ht).ne_of_mem_quoteRules (r := .call) (by decide)
          (hbranches.mem_quoteRules (mem_of_tight hflavor) t ht)).imp fun _ hne hcall =>
            absurd hcall hne
  | bare hrecords =>
    rw [hm] at hrecords
    cases hrecords
  | seq _ _ iha ihb | many_some _ _ iha ihb | more_some _ _ iha ihb =>
    cases ho
    exact List.forall_mem_append.mpr ⟨iha hm rfl, ihb hm rfl⟩
  | choice_left _ iha | optional_some _ iha => exact iha hm ho
  | choice_right _ _ _ ihb => exact ihb hm ho
  | atEnd_fails | text_fails | anyCase_fails | char_fails | rule_fails | seq_fails_left
  | seq_fails_right | absent_fails => cases ho

/-- **The parts of all calls of a parse tree are arguments.** -/
theorem parse_arguments {cs : List Char} {tree : ParseTree} (h : parse cs = .ok tree) :
    tree.Everywhere (·.CallsArguments) := by
  obtain ⟨c, hc⟩ := parse_eq_ok_iff.mp h
  exact hc.calls_arguments rfl tree (List.mem_singleton_self tree)

end CatalogQuery.Grammar
