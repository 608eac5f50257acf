import CatalogQuery.Proofs.Grammar.Layers

/-!
# Matching chains

A chain of operands with a word between any two is matched if each operand is, up to what follows it
(`Further.chain_matches`). How much is skipped between the words and the operands does not matter.
-/

namespace CatalogQuery.Grammar

/-- Where skipping ended nothing more is skipped. -/
theorem skipped_skipFrom (inComment : Bool) (offset : Nat) (cs : List Char) :
    skipped (skipFrom inComment offset cs).1 = (skipFrom inComment offset cs).1 := by
  fun_induction skipFrom inComment offset cs with
  | case1 => rfl
  | case2 => exact skipped_cons (by decide) _
  -- skipping goes on behind what was passed over
  | case3 _ _ _ ih | case4 _ _ _ _ _ ih | case5 _ _ _ _ _ _ ih | case6 _ _ _ _ _ ih
  | case7 _ _ _ _ _ _ ih | case8 _ _ _ _ _ _ ih | case9 _ _ _ _ _ _ _ ih => exact ih
  | case10 =>
    -- a backslash that continues no line
    unfold skipped skipFrom
    simp_all
  | case11 _ _ c cs _ hblank hhash hbackslash =>
    have hsolid : Solid c := by simp_all [Solid]
    exact skipped_cons hsolid cs

theorem skipped_skipped (cs : List Char) : skipped (skipped cs) = skipped cs :=
  skipped_skipFrom false 0 cs

theorem Mode.spaced_next (cs : List Char) : Mode.spaced.next cs = skipped cs := rfl

/-! ### Chains -/

section Chains

variable {α : Type} {operand operator : Rule} {word : String} {P : α → ParseTree → Prop}
  {rest v : List Char} {x : α} {xs : List α}

/-- Words and operands in turn, the operands with the properties of the items. -/
inductive Paired (operand : Rule) (P : α → ParseTree → Prop) : List α → List ParseTree → Prop where
  | nil : Paired operand P [] []
  | cons {x : α} {xs : List α} {w t : ParseTree} {ts : List ParseTree} (hw : w.rule ≠ operand)
      (h : P x t) (ht : t.rule = operand) (hs : Paired operand P xs ts) :
      Paired operand P (x :: xs) (w :: t :: ts)

/-- A text goes on with an operand for each item, each behind the word, up to `rest`. -/
inductive Further (operand : Rule) (word : String) (P : α → ParseTree → Prop) (rest : List Char) :
    List α → List Char → Prop where
  | nil : Further operand word P rest [] rest
  | cons {x : α} {xs : List α} {v u w : List Char} (hword : skipped v = word.toList ++ u)
      (hends : Ends u)
      (hoperand : Matches .spaced (.rule operand) (skipped u) (skipped w) (Found (P x)))
      (h : Further operand word P rest xs w) : Further operand word P rest (x :: xs) v

namespace Further

/-- One further operand, with its word. -/
theorem step (hbody : operator.body = Grammar.word word) (hflavor : operator.flavor = .token)
    (hne : operator ≠ operand) {u w : List Char} (hword : skipped v = word.toList ++ u)
    (hends : Ends u)
    (hoperand : Matches .spaced (.rule operand) (skipped u) (skipped w) (Found (P x))) :
    Matches .spaced (.seq (.rule operator) (.rule operand)) (skipped v) (skipped w)
      fun ts => ∃ word t, ts = [word, t] ∧ word.rule ≠ operand ∧ P x t ∧ t.rule = operand := by
  have hkeyword := keyword_matches (m := .spaced) rfl hbody hflavor hends
  rw [hword]
  refine (hkeyword.seq (by rw [Mode.spaced_next]; exact hoperand.and_rule)).imp ?_
  rintro _ ⟨_, _, rfl, ⟨_, rfl, b, e, rfl⟩, t, rfl, ht, hrule⟩
  exact ⟨_, t, rfl, hne, ht, hrule⟩

/-- The further operands are matched one by one. -/
theorem more_matches (hbody : operator.body = Grammar.word word)
    (hflavor : operator.flavor = .token) (hne : operator ≠ operand)
    (hend : Refuses .spaced (.rule operator) (skipped rest))
    (h : Further operand word P rest xs v) :
    Matches .spaced (.more (.seq (.rule operator) (.rule operand))) (skipped v) (skipped rest)
      (Paired operand P xs) := by
  induction h with
  | nil =>
    -- no operator follows the last operand
    have hnone : Refuses .spaced (.seq (.rule operator) (.rule operand))
        (Mode.spaced.next (skipped rest)) := by
      rw [Mode.spaced_next, skipped_skipped]
      exact .seq_left hend
    refine (Matches.more_none hnone).imp ?_
    rintro _ rfl
    exact .nil
  | cons hword hends hoperand _ ih =>
    -- one operator with its operand, then the others
    have hstep := step hbody hflavor hne hword hends hoperand
    rw [← skipped_skipped] at hstep
    refine (Matches.more_some hstep ih).imp ?_
    rintro _ ⟨_, ts, rfl, ⟨word, t, rfl, hne, ht, hrule⟩, hts⟩
    exact .cons hne ht hrule hts

/-- **A chain is matched**: its first operand, and every other behind the word of the chain. -/
theorem chain_matches (hbody : operator.body = Grammar.word word)
    (hflavor : operator.flavor = .token) (hne : operator ≠ operand) {cs : List Char}
    (hfirst : Matches .spaced (.rule operand) cs (skipped v) (Found (P x)))
    (hend : Refuses .spaced (.rule operator) (skipped rest))
    (h : Further operand word P rest xs v) :
    Matches .spaced (chain (.rule operand) (.rule operator)) cs (skipped rest)
      fun ts => ∃ first others, ts = first :: others ∧ P x first ∧ first.rule = operand ∧
        Paired operand P xs others := by
  -- the first operator decides whether there are other operands at all
  have hothers : Matches .spaced (.many (.seq (.rule operator) (.rule operand))) (skipped v)
      (skipped rest) (Paired operand P xs) := by
    cases h with
    | nil =>
      refine (Matches.many_none (.seq_left hend)).imp ?_
      rintro _ rfl
      exact .nil
    | cons hword hends hoperand h =>
      refine (Matches.many_some (step hbody hflavor hne hword hends hoperand)
        (h.more_matches hbody hflavor hne hend)).imp ?_
      rintro _ ⟨_, ts, rfl, ⟨word, t, rfl, hne, ht, hrule⟩, hts⟩
      exact .cons hne ht hrule hts
  refine (hfirst.and_rule.seq (by rw [Mode.spaced_next, skipped_skipped]; exact hothers)).imp ?_
  rintro _ ⟨_, others, rfl, ⟨first, rfl, ht, hrule⟩, hts⟩
  exact ⟨first, others, rfl, ht, hrule, hts⟩

end Further

end Chains

end CatalogQuery.Grammar
