import CatalogQuery.Query.Condition
import Mathlib.Data.List.Basic

/-!
# Formulas and their standard reading

A formula is a row of tokens: calls, the words `and`, `or` and `not`, and parentheses. `IsFormula`
says which rows are formulas, and leaves open what binds tighter than what. The `Standard` reading
says what a formula means: `not` binds tighter than `and`, and `and` tighter than `or`; the operands
of a chain of one word are collected in one node, parentheses keep what is inside them apart, and
leave no other trace. Every formula has a standard reading (`IsFormula.exists_standard`).
-/

namespace CatalogQuery.Formula

/-! ### Formulas -/

/-- The tokens of a formula over some calls. -/
inductive Token (α : Type) where
  | call (a : α)
  | and
  | or
  | not
  | opening
  | closing

/-- The rows of tokens that are formulas. -/
inductive IsFormula {α : Type} : List (Token α) → Prop where
  | call (a : α) : IsFormula [.call a]
  | group {ts : List (Token α)} (h : IsFormula ts) : IsFormula (.opening :: (ts ++ [.closing]))
  | not {ts : List (Token α)} (h : IsFormula ts) : IsFormula (.not :: ts)
  | and {ts us : List (Token α)} (h : IsFormula ts) (h' : IsFormula us) :
      IsFormula (ts ++ .and :: us)
  | or {ts us : List (Token α)} (h : IsFormula ts) (h' : IsFormula us) :
      IsFormula (ts ++ .or :: us)

/-! ### The standard reading -/

/-- How tight a row of tokens is bound, from the tightest. -/
inductive Tier where
  | operand
  | negation
  | conjunction
  | disjunction

/-- Rows of tokens with a separator between any two. -/
def separated {α : Type} (separator : Token α) (first : List (Token α))
    (others : List (List (Token α))) : List (Token α) :=
  first ++ others.flatMap (separator :: ·)

/-- One operand is what it is, and several make a node. -/
def combined (make : List Condition → Condition) (first : Condition) :
    List Condition → Condition
  | [] => first
  | others => make (first :: others)

/-- The standard reading of a row of tokens, given what the calls mean. -/
inductive Standard {α : Type} (meaning : α → Condition) :
    Tier → List (Token α) → Condition → Prop where
  | call (a : α) : Standard meaning .operand [.call a] (meaning a)
  | group {ts : List (Token α)} {c : Condition} (h : Standard meaning .disjunction ts c) :
      Standard meaning .operand (.opening :: (ts ++ [.closing])) c
  | operand {ts : List (Token α)} {c : Condition} (h : Standard meaning .operand ts c) :
      Standard meaning .negation ts c
  | not {ts : List (Token α)} {c : Condition} (h : Standard meaning .negation ts c) :
      Standard meaning .negation (.not :: ts) (.not c)
  | conjunction (first : List (Token α) × Condition) (others : List (List (Token α) × Condition))
      (h : ∀ p ∈ first :: others, Standard meaning .negation p.1 p.2) :
      Standard meaning .conjunction (separated .and first.1 (others.map Prod.fst))
        (combined .all first.2 (others.map Prod.snd))
  | disjunction (first : List (Token α) × Condition) (others : List (List (Token α) × Condition))
      (h : ∀ p ∈ first :: others, Standard meaning .conjunction p.1 p.2) :
      Standard meaning .disjunction (separated .or first.1 (others.map Prod.fst))
        (combined .any first.2 (others.map Prod.snd))

namespace Standard

variable {α : Type} {meaning : α → Condition} {tier : Tier} {ts us : List (Token α)}
  {c d : Condition}

/-! A row that is bound tightly is also a chain of one operand. -/

theorem to_conjunction (h : Standard meaning .negation ts c) :
    Standard meaning .conjunction ts c := by
  have hone := Standard.conjunction (ts, c) [] (List.forall_mem_singleton.mpr h)
  rwa [List.map_nil, separated, List.flatMap_nil, List.append_nil] at hone

theorem to_disjunction (h : Standard meaning .conjunction ts c) :
    Standard meaning .disjunction ts c := by
  have hone := Standard.disjunction (ts, c) [] (List.forall_mem_singleton.mpr h)
  rwa [List.map_nil, separated, List.flatMap_nil, List.append_nil] at hone

/-! Two chains of one word are one chain. -/

theorem separated_append (separator : Token α) (first first' : List (Token α))
    (others others' : List (List (Token α))) :
    separated separator first others ++ separator :: separated separator first' others'
      = separated separator first (others ++ first' :: others') := by
  simp [separated]

theorem conjunction_and (h : Standard meaning .conjunction ts c)
    (h' : Standard meaning .conjunction us d) :
    ∃ e, Standard meaning .conjunction (ts ++ .and :: us) e := by
  cases h with
  | conjunction first others h =>
    cases h' with
    | conjunction first' others' h' =>
      have hall : ∀ p ∈ (first :: others) ++ first' :: others', Standard meaning .negation p.1 p.2 :=
        List.forall_mem_append.mpr ⟨h, h'⟩
      have hchain := Standard.conjunction first (others ++ first' :: others') hall
      rw [List.map_append, List.map_cons, ← separated_append] at hchain
      exact ⟨_, hchain⟩

theorem disjunction_or (h : Standard meaning .disjunction ts c)
    (h' : Standard meaning .disjunction us d) :
    ∃ e, Standard meaning .disjunction (ts ++ .or :: us) e := by
  cases h with
  | disjunction first others h =>
    cases h' with
    | disjunction first' others' h' =>
      have hall : ∀ p ∈ (first :: others) ++ first' :: others',
          Standard meaning .conjunction p.1 p.2 := List.forall_mem_append.mpr ⟨h, h'⟩
      have hchain := Standard.disjunction first (others ++ first' :: others') hall
      rw [List.map_append, List.map_cons, ← separated_append] at hchain
      exact ⟨_, hchain⟩

/-- Between two disjunctions `and` joins the last operand of the one and the first of the other. -/
theorem disjunction_and (h : Standard meaning .disjunction ts c)
    (h' : Standard meaning .disjunction us d) :
    ∃ e, Standard meaning .disjunction (ts ++ .and :: us) e := by
  cases h with
  | disjunction first others h =>
    cases h' with
    | disjunction first' others' h' =>
      obtain ⟨hfirst', hothers'⟩ := List.forall_mem_cons.mp h'
      -- the last operand of the first disjunction is its only one, or stands behind others
      rcases List.eq_nil_or_concat others with rfl | ⟨others, last, rfl⟩
      · obtain ⟨e, he⟩ := (h first List.mem_cons_self).conjunction_and hfirst'
        have hall : ∀ p ∈ (first.1 ++ .and :: first'.1, e) :: others',
            Standard meaning .conjunction p.1 p.2 := List.forall_mem_cons.mpr ⟨he, hothers'⟩
        have htokens : separated .or first.1 (([] : List (List (Token α) × Condition)).map Prod.fst)
              ++ .and :: separated .or first'.1 (others'.map Prod.fst)
            = separated .or (first.1 ++ .and :: first'.1) (others'.map Prod.fst) := by
          simp [separated]
        rw [htokens]
        exact ⟨_, .disjunction _ _ hall⟩
      · have hlast : last ∈ first :: others.concat last := by simp
        obtain ⟨e, he⟩ := (h last hlast).conjunction_and hfirst'
        have hall : ∀ p ∈ (first :: others) ++ (last.1 ++ .and :: first'.1, e) :: others',
            Standard meaning .conjunction p.1 p.2 := by
          refine List.forall_mem_append.mpr ⟨fun p hp => h p ?_, List.forall_mem_cons.mpr ⟨he, hothers'⟩⟩
          rcases List.mem_cons.mp hp with rfl | hp
          · exact List.mem_cons_self
          · simp [hp]
        have htokens : separated .or first.1 ((others.concat last).map Prod.fst)
              ++ .and :: separated .or first'.1 (others'.map Prod.fst)
            = separated .or first.1
              ((others ++ (last.1 ++ .and :: first'.1, e) :: others').map Prod.fst) := by
          simp [separated]
        rw [htokens]
        exact ⟨_, .disjunction _ _ hall⟩

/-- In front of a disjunction `not` belongs to the first operand of its first operand. -/
theorem disjunction_not (h : Standard meaning .disjunction ts c) :
    ∃ e, Standard meaning .disjunction (.not :: ts) e := by
  cases h with
  | disjunction first others h =>
    obtain ⟨ts, c⟩ := first
    obtain ⟨hfirst, hothers⟩ := List.forall_mem_cons.mp h
    -- the first operand is a conjunction, whose first operand takes the `not`
    obtain ⟨e, he⟩ : ∃ e, Standard meaning .conjunction (.not :: ts) e := by
      cases hfirst with
      | conjunction inner chain hchain =>
        obtain ⟨hinner, hlater⟩ := List.forall_mem_cons.mp hchain
        exact ⟨_, .conjunction (.not :: inner.1, .not inner.2) chain
          (List.forall_mem_cons.mpr ⟨.not hinner, hlater⟩)⟩
    exact ⟨_, .disjunction (.not :: ts, e) others (List.forall_mem_cons.mpr ⟨he, hothers⟩)⟩

end Standard

/-- **Every formula has a standard reading.** -/
theorem IsFormula.exists_standard {α : Type} (meaning : α → Condition) {ts : List (Token α)}
    (h : IsFormula ts) : ∃ c, Standard meaning .disjunction ts c := by
  -- an operand alone is a formula of one conjunction
  have hwhole : ∀ {ts : List (Token α)} {c : Condition}, Standard meaning .operand ts c →
      Standard meaning .disjunction ts c := fun h => h.operand.to_conjunction.to_disjunction
  induction h with
  | call a => exact ⟨_, hwhole (.call a)⟩
  | group _ ih =>
    obtain ⟨c, hc⟩ := ih
    exact ⟨c, hwhole hc.group⟩
  | not _ ih =>
    obtain ⟨c, hc⟩ := ih
    exact hc.disjunction_not
  | and _ _ ih ih' =>
    obtain ⟨c, hc⟩ := ih
    obtain ⟨d, hd⟩ := ih'
    exact hc.disjunction_and hd
  | or _ _ ih ih' =>
    obtain ⟨c, hc⟩ := ih
    obtain ⟨d, hd⟩ := ih'
    exact hc.disjunction_or hd

end CatalogQuery.Formula
