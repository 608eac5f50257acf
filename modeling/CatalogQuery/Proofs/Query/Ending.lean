import CatalogQuery.Proofs.Draft.Bounded
import CatalogQuery.Proofs.Grammar.Gaps

/-!
# Parsing ends

Whatever the text is, with brackets that are never closed or that stand inside one another to any
depth, it is accepted or rejected, and narrowing comes to the end of every tree (`parsing_ends`).
Three facts carry the first half: each chain of calls between rules consumes something or goes down
in rank, each repetition consumes something, and so does each step of skipping. The second half is
the depth of the tree.
-/

namespace CatalogQuery

open Grammar Relation

/-- **Parsing ends on every text.**

* Matching accepts or rejects the text, in the same way for any fuel from `fuelFor` on.
* A run is without fuel in the end only if one of its calls is. On each chain of calls below a rule
  fewer bytes are left or the expression is less high, and between rules fewer bytes are left or the
  rank falls.
* What is repeated in a rule takes at least one byte each time. What is skipped is gaps, as many as
  there are, and what is repeated in these takes at least one byte each time, too.
* At each node of the tree the steps of narrowing end. -/
theorem parsing_ends :
    (∀ cs,
      (∃ after tree, (∀ n, fuelFor cs ≤ n →
          run n (.rule .program) .spaced (.initial cs) = .matched after) ∧
        after.found = [tree] ∧ parse cs = .ok tree) ∨
      ∃ f, (∀ n, fuelFor cs ≤ n → run n (.rule .program) .spaced (.initial cs) = .failed f) ∧
        parse cs = .error f) ∧
    (∀ (n : Nat) (x : Site), x.run (n + 1) = .outOfFuel →
      ∃ y, x.Calls y ∧ y.run n = .outOfFuel) ∧
    (∀ r m s x y, ReflTransGen Site.Calls ⟨.rule r, m, s⟩ x → TransGen Site.Calls x y →
      x.Less y) ∧
    (∀ r r' m m' s s', TransGen Site.Calls ⟨.rule r, m, s⟩ ⟨.rule r', m', s'⟩ →
      Source.byteLength s'.rest < Source.byteLength s.rest ∨
        s'.rest = s.rest ∧ r'.rank < r.rank) ∧
    (∀ r : Rule, ∀ a ∈ r.body.repeated, a.Consumes) ∧
    (∀ c : Cursor, Reads .plain gaps c (some (c.skip .spaced, []))) ∧
    (∀ a ∈ gaps.repeated, a.Consumes) ∧
    ∀ cs tree, parse cs = .ok tree → ∀ r, tree.Everywhere (Draft.Bounded.Ends r) :=
  ⟨parse_settled, fun _ _ => Site.exists_calls_of_outOfFuel, fun _ _ _ _ _ => Site.less_of_chain,
    fun _ _ _ _ _ _ => Site.rank_descends, fun _ => consumes_of_mem_repeated, gaps_reads,
    consumes_of_mem_gaps, fun _ _ h r => Draft.Bounded.everywhere_ends r (parse_grown h)⟩

/-- Brackets that are never closed are rejected; a negation in a negation has fewer bytes left, and
a conjunction below a disjunction at the same place a lower rank; a digit behind an underscore and a
comment take some bytes; and narrowing ends at each node of nested brackets with a sign in them. -/
theorem parsing_ends_nested :
    (∃ f, (∀ n, fuelFor "f([(1".toList ≤ n →
        run n (.rule .program) .spaced (.initial "f([(1".toList) = .failed f) ∧
      parse "f([(1".toList = .error f) ∧
    (∃ s, TransGen Site.Calls ⟨.rule .negation, .spaced, .initial ['n', 'o', 't', ' ', 'x']⟩
        ⟨.rule .negation, .spaced, s⟩ ∧
      Source.byteLength s.rest < Source.byteLength ['n', 'o', 't', ' ', 'x']) ∧
    (TransGen Site.Calls ⟨.rule .disjunction, .spaced, .initial ['x']⟩
        ⟨.rule .conjunction, .spaced, .initial ['x']⟩ ∧
      Rule.conjunction.rank < Rule.disjunction.rank) ∧
    (∃ a ∈ Rule.int.body.repeated, ∃ after, run 5 a .plain (.initial ['_', '2']) = .matched after ∧
      Source.byteLength after.rest < Source.byteLength ['_', '2']) ∧
    (∃ a ∈ gaps.repeated, ∃ after, run 20 a .plain (.initial ['#', 'é', '\n']) = .matched after ∧
      Source.byteLength after.rest < Source.byteLength ['#', 'é', '\n']) ∧
    ∃ tree, parse "f([(-1)])".toList = .ok tree ∧ ∀ r, tree.Everywhere (Draft.Bounded.Ends r) := by
  obtain ⟨hsettled, -, -, hrank, hrepeated, -, hgaps, hnarrowing⟩ := parsing_ends
  refine ⟨?_, ?_, ?_, ?_, ?_, ?_⟩
  · rcases hsettled "f([(1".toList with ⟨after, tree, -, -, htree⟩ | hfails
    · -- the brackets are open
      have hnone : (parse "f([(1".toList).toOption.isSome = false := by decide +kernel
      rw [htree] at hnone
      cases hnone
    · exact hfails
  · obtain ⟨after, hafter⟩ : ∃ after, run 10 (.rule .kwNot) .spaced
        { State.initial ['n', 'o', 't', ' ', 'x'] with found := [] } = .matched after := ⟨_, rfl⟩
    have hchain : TransGen Site.Calls ⟨.rule .negation, .spaced, .initial ['n', 'o', 't', ' ', 'x']⟩
        ⟨.rule .negation, .spaced, after.skip .spaced⟩ :=
      .head (.node rfl) (.head .choice_left (.single (.seq_right hafter)))
    rcases hrank _ _ _ _ _ _ hchain with hlt | ⟨-, hlt⟩
    · exact ⟨_, hchain, hlt⟩
    · exact absurd hlt (Nat.lt_irrefl _)
  · have hchain : TransGen Site.Calls ⟨.rule .disjunction, .spaced, .initial ['x']⟩
        ⟨.rule .conjunction, .spaced, .initial ['x']⟩ := .head (.node rfl) (.single .seq_left)
    rcases hrank _ _ _ _ _ _ hchain with hlt | ⟨-, hlt⟩
    · exact absurd hlt (Nat.lt_irrefl _)
    · exact ⟨hchain, hlt⟩
  · have hafter : run 5 (.seq (.optional (.text ['_'])) (.char .digit)) .plain (.initial ['_', '2'])
        = .matched ⟨[], 2, [], .start⟩ := rfl
    have hmem : .seq (.optional (.text ['_'])) (.char .digit) ∈ Rule.int.body.repeated := by decide
    exact ⟨_, hmem, _, hafter, hrepeated .int _ hmem 5 .plain _ _ hafter⟩
  · have hafter : run 20 gap .plain (.initial ['#', 'é', '\n'])
        = .matched ⟨['\n'], 3, [], .start⟩ := rfl
    have hmem : gap ∈ gaps.repeated := List.mem_cons_self
    exact ⟨gap, hmem, _, hafter, hgaps gap hmem 20 .plain _ _ hafter⟩
  · cases htree : parse "f([(-1)])".toList with
    | ok tree => exact ⟨tree, rfl, hnarrowing _ tree htree⟩
    | error f =>
      have hsome : (parse "f([(-1)])".toList).toOption.isSome = true := by decide +kernel
      rw [htree] at hsome
      cases hsome

end CatalogQuery
