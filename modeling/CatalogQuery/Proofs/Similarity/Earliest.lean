import CatalogQuery.Similarity.Choices
import Mathlib.Data.List.Induction
import Mathlib.Data.Nat.Basic
import Mathlib.Order.Lattice
import Mathlib.Tactic.Common

/-!
# The earliest of the best choices

`earliestBest` goes through the candidates once and keeps the best one so far. What it keeps is at
each point the `Earliest` of the candidates behind it: candidates before it score less, and those
after it do not score more (`earliestBest_eq_some_iff`). The scores need not be of an ordered type,
if the comparison is that of a key in a linear order.

`closestBy_answer` is what follows for choices that are compared by a score which is greatest on
equal texts: looking an answer up gives it again.
-/

namespace CatalogQuery.Similarity

/-! ### Earliest candidates -/

section Candidates

variable {α β κ : Type} [LinearOrder κ]

/-- The candidate is not too low, beats all earlier candidates, and no later one beats it.
Candidates that are too low do not count. -/
def Earliest (key : α → κ) (low : α → Prop) (candidates : List α) (best : α) : Prop :=
  ∃ before after, candidates = before ++ best :: after ∧ ¬ low best ∧
    (∀ d ∈ before, low d ∨ key d < key best) ∧ ∀ d ∈ after, low d ∨ key d ≤ key best

namespace Earliest

variable {key : α → κ} {low : α → Prop} {candidates : List α} {best best' next : α}

/-- No candidate that counts beats the earliest best. -/
theorem le (h : Earliest key low candidates best) {d : α} (hd : d ∈ candidates) :
    low d ∨ key d ≤ key best := by
  obtain ⟨before, after, rfl, -, hbefore, hafter⟩ := h
  rcases List.mem_append.mp hd with hd | hd
  · exact (hbefore d hd).imp_right le_of_lt
  · rcases List.mem_cons.mp hd with rfl | hd
    · exact .inr le_rfl
    · exact hafter d hd

/-- A later candidate that does not beat the earliest best leaves it. -/
theorem snoc (h : Earliest key low candidates best) (hnext : low next ∨ key next ≤ key best) :
    Earliest key low (candidates ++ [next]) best := by
  obtain ⟨before, after, rfl, hbest, hbefore, hafter⟩ := h
  refine ⟨before, after ++ [next], by simp, hbest, hbefore, ?_⟩
  exact List.forall_mem_append.mpr ⟨hafter, List.forall_mem_singleton.mpr hnext⟩

/-- A candidate that beats all others takes their place. -/
theorem of_last (hnext : ¬ low next) (h : ∀ d ∈ candidates, low d ∨ key d < key next) :
    Earliest key low (candidates ++ [next]) next :=
  ⟨candidates, [], rfl, hnext, h, by simp⟩

theorem unique (h : Earliest key low candidates best) (h' : Earliest key low candidates best') :
    best = best' := by
  have hle := fun {d} => h.le (d := d)
  have hle' := fun {d} => h'.le (d := d)
  obtain ⟨before, after, rfl, hbest, hbefore, -⟩ := h
  obtain ⟨before', after', heq, hbest', hbefore', -⟩ := h'
  -- the earlier of two candidates would be beaten by the later one, which it beats
  rcases List.append_eq_append_iff.mp heq with ⟨t, rfl, ht⟩ | ⟨t, rfl, ht⟩
  · cases t with
    | nil => exact (List.cons.inj ht).1
    | cons c t =>
      obtain rfl : best = c := (List.cons.inj ht).1
      have hlt := (hbefore' best (by simp)).resolve_left hbest
      have hge := (hle (d := best') (by simp [heq])).resolve_left hbest'
      exact absurd hlt (not_lt.mpr hge)
  · cases t with
    | nil => exact (List.cons.inj ht).1.symm
    | cons c t =>
      obtain rfl : best' = c := (List.cons.inj ht).1
      have hlt := (hbefore best' (by simp)).resolve_left hbest'
      have hge := (hle' (d := best) (by simp)).resolve_left hbest
      exact absurd hlt (not_lt.mpr hge)

end Earliest

/-! ### Keeping the best -/

variable {score : α → β} {above : β → β → Bool} {tooLow : β → Bool} {key : α → κ}
  {candidates : List α} {best : α}

/-- **The candidate that is kept** is the earliest best of those gone through, and has its score
with it. By induction on the candidates from the last one, as the fold goes. -/
theorem foldl_keepBest (habove : ∀ x y, above (score x) (score y) = decide (key y < key x))
    (tooLow : β → Bool) (candidates : List α) :
    match candidates.foldl (keepBest score above tooLow) none with
    | none => ∀ d ∈ candidates, tooLow (score d) = true
    | some (best, top) =>
      top = score best ∧ Earliest key (fun d => tooLow (score d) = true) candidates best := by
  induction candidates using List.reverseRecOn with
  | nil => simp
  | append_singleton candidates next ih =>
    rw [List.foldl_append, List.foldl_cons, List.foldl_nil]
    generalize candidates.foldl (keepBest score above tooLow) none = kept at ih ⊢
    by_cases hlow : tooLow (score next) = true
    · -- the next candidate does not count
      rw [keepBest.eq_def, if_pos hlow]
      cases kept with
      | none => exact List.forall_mem_append.mpr ⟨ih, List.forall_mem_singleton.mpr hlow⟩
      | some p => exact ⟨ih.1, ih.2.snoc (.inl hlow)⟩
    · rw [keepBest.eq_def, if_neg hlow]
      cases kept with
      | none => exact ⟨rfl, .of_last hlow fun d hd => .inl (ih d hd)⟩
      | some p =>
        obtain ⟨best, top⟩ := p
        obtain ⟨rfl, hbest⟩ := ih
        dsimp only
        rw [habove]
        by_cases hlt : key best < key next
        · rw [if_pos (decide_eq_true hlt)]
          exact ⟨rfl, .of_last hlow fun d hd => (hbest.le hd).imp_right (lt_of_le_of_lt · hlt)⟩
        · rw [if_neg (by simpa using hlt)]
          exact ⟨rfl, hbest.snoc (.inr (not_lt.mp hlt))⟩

theorem earliestBest_eq_none_iff
    (habove : ∀ x y, above (score x) (score y) = decide (key y < key x)) :
    earliestBest score above tooLow candidates = none ↔
      ∀ d ∈ candidates, tooLow (score d) = true := by
  have hkept := foldl_keepBest habove tooLow candidates
  unfold earliestBest
  cases hfold : candidates.foldl (keepBest score above tooLow) none with
  | none =>
    -- nothing was kept, so that all are too low
    rw [hfold] at hkept
    simpa using hkept
  | some p =>
    rw [hfold] at hkept
    obtain ⟨_, _, rfl, hbest, -⟩ := hkept.2
    simpa using ⟨p.1, by simp, by simpa using hbest⟩

/-- **What is found is the earliest best candidate.** -/
theorem earliestBest_eq_some_iff
    (habove : ∀ x y, above (score x) (score y) = decide (key y < key x)) :
    earliestBest score above tooLow candidates = some best ↔
      Earliest key (fun d => tooLow (score d) = true) candidates best := by
  have hkept := foldl_keepBest habove tooLow candidates
  unfold earliestBest
  cases hfold : candidates.foldl (keepBest score above tooLow) none with
  | none =>
    rw [hfold] at hkept
    refine ⟨by simp, fun h => ?_⟩
    obtain ⟨_, _, rfl, hbest, -⟩ := h
    -- the best one is not too low
    exact absurd (hkept best (by simp)) hbest
  | some p =>
    rw [hfold] at hkept
    rw [Option.map_some, Option.some.injEq]
    exact ⟨fun h => h ▸ hkept.2, hkept.2.unique⟩

end Candidates

/-! ### Answers to answers -/

section Answers

variable {β κ : Type} [LinearOrder κ] {score : List Char → List Char → β} {above : β → β → Bool}
  {tooLow : β → Bool} {one : κ} {choices : List String} {text choice : String}

/-- **An answer is its own answer**, by scores of any type that are compared by a key in a linear
order. -/
theorem closestBy_answer (key : β → κ)
    (habove : ∀ a b c d, above (score a b) (score c d)
      = decide (key (score c d) < key (score a b)))
    (hlow : ∀ a b c d, key (score a b) ≤ key (score c d) → tooLow (score c d) = true →
      tooLow (score a b) = true)
    (hone : ∀ a b, key (score a b) ≤ one)
    (hsame : ∀ c ∈ choices, ∀ d ∈ choices,
      key (score (folded c) (folded d)) = one ↔ folded c = folded d)
    (h : closestBy score above tooLow choices text = some choice) :
    closestBy score above tooLow choices choice = some choice := by
  have hiff : ∀ t c : String, closestBy score above tooLow choices t = some c ↔
      Earliest (fun d => key (score (folded t) (folded d)))
        (fun d => tooLow (score (folded t) (folded d)) = true) choices c := fun t c =>
    earliestBest_eq_some_iff fun x y => habove _ _ _ _
  obtain ⟨before, after, rfl, hreaches, hbefore, -⟩ := (hiff _ _).mp h
  have htop : key (score (folded choice) (folded choice)) = one :=
    (hsame choice (by simp) choice (by simp)).mpr rfl
  have hle : ∀ d : String, key (score (folded choice) (folded d))
      ≤ key (score (folded choice) (folded choice)) := fun d => htop ▸ hone _ _
  have hagain : tooLow (score (folded choice) (folded choice)) ≠ true := fun hlower =>
    hreaches (hlow _ _ _ _ (htop ▸ hone _ _) hlower)
  refine (hiff _ _).mpr ⟨before, after, rfl, hagain, fun d hd => .inr ?_, fun d _ => .inr (hle d)⟩
  -- an earlier choice that is folded like the answer would have scored as much
  have hne : folded choice ≠ folded d := fun heq => by
    have hearlier := hbefore d hd
    simp only [← heq] at hearlier
    exact hearlier.elim hreaches (lt_irrefl _)
  refine lt_of_le_of_ne (hle d) fun heq => hne ?_
  exact (hsame choice (by simp) d (by simp [hd])).mp (heq.trans htop)

end Answers

end CatalogQuery.Similarity
