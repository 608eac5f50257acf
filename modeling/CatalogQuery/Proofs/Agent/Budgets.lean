import CatalogQuery.Proofs.Agent.Runs

/-!
# Larger budgets

A run with more retries repeats a run with fewer of them, attempt by attempt, and goes on where the
other one has used up its budget: `Run.Extends`.

* `Assignment.attempts_extends`: more attempts that are left extend fewer, by induction on these.
* `budget_covers`: a larger budget extends a smaller one, but for the largest budget there
  is. It has no successor of 64 bits, so that a run breaks off before it asks the model at all.
-/

namespace CatalogQuery

variable {α : Type}

/-- The error of a run that has used up its budget. -/
def AgentError.isExhausted : AgentError → Bool
  | .model _ => false
  | .similarity _ => false
  | .exhausted .. => true
  | .overflow => false

/-- Whether the run has used up its budget. -/
def Run.exhausted (r : Run α) : Bool :=
  match r.result with
  | .ok _ => false
  | .error e => e.isExhausted

/-- A run with that many retries and another one, which differ at most in that the second goes on
after the first has used up its budget. -/
structure Run.Extends (retries : Nat) (r r' : Run α) : Prop where
  settled : r.exhausted = false → r'.result = r.result ∧ r'.asked = r.asked
  further : r.exhausted = true → r'.asked.take (retries + 1) = r.asked

namespace Run

theorem exhausted_congr {r r' : Run α} (h : r.result = r'.result) : r.exhausted = r'.exhausted := by
  rw [exhausted, h, exhausted]

/-- What came before two runs changes nothing. -/
theorem Extends.after {retries : Nat} {r r' : Run α} (h : Extends retries r r')
    (events events' : List Event) (asked : List (List Message)) :
    Extends (asked.length + retries) (r.after events asked) (r'.after events' asked) := by
  constructor
  · intro hsettled
    obtain ⟨hresult, hasked⟩ := h.settled hsettled
    exact ⟨hresult, congrArg (asked ++ ·) hasked⟩
  · intro hexhausted
    show (asked ++ r'.asked).take (asked.length + (retries + 1)) = asked ++ r.asked
    rw [List.take_length_add_append, h.further hexhausted]

/-- A run extends itself, as it asks no more often than it may. -/
theorem Extends.refl {retries : Nat} {r : Run α} (h : r.asked.length ≤ retries + 1) :
    Extends retries r r :=
  ⟨fun _ => ⟨rfl, rfl⟩, fun _ => List.take_of_length_le h⟩

end Run

namespace Assignment

variable [Root α]

/-- **More attempts that are left extend fewer.** -/
theorem attempts_extends (a : Assignment α) (model : Model) {more more' : Nat} (hle : more ≤ more')
    (number : Nat) (conversation : List Message) :
    Run.Extends more (a.attempts model more number conversation)
      (a.attempts model more' number conversation) := by
  induction more generalizing more' number conversation with
  | zero =>
    obtain ⟨run, hasked, hrun⟩ | ⟨events, query, e, next, hlast, hmore⟩ :=
      a.attempts_cases model number conversation
    · rw [hrun, hrun]
      exact .refl (by rw [hasked]; exact Nat.le_refl 1)
    · rw [hlast]
      refine ⟨fun h => ?_, fun _ => ?_⟩
      · cases h
      · cases more' with
        | zero => rw [hlast]; rfl
        | succ more' => rw [hmore]; rfl
  | succ more ih =>
    obtain ⟨more', rfl⟩ := Nat.exists_eq_add_of_le' (Nat.lt_of_lt_of_le (Nat.succ_pos more) hle)
    obtain ⟨run, hasked, hrun⟩ | ⟨events, query, e, next, -, hmore⟩ :=
      a.attempts_cases model number conversation
    · rw [hrun, hrun]
      exact .refl (by rw [hasked]; exact Nat.succ_le_succ (Nat.zero_le _))
    · -- The next conversation is the same, however many attempts are left.
      rw [hmore, hmore, Nat.add_comm]
      exact (ih (Nat.le_of_succ_le_succ hle) _ _).after _ _ [conversation]

/-- However many attempts are left, the model is asked at most that often and once more. -/
theorem length_asked_attempts_le (a : Assignment α) (model : Model) (more number : Nat)
    (conversation : List Message) :
    (a.attempts model more number conversation).asked.length ≤ more + 1 := by
  induction more generalizing number conversation with
  | zero =>
    obtain ⟨run, hasked, hrun⟩ | ⟨events, query, e, next, hlast, -⟩ :=
      a.attempts_cases model number conversation
    · rw [hrun, hasked]
      exact Nat.le_refl 1
    · rw [hlast]
      exact Nat.le_refl 1
  | succ more ih =>
    obtain ⟨run, hasked, hrun⟩ | ⟨events, query, e, next, -, hmore⟩ :=
      a.attempts_cases model number conversation
    · rw [hrun, hasked]
      exact Nat.succ_le_succ (Nat.zero_le _)
    · rw [hmore]
      -- one attempt, and those that are left
      exact Nat.succ_le_succ (ih _ _)

end Assignment

/-! ### Budgets of 64 bits -/

namespace Budget

/-- The largest number of retries, which has no successor of 64 bits. -/
def largest : UInt64 := 0xFFFFFFFFFFFFFFFF

/-- The attempts of every other budget can be counted. -/
theorem fits_iff {n : UInt64} : n.toNat + 1 < UInt64.size ↔ n ≠ largest := by
  have hlargest : largest.toNat + 1 = UInt64.size := by decide
  have hlt : n.toNat < UInt64.size := n.toNat_lt
  rw [← hlargest, Nat.add_lt_add_iff_right, Ne, ← UInt64.toNat_inj]
  omega

theorem le_largest (n : UInt64) : n ≤ largest := by
  have hlargest : largest.toNat + 1 = UInt64.size := by decide
  have hlt : n.toNat < UInt64.size := n.toNat_lt
  exact UInt64.le_iff_toNat_le.mpr (by omega)

end Budget

/-! ### Whole runs -/

section Runs

variable [Root α] (mode : QueryMode α) (sentinel : String) (model : Model) (question : String)
  (catalog : Catalog) (contexts : List Context)

/-- The largest budget does not let a run begin. -/
theorem generate_largest : generate mode ⟨Budget.largest, sentinel⟩ model question catalog contexts
    = ⟨[.generation mode.name], [], .error .overflow⟩ :=
  generate_of_overflow mode ⟨Budget.largest, sentinel⟩ model question catalog contexts
    fun fits => Budget.fits_iff.mp fits rfl

/-- Budgets whose attempts can be counted extend those that are smaller. -/
theorem generate_extends {n m : UInt64} (hle : n ≤ m) (hm : m ≠ Budget.largest) :
    Run.Extends n.toNat (generate mode ⟨n, sentinel⟩ model question catalog contexts)
      (generate mode ⟨m, sentinel⟩ model question catalog contexts) := by
  have hle : n.toNat ≤ m.toNat := UInt64.le_iff_toNat_le.mp hle
  have hfits : m.toNat + 1 < UInt64.size := Budget.fits_iff.mpr hm
  -- both runs begin with the same conversation, and one has more attempts left
  have h := Assignment.attempts_extends ⟨mode, question, catalog, contexts, sentinel⟩ model hle 1
    (Prompt.opening mode.rules question catalog contexts sentinel)
  have hfits' : n.toNat + 1 < UInt64.size := by omega
  rw [generate_of_fits mode ⟨n, sentinel⟩ model question catalog contexts hfits',
    generate_of_fits mode ⟨m, sentinel⟩ model question catalog contexts hfits]
  simpa only [List.length_nil, Nat.zero_add] using h.after
    [.generation mode.name, .generating question (n.toNat + 1)]
    [.generation mode.name, .generating question (m.toNat + 1)] []

/-- However large the budget is, the model is asked at most that often and once more. -/
theorem length_asked_generate_le (n : UInt64) :
    (generate mode ⟨n, sentinel⟩ model question catalog contexts).asked.length ≤ n.toNat + 1 := by
  by_cases fits : n.toNat + 1 < UInt64.size
  · rw [generate_of_fits mode ⟨n, sentinel⟩ model question catalog contexts fits]
    exact Assignment.length_asked_attempts_le ⟨mode, question, catalog, contexts, sentinel⟩ model
      n.toNat 1 (Prompt.opening mode.rules question catalog contexts sentinel)
  · rw [generate_of_overflow mode ⟨n, sentinel⟩ model question catalog contexts fits]
    exact Nat.zero_le _

end Runs

namespace Budget

/-- Every run with `m` retries is the one with `n` retries, or goes on where that one has used up
its budget. -/
def Covers (n m : UInt64) : Prop :=
  ∀ {α : Type} [Root α] (mode : QueryMode α) (sentinel : String) (model : Model) (question : String)
    (catalog : Catalog) (contexts : List Context),
    Run.Extends n.toNat (generate mode ⟨n, sentinel⟩ model question catalog contexts)
      (generate mode ⟨m, sentinel⟩ model question catalog contexts)

theorem Covers.refl (n : UInt64) : Covers n n := by
  intro α _ mode sentinel model question catalog contexts
  exact .refl (length_asked_generate_le ..)

/-- A budget covers all smaller ones, but the largest one covers only itself. -/
theorem Covers.of_le {n m : UInt64} (hle : n ≤ m) (hlargest : m = largest → n = m) :
    Covers n m := by
  intro α _ mode sentinel model question catalog contexts
  by_cases hm : m = largest
  · rw [hlargest hm]
    exact Covers.refl m mode sentinel model question catalog contexts
  · exact generate_extends mode sentinel model question catalog contexts hle hm

end Budget

/-- A model that does not answer. -/
def Model.silent : Model := fun _ => .error .emptyResponse

/-- A run ends with the first failure of the model, if the model is asked. -/
theorem generate_silent [Root α] (mode : QueryMode α) (settings : AgentSettings)
    (question : String) (catalog : Catalog) (contexts : List Context)
    (fits : settings.retries.toNat + 1 < UInt64.size) :
    (generate mode settings .silent question catalog contexts).result
      = .error (.model .emptyResponse) := by
  rw [generate_of_fits mode settings .silent question catalog contexts fits]
  cases settings.retries.toNat <;> rfl

/-- Any other budget lets this model be heard to fail. The largest budget does not. -/
theorem Budget.not_covers_largest {n : UInt64} (hn : n ≠ largest) : ¬ Covers n largest := by
  intro hcovers
  have hfailed := generate_silent filterMode ⟨n, ""⟩ "" .empty [] (fits_iff.mpr hn)
  have hsettled : (generate filterMode ⟨n, ""⟩ .silent "" .empty []).exhausted = false := by
    rw [Run.exhausted, hfailed]
    rfl
  obtain ⟨hresult, -⟩ := (hcovers filterMode "" .silent "" .empty []).settled hsettled
  rw [hfailed, generate_largest] at hresult
  cases hresult

/-- **A larger budget never hurts**, but for the largest one. With that one a run breaks off before
it asks the model, so that it covers no budget but itself. -/
theorem budget_covers {n m : UInt64} (hle : n ≤ m) :
    (Budget.Covers n m ↔ (m = Budget.largest → n = m)) ∧
    ∀ {α : Type} [Root α] (mode : QueryMode α) (sentinel : String) (model : Model)
      (question : String) (catalog : Catalog) (contexts : List Context),
      let run := generate mode ⟨Budget.largest, sentinel⟩ model question catalog contexts
      run.result = .error .overflow ∧ run.asked = [] := by
  refine ⟨⟨?_, Budget.Covers.of_le hle⟩, ?_⟩
  · rintro hcovers rfl
    by_contra hn
    -- a run that breaks off covers none in which the model answers
    exact Budget.not_covers_largest hn hcovers
  · intro α _ mode sentinel model question catalog contexts run
    have hrun : run = _ := generate_largest mode sentinel model question catalog contexts
    rw [hrun]
    exact ⟨rfl, rfl⟩

/-- Seven retries cover three, and the largest number of retries does not. -/
theorem budget_covers_seven :
    (3 : UInt64) ≤ 7 ∧ Budget.Covers 3 7 ∧ (3 : UInt64) ≤ Budget.largest ∧
      ¬ Budget.Covers 3 Budget.largest := by
  have hseven : (3 : UInt64) ≤ 7 := by decide
  have hlargest : (3 : UInt64) ≤ Budget.largest := by decide
  refine ⟨hseven, (budget_covers hseven).1.mpr (by decide), hlargest, fun h => ?_⟩
  exact absurd ((budget_covers hlargest).1.mp h rfl) (by decide)

/-- **The largest budget hurts**: the model that mends its query when it is told gives it with one
retry, and with the largest number of retries it is not asked at all. -/
theorem not_budget_covers : ¬ ∀ n m : UInt64, n ≤ m → Budget.Covers n m := by
  intro hall
  let run (retries : UInt64) := generate filterMode ⟨retries, "NONE"⟩ .learner "which?"
    ⟨[⟨"f", none, [⟨"n", .int, none⟩]⟩]⟩ []
  have hone : (run 1).exhausted = false := by decide +kernel
  have hanswer : (run 1).result.toBool = true := by decide +kernel
  obtain ⟨hresult, -⟩ := (hall 1 Budget.largest (Budget.le_largest 1) filterMode "NONE" .learner
    "which?" ⟨[⟨"f", none, [⟨"n", .int, none⟩]⟩]⟩ []).settled hone
  rw [← show (run Budget.largest).result = (run 1).result from hresult,
    show run Budget.largest = _ from generate_largest ..] at hanswer
  cases hanswer

end CatalogQuery
