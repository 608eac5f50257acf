import CatalogQuery.Proofs.Agent.Runs
import CatalogQuery.Proofs.Text.Lowercase

/-!
# Responses that contain the sentinel

A response declines if the lower case of the sentinel is found in its own. So it is recognized
wherever the sentinel stands in it, if the lower case of the sentinel does not depend on what stands
around (`Response.declines_iff_steady`). The attempt that such a response answers is the last one of
the run, and the response is not read (`Assignment.attempts_declinedAt`).

Other sentinels are missed in some responses that contain them, and `recognized_iff` tells the ones
from the others.
-/

namespace CatalogQuery

variable {α : Type}

namespace Response

theorem occursIn_iff {sought cs : List Char} : occursIn sought cs = true ↔ sought <:+: cs := by
  induction cs with
  | nil => simp [occursIn]
  | cons c cs ih =>
    rw [occursIn, Bool.or_eq_true, ih, List.isPrefixOf_iff_prefix, List.infix_cons_iff]

/-- Every response that contains the sentinel declines exactly if the sentinel is steady. -/
theorem declines_iff_steady {sentinel : String} (h : sentinel ≠ "") :
    (∀ before after, declines (before ++ sentinel ++ after) sentinel = true) ↔
      Text.steady sentinel.toList = true := by
  have hne : sentinel.toList ≠ [] := by simpa using h
  have hempty : sentinel.isEmpty = false := by simpa using h
  rw [Text.steady_iff_infix hne]
  simp only [declines, hempty, Bool.not_false, Bool.true_and, occursIn_iff, String.toList_append]
  constructor
  · intro hall as bs
    have := hall (String.ofList as) (String.ofList bs)
    rwa [String.toList_ofList, String.toList_ofList] at this
  · exact fun hall before after => hall _ _

end Response

/-! ### The last attempt -/

/-- The run ends with the attempt at that place, which has that number: the response to it declines,
and nothing is noted of it but this. -/
structure Run.DeclinedAt (run : Run α) (k number : Nat) (response : String) : Prop where
  last : run.asked.length = k + 1
  answer : ∃ conversation, run.asked[k]? = some conversation ∧
    run.result = .ok ⟨.unsupported response, number, conversation ++ [⟨.assistant, response⟩]⟩
  unread : ∃ earlier, run.events = earlier ++ [.response number response, .notExpressible number]

theorem Run.DeclinedAt.after {run : Run α} {k number : Nat} {response : String}
    (h : run.DeclinedAt k number response) (events : List Event) (asked : List (List Message)) :
    (run.after events asked).DeclinedAt (asked.length + k) number response := by
  obtain ⟨hlast, ⟨conversation, hconversation, hresult⟩, earlier, hevents⟩ := h
  refine ⟨?_, ⟨conversation, ?_, hresult⟩, events ++ earlier, ?_⟩
  · rw [Run.after, List.length_append, hlast, Nat.add_assoc]
  · rwa [Run.after, List.getElem?_append_right (Nat.le_add_right _ _), Nat.add_sub_cancel_left]
  · rw [Run.after, hevents, List.append_assoc]

namespace Assignment

variable [Root α] {a : Assignment α} {model : Model} {conversation : List Message}
  {response : String}

theorem attempts_of_declines (gives : model conversation = .ok response)
    (declines : Response.declines response a.sentinel = true) (more number : Nat) :
    a.attempts model more number conversation
      = ⟨[.response number response, .notExpressible number], [conversation],
          .ok ⟨.unsupported response, number, conversation ++ [⟨.assistant, response⟩]⟩⟩ := by
  rw [attempts, gives]
  simp only [read, declines, if_true]
  rfl

/-- The first of the attempts that are left is made with the conversation at hand. -/
theorem asked_attempts (a : Assignment α) (model : Model) (more number : Nat)
    (conversation : List Message) :
    ∃ rest, (a.attempts model more number conversation).asked = conversation :: rest := by
  obtain ⟨run, hasked, hrun⟩ | ⟨events, query, e, next, hlast, hmore⟩ :=
    a.attempts_cases model number conversation
  · exact ⟨[], by rw [hrun, hasked]⟩
  · cases more with
    | zero => exact ⟨[], by rw [hlast]⟩
    | succ more => exact ⟨_, by rw [hmore]; rfl⟩

/-- **A response that declines ends the run at its attempt**, whatever else it holds. -/
theorem attempts_declinedAt (a : Assignment α) (model : Model) (more number k : Nat)
    (start : List Message)
    (hk : (a.attempts model more number start).asked[k]? = some conversation)
    (gives : model conversation = .ok response)
    (declines : Response.declines response a.sentinel = true) :
    (a.attempts model more number start).DeclinedAt k (number + k) response := by
  induction k generalizing more number start with
  | zero =>
    obtain ⟨rest, hrest⟩ := a.asked_attempts model more number start
    obtain rfl : start = conversation := by
      rw [hrest] at hk
      exact Option.some.inj hk
    rw [attempts_of_declines gives declines]
    exact ⟨rfl, ⟨start, rfl, rfl⟩, [], rfl⟩
  | succ k ih =>
    obtain ⟨run, hasked, hrun⟩ | ⟨events, query, e, next, hlast, hmore⟩ :=
      a.attempts_cases model number start
    · -- the run has ended before that attempt
      rw [hrun, hasked] at hk
      cases hk
    · cases more with
      | zero =>
        rw [hlast] at hk
        cases hk
      | succ more =>
        rw [hmore] at hk ⊢
        -- the attempt is one of those that follow
        have hnext := (ih more (number + 1) next hk).after events [start]
        rwa [List.length_singleton, Nat.add_comm 1 k, Nat.add_right_comm] at hnext

omit [Root α] in
/-- A run that ends unsupported has a last response that declines. -/
theorem Ends.declines {retries : Nat} {before : List Refusal} {g : Generation α}
    (h : a.Ends model retries before (.ok g)) (hg : g.answer = .unsupported response) :
    Response.declines response a.sentinel = true := by
  cases h with
  | declined _ declines =>
    cases hg
    exact declines
  | answered => cases hg

end Assignment

/-! ### Whole runs -/

/-- Every response that contains the sentinel, whatever stands around it, is recognized: the run
ends unsupported at the attempt that it answers. -/
def Recognized (sentinel : String) : Prop :=
  ∀ {α : Type} [Root α] (mode : QueryMode α) (retries : UInt64) (model : Model) (question : String)
    (catalog : Catalog) (contexts : List Context) (k : Nat) (conversation : List Message)
    (before after : String),
    let run := generate mode ⟨retries, sentinel⟩ model question catalog contexts
    run.asked[k]? = some conversation → model conversation = .ok (before ++ sentinel ++ after) →
      run.DeclinedAt k (k + 1) (before ++ sentinel ++ after)

/-- A response that is recognized as the first one declines. -/
theorem Recognized.declines {sentinel : String} (h : Recognized sentinel) (before after : String) :
    Response.declines (before ++ sentinel ++ after) sentinel = true := by
  let a : Assignment Condition := ⟨filterMode, "", .empty, [], sentinel⟩
  let model : Model := fun _ => .ok (before ++ sentinel ++ after)
  have hasked : (generate filterMode ⟨0, sentinel⟩ model "" .empty []).asked[0]?
      = some (a.conversation []) := by
    obtain ⟨rest, hrest⟩ := a.asked_attempts model 0 1 (a.conversation [])
    show (a.attempts model 0 1 (a.conversation [])).asked[0]? = _
    rw [hrest]
    rfl
  obtain ⟨-, ⟨conversation, -, hresult⟩, -⟩ :=
    h filterMode 0 model "" .empty [] 0 (a.conversation []) before after hasked rfl
  obtain ⟨-, ends⟩ | ⟨rest, r, hrest, -⟩ := a.attempts_step model 0 []
  · -- with one attempt the run can end so only by declining
    have hresult : (a.attempts model 0 1 (a.conversation [])).result = _ := hresult
    rw [List.length_nil, hresult] at ends
    exact ends.declines rfl
  · cases hrest

/-- **A sentinel is recognized wherever it stands** exactly if it is steady. The lower case of any
other sentinel has a capital sigma that ends a word by itself and not in the response, or the other
way round. -/
theorem recognized_iff {sentinel : String} (h : sentinel ≠ "") :
    Recognized sentinel ↔ Text.steady sentinel.toList = true := by
  rw [← Response.declines_iff_steady h]
  constructor
  · exact fun hrecognized => hrecognized.declines
  · intro hdeclines α _ mode retries model question catalog contexts k conversation before after run
      hk gives
    by_cases fits : retries.toNat + 1 < UInt64.size
    · have hrun : run = _ :=
        generate_of_fits mode ⟨retries, sentinel⟩ model question catalog contexts fits
      rw [hrun] at hk ⊢
      have hdeclined := Assignment.attempts_declinedAt
        ⟨mode, question, catalog, contexts, sentinel⟩ model retries.toNat 1 k
        (Prompt.opening mode.rules question catalog contexts sentinel) hk gives
        (hdeclines before after)
      have hwhole := hdeclined.after
        [.generation mode.name, .generating question (retries.toNat + 1)] []
      rwa [List.length_nil, Nat.zero_add, Nat.add_comm 1 k] at hwhole
    · -- the model is not asked, so that there is no response
      have hrun : run = _ :=
        generate_of_overflow mode ⟨retries, sentinel⟩ model question catalog contexts fits
      rw [hrun] at hk
      cases hk

/-- A sentinel whose capital sigmas have letters behind them is recognized, and one that ends with a
capital sigma is not. -/
theorem recognized_iff_greek :
    "ΔΙΣΤΑΓΜΟΙ" ≠ "" ∧ Recognized "ΔΙΣΤΑΓΜΟΙ" ∧ "ΔΙΣΤΑΓΜΟΣ" ≠ "" ∧ ¬ Recognized "ΔΙΣΤΑΓΜΟΣ" := by
  refine ⟨by decide, (recognized_iff (by decide)).mpr ?_, by decide, fun h => ?_⟩
  · decide +kernel
  · exact absurd ((recognized_iff (by decide)).mp h) (by decide +kernel)

/-- **Some response that contains the sentinel is read as a query**: the sentinel is a capital sigma,
and the letter before it in the response makes it the end of a word. -/
theorem not_recognized : ¬ ∀ sentinel : String, Text.trim sentinel.toList ≠ [] →
    Recognized sentinel := by
  intro hall
  have hread : Response.declines ("A" ++ "Σ" ++ "") "Σ" = false := by decide +kernel
  have hdeclines := Recognized.declines (hall "Σ" (by decide +kernel)) "A" ""
  cases hread.symm.trans hdeclines

end CatalogQuery
