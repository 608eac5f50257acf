import CatalogQuery.Agent.Prompt
import CatalogQuery.Agent.Response
import CatalogQuery.Parse

/-!
# From questions to queries

`generate` asks a model for a query that answers a question, and reads its response. A response that
is no valid query is answered with the reason, and the model is asked again, until the retry budget
is used up. A response that contains the sentinel ends the run, and so does a failure of the model
or of a similarity index. The attempts are counted in words of 64 bits, and a budget that leads
beyond these breaks the run off before the model is asked.
-/

namespace CatalogQuery

/-- The kind of query that is wanted. -/
structure QueryMode (α : Type) where
  name : String
  /-- What the model is told about queries of this kind. -/
  rules : String
  parse : String → Catalog → List Context → Parsed α

/-- Boolean combinations of calls. -/
def filterMode : QueryMode Condition := ⟨"filter", Prompt.filterRules, parseFilter⟩

/-- Single calls. -/
def aggregationMode : QueryMode Call := ⟨"aggregation", Prompt.aggregationRules, parseAggregation⟩

/-- How often to ask, and how a model declines. -/
structure AgentSettings where
  /-- How often the model is asked again after its first response. -/
  retries : UInt64
  sentinel : String
  deriving DecidableEq, Repr

/-- The most often a model is asked: once more than the retries, if a word of 64 bits can count
this. -/
def AgentSettings.maxAttempts? (s : AgentSettings) : Option Nat :=
  if s.retries.toNat + 1 < UInt64.size then some (s.retries.toNat + 1) else none

/-- How a run ended well. -/
inductive Answer (α : Type) where
  | success (query : Query α)
  /-- The model declined. -/
  | unsupported (response : String)

/-- A run that ended well. -/
structure Generation (α : Type) where
  answer : Answer α
  attempts : Nat
  conversation : List Message

/-- Why a run ended without an answer. -/
inductive AgentError where
  | model (e : ModelError)
  | similarity (e : SimilarityError)
  /-- The last response that was allowed is no valid query. -/
  | exhausted (attempts : Nat) (query : String) (last : QueryError)
  /-- The attempts cannot be counted. This is no error that is reported: the run breaks off. -/
  | overflow

def AgentError.message : AgentError → String
  | .model e => "Language model error: " ++ e.message
  | .similarity e => "Similarity lookup error: " ++ e.message
  | .exhausted attempts _ last =>
    "IQL still invalid after " ++ toString attempts ++ " attempt(s): " ++ last.message
  | .overflow => "attempt to add with overflow"

/-- A run: what was noted, the conversations that the model was asked to answer, and the outcome. -/
structure Run (α : Type) where
  events : List Event
  asked : List (List Message)
  result : Except AgentError (Generation α)

namespace Run

variable {α : Type}

/-- The run, with what came before it. -/
def after (events : List Event) (asked : List (List Message)) (r : Run α) : Run α :=
  { r with events := events ++ r.events, asked := asked ++ r.asked }

end Run

/-- What is fixed during a run. -/
structure Assignment (α : Type) where
  mode : QueryMode α
  question : String
  catalog : Catalog
  contexts : List Context
  sentinel : String

/-- What one attempt leads to. -/
inductive Attempt (α : Type) where
  | finished (result : Except AgentError (Answer α))
  /-- The response is no valid query. -/
  | refused (query : String) (error : QueryError)

namespace Assignment

variable {α : Type} [Root α]

/-- Reads a response to the attempt of that number, with what is noted about it. -/
def read (a : Assignment α) (number : Nat) (response : String) : List Event × Attempt α :=
  let noted := [Event.response number response]
  if Response.declines response a.sentinel then
    (noted ++ [.notExpressible number], .finished (.ok (.unsupported response)))
  else
    let query := Response.clean response
    let parsed := a.mode.parse query a.catalog a.contexts
    let noted := noted ++ parsed.events
    match parsed.result with
    | .ok q =>
      (noted ++ [.validated number (Root.render q.root) (fingerprint q.root)],
        .finished (.ok (.success q)))
    | .error (.similarity e) => (noted, .finished (.error (.similarity e)))
    | .error (.query e) =>
      (noted ++ [.invalid number query ((e.snippet?.map Snippet.text).getD "") e.message],
        .refused query e)

/-- Asks the model at most `more + 1` times, the first time as the attempt of that number. -/
def attempts (a : Assignment α) (model : Model) :
    (more : Nat) → (number : Nat) → List Message → Run α
  | more, number, conversation =>
    match model conversation with
    | .error e => ⟨[], [conversation], .error (.model e)⟩
    | .ok response =>
      let (events, outcome) := a.read number response
      let conversation' := conversation ++ [⟨.assistant, response⟩]
      match outcome with
      | .finished (.ok answer) => ⟨events, [conversation], .ok ⟨answer, number, conversation'⟩⟩
      | .finished (.error e) => ⟨events, [conversation], .error e⟩
      | .refused query e =>
        match more with
        | 0 => ⟨events, [conversation], .error (.exhausted number query e)⟩
        | more + 1 =>
          (a.attempts model more (number + 1)
            (conversation' ++ [Prompt.feedback a.question query e])).after events [conversation]

end Assignment

/-- Asks a model for a query that answers a question. -/
def generate {α : Type} [Root α] (mode : QueryMode α) (settings : AgentSettings) (model : Model)
    (question : String) (catalog : Catalog) (contexts : List Context) : Run α :=
  let a : Assignment α := ⟨mode, question, catalog, contexts, settings.sentinel⟩
  match settings.maxAttempts? with
  | none => ⟨[.generation mode.name], [], .error .overflow⟩
  | some most =>
    (a.attempts model (most - 1) 1
      (Prompt.opening mode.rules question catalog contexts settings.sentinel)).after
        [.generation mode.name, .generating question most] []

/-- The canonical data of an answer. -/
def Answer.toJson {α : Type} [Root α] : Answer α → Json
  | .success q => .obj [("status", .str "success"),
      ("query", .obj [("root", Root.toJson q.root), ("source", .str q.source)])]
  | .unsupported response => .obj [("status", .str "unsupported"), ("response", .str response)]

end CatalogQuery
