import CatalogQuery.Agent.Generate
import CatalogQuery.Program.Arguments
import CatalogQuery.Settings

/-!
# Tasks

A `Task` is all that a run needs to ask a model for a query.
-/

namespace CatalogQuery

/-- A run that is ready to ask a model. -/
structure Task where
  kind : QueryKind
  question : String
  catalog : Catalog
  contexts : List Context
  settings : Settings
  serviceKey : String

namespace Task

/-- The answer to the question of a task in one mode, and what is noted on the way. -/
def answerIn {α : Type} [Root α] (t : Task) (mode : QueryMode α) (model : Model) :
    List Event × Except AgentError Json :=
  let run := generate mode t.settings.agent model t.question t.catalog t.contexts
  (run.events, run.result.map fun g => g.answer.toJson)

/-- The answer to the question of a task, and what is noted on the way. -/
def answer (t : Task) (model : Model) : List Event × Except AgentError Json :=
  match t.kind with
  | .filter => t.answerIn filterMode model
  | .aggregation => t.answerIn aggregationMode model

end Task

end CatalogQuery
