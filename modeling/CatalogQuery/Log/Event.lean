/-!
# Events

An `Event` is something worth noting that happened while a source was read or a question was
answered. `Event.record?` is its log record: a level, the part of the program that it comes from,
and named fields. A similarity lookup is noted when it starts, but has no record of its own.
-/

namespace CatalogQuery

/-- How important a log record is, from the most to the least. -/
inductive LogLevel where
  | error
  | warn
  | info
  | debug
  | trace
  deriving DecidableEq, Repr

def LogLevel.label : LogLevel → String
  | error => "ERROR"
  | warn => "WARN"
  | info => "INFO"
  | debug => "DEBUG"
  | trace => "TRACE"

/-- The content of a field of a log record. -/
inductive LogField where
  | text (s : String)
  | number (n : Nat)
  deriving DecidableEq, Repr

/-- A log record, or the opening of a named span. -/
structure LogRecord where
  level : LogLevel
  target : String
  span : Option String
  fields : List (String × LogField)
  deriving DecidableEq, Repr

/-- Something worth noting. -/
inductive Event where
  /-- A similarity lookup starts. -/
  | lookup (index text : String)
  /-- A lookup found a match. -/
  | similarityMatch (parameter index text found : String)
  | filterParsed (source tree : String)
  | aggregationParsed (source call : String)
  /-- A question begins to be answered. -/
  | generation (mode : String)
  | generating (question : String) (maxAttempts : Nat)
  | response (attempt : Nat) (text : String)
  | notExpressible (attempt : Nat)
  | validated (attempt : Nat) (query fingerprint : String)
  | invalid (attempt : Nat) (query fragment error : String)
  | loggingStarted (format output : String)
  | writingLogFiles (directory : String)
  | catalogLoaded (functions contexts : Nat)
  deriving DecidableEq, Repr

namespace LogRecord

/-- A record with a message. -/
def note (level : LogLevel) (target message : String) (fields : List (String × LogField)) :
    LogRecord :=
  ⟨level, target, none, ("message", .text message) :: fields⟩

end LogRecord

namespace Event

/-- The log record of an event. -/
def record? : Event → Option LogRecord
  | .lookup _ _ => none
  | .similarityMatch parameter index text found =>
    some (.note .debug "iql_ast::resolver" "Similarity match"
      [("parameter", .text parameter), ("index", .text index), ("from", .text text),
        ("to", .text found)])
  | .filterParsed source tree =>
    some (.note .debug "iql_ast::parser" "Parsed IQL filter"
      [("iql", .text source), ("tree", .text tree)])
  | .aggregationParsed source call =>
    some (.note .debug "iql_ast::parser" "Parsed IQL aggregation"
      [("iql", .text source), ("call", .text call)])
  | .generation mode =>
    some ⟨.info, "iql_agent::controller", some "iql_generation", [("mode", .text mode)]⟩
  | .generating question maxAttempts =>
    some (.note .info "iql_agent::controller" "Generating IQL"
      [("question", .text question), ("max_attempts", .number maxAttempts)])
  | .response attempt text =>
    some (.note .info "iql_agent::controller" "LLM response"
      [("attempt", .number attempt), ("response", .text text)])
  | .notExpressible attempt =>
    some (.note .info "iql_agent::controller" "Question not expressible in IQL"
      [("attempt", .number attempt)])
  | .validated attempt query fingerprint =>
    some (.note .info "iql_agent::controller" "IQL validated"
      [("attempt", .number attempt), ("iql", .text query), ("fingerprint", .text fingerprint)])
  | .invalid attempt query fragment error =>
    some (.note .warn "iql_agent::controller" "Invalid IQL"
      [("attempt", .number attempt), ("iql", .text query), ("fragment", .text fragment),
        ("error", .text error)])
  | .loggingStarted format output =>
    some (.note .info "iql_agent::logging" "Logging system initialized"
      [("format", .text format), ("output", .text output)])
  | .writingLogFiles directory =>
    some (.note .debug "iql_agent::logging" "Writing log files" [("log_dir", .text directory)])
  | .catalogLoaded functions contexts =>
    some (.note .info "iql_agent" "Catalog loaded"
      [("functions", .number functions), ("contexts", .number contexts)])

/-- The index and the text of a lookup. -/
def lookup? : Event → Option (String × String)
  | .lookup index text => some (index, text)
  | _ => none

end Event

end CatalogQuery
