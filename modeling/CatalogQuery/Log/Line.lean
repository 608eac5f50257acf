import CatalogQuery.Json
import CatalogQuery.Log.Event

/-!
# Log lines

A log record is written on one line, in one of three formats. A line begins with a time stamp, which
is given as a text.
-/

namespace CatalogQuery

/-- How log records are written on the console. -/
inductive LogFormat where
  | pretty
  | json
  | compact
  deriving DecidableEq, Repr

/-- Where log records go. -/
inductive LogOutput where
  | console
  | file
  | both
  deriving DecidableEq, Repr

namespace LogFormat

/-- The format that a setting names; an unknown name stands for the pretty one. -/
def ofText : String → LogFormat
  | "json" => json
  | "compact" => compact
  | _ => pretty

def label : LogFormat → String
  | pretty => "Pretty"
  | json => "Json"
  | compact => "Compact"

end LogFormat

namespace LogOutput

/-- The output that a setting names; an unknown name stands for the console. -/
def ofText : String → LogOutput
  | "file" => file
  | "both" => both
  | _ => console

def label : LogOutput → String
  | console => "Stdout"
  | file => "File"
  | both => "Both"

def hasConsole : LogOutput → Bool
  | file => false
  | _ => true

def hasFile : LogOutput → Bool
  | console => false
  | _ => true

end LogOutput

/-! ### Writing records -/

def LogField.render : LogField → String
  | .text s => s
  | .number n => toString n

def LogField.toJson : LogField → Json
  | .text s => .str s
  | .number n => .int n

namespace LogRecord

/-- The message of a record and its other fields. -/
def split (r : LogRecord) : String × List (String × LogField) :=
  match r.fields with
  | ("message", m) :: rest => (m.render, rest)
  | fields => ("", fields)

/-- The time, the level in five columns and the target. -/
def heading (stamp : String) (r : LogRecord) : String :=
  let label := r.level.label
  stamp ++ " " ++ String.ofList (List.replicate (5 - label.length) ' ') ++ label ++ " " ++ r.target
    ++ ": "

/-- A record with its fields as `name=value` after the message. -/
def compactLine (stamp : String) (r : LogRecord) : String :=
  let (message, fields) := r.split
  heading stamp r ++ message
    ++ String.join (fields.map fun (k, v) => " " ++ k ++ "=" ++ v.render)

/-- A record with its fields as `name: value` after the message, and indented. -/
def prettyLine (stamp : String) (r : LogRecord) : String :=
  let (message, fields) := r.split
  "  " ++ heading stamp r ++ message
    ++ String.join (fields.map fun (k, v) => ", " ++ k ++ ": " ++ v.render)

/-- A record as a JSON object. -/
def jsonLine (stamp : String) (r : LogRecord) : String :=
  (Json.obj [("timestamp", .str stamp), ("level", .str r.level.label),
    ("fields", .obj (r.fields.map fun (k, v) => (k, v.toJson))),
    ("target", .str r.target)]).compact

end LogRecord

/-- A record on a line. -/
def LogFormat.line (format : LogFormat) (stamp : String) (r : LogRecord) : String :=
  match format with
  | pretty => r.prettyLine stamp
  | json => r.jsonLine stamp
  | compact => r.compactLine stamp

end CatalogQuery
