import CatalogQuery.Log.Filter
import CatalogQuery.Log.Line
import CatalogQuery.Settings

/-!
# Where log records go

A `Logging` is what the settings make of the log: a filter, a format for the console, and a
directory for a file. Lines of a file are compact whatever the format of the console is.
-/

namespace CatalogQuery

/-- What is logged where, and how. -/
structure Logging where
  filter : LogFilter
  format : LogFormat
  output : LogOutput
  directory : String

/-- What the settings make of the log. -/
def LogSettings.logging (s : LogSettings) : Logging :=
  ⟨LogFilter.ofText s.level, LogFormat.ofText s.format, LogOutput.ofText s.output, s.directory⟩

namespace Logging

/-- The name of log files. -/
def fileName : String := "iql-agent.log"

/-- What is noted when logging begins. -/
def opening (l : Logging) : List Event :=
  .loggingStarted l.format.label l.output.label
    :: (if l.output.hasFile then [.writingLogFiles l.directory] else [])

/-- The records of events that are logged. -/
def records (l : Logging) (events : List Event) : List LogRecord :=
  (events.filterMap Event.record?).filter fun r => r.span.isNone && l.filter.allows r

/-- What the console shows of events. -/
def consoleLines (l : Logging) (stamp : String) (events : List Event) : List String :=
  if l.output.hasConsole then (l.records events).map (l.format.line stamp) else []

/-- What a log file holds of events, if one is written. -/
def fileLines? (l : Logging) (stamp : String) (events : List Event) : Option (List String) :=
  if l.output.hasFile then some ((l.records events).map (LogFormat.compact.line stamp)) else none

end Logging

end CatalogQuery
