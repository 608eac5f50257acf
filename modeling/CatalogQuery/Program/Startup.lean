import CatalogQuery.CatalogFile
import CatalogQuery.Log.Destination
import CatalogQuery.Program.Task
import CatalogQuery.Text.Quoted

/-!
# Starting a run

`Host.start` does what precedes the first request to a model: it reads the settings, begins to log,
reads the catalog and the contexts, and looks for the key of the service. The first failure ends it.
What surrounds the program, its environment variables and the files that it may read, is a `Host`.
-/

namespace CatalogQuery

/-- What surrounds the program. -/
structure Host where
  environment : Environment
  file : String → FileContent

/-- Why a run does not start. -/
inductive StartupError where
  | settings (e : SettingsError)
  | catalog (e : CatalogFileError)
  deriving DecidableEq, Repr

/-- How far a run came before it asks a model. -/
structure Startup where
  /-- How the run logs, unless it has no settings. -/
  logging : Option Logging
  events : List Event
  result : Except StartupError Task

/-! ### Error texts -/

/-- A settings error as diagnostic output shows it. -/
def SettingsError.inspect : SettingsError → String
  | unreadable => "Io"
  | malformed => "Yaml"
  | missingVariable name => "MissingEnvVar(" ++ Text.quoted name ++ ")"
  | invalid key message =>
    "Invalid \x7b key: " ++ Text.quoted key ++ ", message: " ++ Text.quoted message ++ " \x7d"

/-- A catalog file error as diagnostic output shows it. -/
def CatalogFileError.inspect : CatalogFileError → String
  | unreadable => "Io"
  | malformed => "Yaml"
  | invalid e => "Registry(" ++ e.inspect ++ ")"

def StartupError.inspect : StartupError → String
  | settings e => e.inspect
  | catalog e => e.inspect

/-! ### The steps -/

/-- The text of a file that has to be there. -/
def FileContent.required : FileContent → Except CatalogFileError String
  | text s => .ok s
  | _ => .error .unreadable

namespace Host

/-- Where a file with environment variables may be. -/
def environmentFile : String := ".env"

/-- The host with the variables that its environment file supplies. -/
def withEnvironmentFile (h : Host) : Host :=
  match h.file environmentFile with
  | .text s => { h with environment := h.environment.withFile s }
  | _ => h

/-- The catalog of a file, and the contexts of the file and of a further one. -/
def readCatalog (h : Host) (catalogPath : String) (contextsPath : Option String) :
    Except CatalogFileError (Catalog × List Context) := do
  let file ← CatalogFile.read (← (h.file catalogPath).required)
  let catalog ← file.catalog
  match contextsPath with
  | none => return (catalog, file.contexts)
  | some path =>
    let more ← readContexts (← (h.file path).required)
    return (catalog, file.contexts ++ more)

/-- The settings of a run, with the retry budget that its command line asks for. -/
def settings (h : Host) (i : Invocation) : Except SettingsError Settings := do
  let s ← Settings.loadOrDefault (h.file i.config) h.environment
  return { s with agent := { s.agent with retries := i.retries.getD s.agent.retries } }

/-- Starts a run. -/
def start (h : Host) (i : Invocation) : Startup :=
  let h := h.withEnvironmentFile
  match h.settings i with
  | .error e => ⟨none, [], .error (.settings e)⟩
  | .ok settings =>
    let logging := settings.logging.logging
    match h.readCatalog i.catalog i.contexts with
    | .error e => ⟨some logging, logging.opening, .error (.catalog e)⟩
    | .ok (catalog, contexts) =>
      let events := logging.opening ++ [.catalogLoaded catalog.functions.length contexts.length]
      match Settings.serviceKey h.environment with
      | .error e => ⟨some logging, events, .error (.settings e)⟩
      | .ok key =>
        ⟨some logging, events, .ok ⟨i.kind, i.question, catalog, contexts, settings, key⟩⟩

end Host

namespace Startup

/-- What the console shows of a run before it asks a model. -/
def consoleLines (s : Startup) (stamp : String) : List String :=
  match s.logging with
  | some l => l.consoleLines stamp s.events
  | none => []

/-- The directory of the log file and its lines, if one is written. -/
def logFile? (s : Startup) (stamp : String) : Option (String × List String) :=
  match s.logging with
  | some l => (l.fileLines? stamp s.events).map (l.directory, ·)
  | none => none

end Startup

end CatalogQuery
