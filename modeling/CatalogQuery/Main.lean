import CatalogQuery.Program.Startup

/-!
# The command line program

The thin layer around `Host.start`: it reads files and environment variables, prints lines and sets
the exit code. No connection to a model service is built in, so a run that gets as far as its first
request reports that the request failed.
-/

namespace CatalogQuery

/-- What is found at a path. -/
def readPath (path : String) : IO FileContent := do
  try
    return .text (← IO.FS.readFile path)
  catch
    | .noFileOrDirectory .. => return .missing
    | _ => return .unreadable

/-- Those of some variables that are set. -/
def readEnvironment (names : List String) : IO Environment :=
  names.filterMapM fun name => do return (← IO.getEnv name).map (name, ·)

/-- The host of a run, with the files that the run may read. -/
def readHost (i : Invocation) : IO Host := do
  let paths := [Host.environmentFile, i.config, i.catalog] ++ i.contexts.toList
  let files ← paths.mapM fun path => do return (path, ← readPath path)
  let fileAt (path : String) : FileContent := (files.lookup path).getD .missing
  let references := match fileAt Host.environmentFile with
    | .text s => Environment.references s
    | _ => []
  return ⟨← readEnvironment (Settings.variableNames ++ references), fileAt⟩

/-- A time stamp: the seconds on the clock of the machine. -/
def stamp : IO String := do
  return toString ((← IO.monoMsNow) / 1000) ++ "s"

/-- Writes the lines of events to the console and to the log file. -/
def writeLog (l : Logging) (events : List Event) : IO Unit := do
  let now ← stamp
  for line in l.consoleLines now events do
    IO.eprintln line
  match l.fileLines? now events with
  | none => return
  | some lines =>
    let directory := if l.directory.isEmpty then "." else l.directory
    IO.FS.createDirAll directory
    IO.FS.withFile (directory ++ "/" ++ Logging.fileName) .append fun file =>
      lines.forM file.putStrLn

/-- A model that cannot be reached. -/
def unreachable : Model := fun _ => .error (.request "no connection")

/-- Runs an invocation and gives its exit code. -/
def runInvocation (i : Invocation) : IO UInt32 := do
  let s := (← readHost i).start i
  let log (events : List Event) : IO Unit :=
    match s.logging with
    | some l => writeLog l events
    | none => pure ()
  log s.events
  match s.result with
  | .error e =>
    IO.eprintln ("Error: " ++ e.inspect)
    return 1
  | .ok task =>
    let (events, answer) := task.answer unreachable
    log events
    match answer with
    | .error .overflow =>
      IO.eprintln AgentError.overflow.message
      return 101
    | .error e =>
      IO.eprintln ("Error: " ++ e.message)
      return 1
    | .ok json =>
      IO.println json.compact
      return 0

end CatalogQuery

open CatalogQuery in
/-- Runs the program with its arguments. -/
def main (arguments : List String) : IO UInt32 := do
  match Command.read? arguments with
  | none =>
    IO.eprintln "Invalid arguments. For more information, try '--help'."
    return 2
  | some .help =>
    IO.print Command.helpText
    return 0
  | some .version =>
    IO.print Command.versionText
    return 0
  | some (.run i) => runInvocation i
