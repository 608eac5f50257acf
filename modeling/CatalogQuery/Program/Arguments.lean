import CatalogQuery.Text.Count

/-!
# Command lines

`Command.read?` reads the arguments of a command line from left to right. An option takes its value
from the same argument or from the next one; a value that begins with a dash has to stand in the
same argument. Each option may be given once, and one question has to be given. After `--` every
argument is a question. A request for help or for the version is answered as soon as it is reached,
whatever may follow.
-/

namespace CatalogQuery

/-- The kind of query that is asked for. -/
inductive QueryKind where
  | filter
  | aggregation
  deriving DecidableEq, Repr

def QueryKind.ofText? : String → Option QueryKind
  | "filter" => some .filter
  | "aggregation" => some .aggregation
  | _ => none

/-- What a run is asked to do. -/
structure Invocation where
  /-- The path of the settings. -/
  config : String
  /-- The path of the catalog. -/
  catalog : String
  /-- The path of further contexts. -/
  contexts : Option String
  kind : QueryKind
  retries : Option UInt64
  question : String
  deriving DecidableEq, Repr

inductive Command where
  | help
  | version
  | run (i : Invocation)
  deriving DecidableEq, Repr

/-! ### Single arguments -/

/-- The options that take a value. -/
inductive ValueOption where
  | config
  | catalog
  | contexts
  | mode
  | retries
  deriving DecidableEq, Repr

/-- What an option asks for. -/
inductive Switch where
  | help
  | version
  | value (o : ValueOption)
  deriving DecidableEq, Repr

/-- What an argument is by its form. -/
inductive Argument where
  | text (s : String)
  /-- Two dashes alone. -/
  | endOfOptions
  | switch (s : Switch) (attached : Option String)
  | unknown
  deriving DecidableEq, Repr

namespace Argument

/-- The option of a name behind two dashes. -/
def longSwitch? : String → Option Switch
  | "help" => some .help
  | "version" => some .version
  | "config" => some (.value .config)
  | "catalog" => some (.value .catalog)
  | "contexts" => some (.value .contexts)
  | "mode" => some (.value .mode)
  | "retries" => some (.value .retries)
  | _ => none

/-- The option of a letter behind one dash. -/
def shortSwitch? : Char → Option Switch
  | 'h' => some .help
  | 'V' => some .version
  | 'c' => some (.value .config)
  | 'm' => some (.value .mode)
  | _ => none

/-- An option with a long name, to which a value may be attached with an equals sign. -/
def ofLong (cs : List Char) : Argument :=
  match longSwitch? (String.ofList (cs.takeWhile (· ≠ '='))), cs.dropWhile (· ≠ '=') with
  | some s, [] => .switch s none
  | some (.value o), _ :: value => .switch (.value o) (some (String.ofList value))
  | _, _ => .unknown

/-- An option with a letter, to which a value may be attached. A letter that takes no value acts at
once, so that nothing else of the argument counts. -/
def ofShort (letter : Char) (cs : List Char) : Argument :=
  match shortSwitch? letter, cs with
  | some (.value o), [] => .switch (.value o) none
  | some (.value o), '=' :: value => .switch (.value o) (some (String.ofList value))
  | some (.value o), value => .switch (.value o) (some (String.ofList value))
  | some s, _ => .switch s none
  | none, _ => .unknown

/-- What an argument is by its form. A single dash is a text. -/
def ofText (s : String) : Argument :=
  match s.toList with
  | ['-', '-'] => .endOfOptions
  | '-' :: '-' :: cs => ofLong cs
  | '-' :: c :: cs => ofShort c cs
  | _ => .text s

end Argument

/-! ### Whole command lines -/

/-- What the arguments read so far give. -/
structure Given where
  config : Option String
  catalog : Option String
  contexts : Option String
  kind : Option QueryKind
  retries : Option UInt64
  question : Option String

namespace Given

def nothing : Given := ⟨none, none, none, none, none, none⟩

/-- A path, which may not be empty. -/
def path? (s : String) : Option String := if s.isEmpty then none else some s

/-- A value for what has none yet. -/
def once? {α : Type} (old : Option α) (new : Option α) : Option (Option α) :=
  match old, new with
  | none, some v => some (some v)
  | _, _ => none

/-- Gives an option its value. -/
def set? (g : Given) (o : ValueOption) (value : String) : Option Given :=
  match o with
  | .config => (once? g.config (path? value)).map fun v => { g with config := v }
  | .catalog => (once? g.catalog (path? value)).map fun v => { g with catalog := v }
  | .contexts => (once? g.contexts (path? value)).map fun v => { g with contexts := v }
  | .mode => (once? g.kind (QueryKind.ofText? value)).map fun v => { g with kind := v }
  | .retries => (once? g.retries (Text.readCount? value)).map fun v => { g with retries := v }

def ask? (g : Given) (question : String) : Option Given :=
  (once? g.question (some question)).map fun v => { g with question := v }

/-- The run that is asked for, if nothing is missing. -/
def run? (g : Given) : Option Command :=
  match g.catalog, g.question with
  | some catalog, some question =>
    some (.run ⟨g.config.getD "config.yaml", catalog, g.contexts, g.kind.getD .filter, g.retries,
      question⟩)
  | _, _ => none

/-- Reads arguments that are questions, whatever their form. -/
def readQuestions (g : Given) : List String → Option Command
  | [] => g.run?
  | s :: rest => (g.ask? s).bind fun g => g.readQuestions rest

/-- Reads arguments after those that gave `g`. -/
def read (g : Given) : List String → Option Command
  | [] => g.run?
  | s :: rest =>
    match Argument.ofText s with
    | .text question => (g.ask? question).bind fun g => g.read rest
    | .endOfOptions => g.readQuestions rest
    | .switch .help _ => some .help
    | .switch .version _ => some .version
    | .switch (.value o) (some value) => (g.set? o value).bind fun g => g.read rest
    | .switch (.value o) none =>
      match rest with
      | [] => none
      | next :: rest =>
        match Argument.ofText next with
        | .text value => (g.set? o value).bind fun g => g.read rest
        | _ => none
    | .unknown => none

end Given

namespace Command

/-- The command that arguments denote, if they are in order. -/
def read? (arguments : List String) : Option Command := Given.nothing.read arguments

/-- What the program answers to a request for its version. -/
def versionText : String := "iql-agent 0.1.0\n"

/-- What the program answers to a request for help. -/
def helpText : String :=
  "Generate validated IQL from natural language\n\n" ++
  "Usage: iql-agent [OPTIONS] --catalog <CATALOG> <QUESTION>\n\n" ++
  "Arguments:\n" ++
  "  <QUESTION>  Question to translate\n\n" ++
  "Options:\n" ++
  "  -c, --config <CONFIG>      Configuration file; defaults apply when it does not exist " ++
  "[default: config.yaml]\n" ++
  "      --catalog <CATALOG>    YAML file describing the exposed functions " ++
  "(and optionally contexts)\n" ++
  "      --contexts <CONTEXTS>  Extra YAML file with a list of contexts\n" ++
  "  -m, --mode <MODE>          [default: filter] [possible values: filter, aggregation]\n" ++
  "      --retries <RETRIES>    Override the configured retry budget\n" ++
  "  -h, --help                 Print help\n" ++
  "  -V, --version              Print version\n"

end Command

end CatalogQuery
