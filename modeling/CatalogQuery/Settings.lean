import CatalogQuery.Agent.Generate
import CatalogQuery.Environment
import CatalogQuery.Text.Count
import CatalogQuery.Yaml.Decode
import CatalogQuery.Yaml.Document

/-!
# Settings

`Settings` say how often a model is asked and which one, and what is logged where. They come from a
file, in which every field may be left out, and environment variables override what the file says.
Settings whose sentinel is blank are refused, because such a sentinel would occur in every response.
-/

namespace CatalogQuery

/-- Which model is asked, and how. -/
structure ModelSettings where
  name : String
  temperature : Single
  deriving DecidableEq

/-- What is logged where. The texts are taken as they were given. -/
structure LogSettings where
  level : String
  format : String
  output : String
  directory : String
  deriving DecidableEq

structure Settings where
  agent : AgentSettings
  model : ModelSettings
  logging : LogSettings

/-- What is found at a path. -/
inductive FileContent where
  | missing
  | unreadable
  | text (s : String)

/-- Why there are no settings, or a setting is missing. -/
inductive SettingsError where
  | unreadable
  | malformed
  | missingVariable (name : String)
  | invalid (key message : String)
  deriving DecidableEq, Repr

/-- The text of a settings error. What is wrong with a file itself is not spelled out. -/
def SettingsError.message : SettingsError → String
  | unreadable => "Failed to read config file"
  | malformed => "Failed to parse YAML"
  | missingVariable name => "Missing required environment variable: " ++ name
  | invalid key message => "Invalid value for " ++ key ++ ": " ++ message

/-! ### Defaults -/

def AgentSettings.default : AgentSettings := ⟨3, "UNSUPPORTED_QUERY"⟩

def ModelSettings.default : ModelSettings := ⟨"gpt-4o-mini", Binary.ofInt 0⟩

def LogSettings.default : LogSettings := ⟨"info", "pretty", "stdout", "./logs"⟩

def Settings.default : Settings := ⟨.default, .default, .default⟩

/-! ### Settings files -/

namespace Yaml

def asAgentSettings? (y : Yaml) : Option AgentSettings := do
  let base := AgentSettings.default
  let fields ← record? ["n_retries", "unsupported_sentinel"] y
  return {
    retries := ← defaulted? base.retries asWord? "n_retries" fields
    sentinel := ← defaulted? base.sentinel asText? "unsupported_sentinel" fields }

def asModelSettings? (y : Yaml) : Option ModelSettings := do
  let base := ModelSettings.default
  let fields ← record? ["model", "temperature"] y
  return {
    name := ← defaulted? base.name asText? "model" fields
    temperature := ← defaulted? base.temperature asFloat? "temperature" fields }

def asLogSettings? (y : Yaml) : Option LogSettings := do
  let base := LogSettings.default
  let fields ← record? ["level", "format", "output", "directory"] y
  return {
    level := ← defaulted? base.level asText? "level" fields
    format := ← defaulted? base.format asText? "format" fields
    output := ← defaulted? base.output asText? "output" fields
    directory := ← defaulted? base.directory asText? "directory" fields }

def asSettings? (y : Yaml) : Option Settings := do
  let fields ← record? ["agent", "llm", "logging"] y
  return {
    agent := ← defaulted? .default asAgentSettings? "agent" fields
    model := ← defaulted? .default asModelSettings? "llm" fields
    logging := ← defaulted? .default asLogSettings? "logging" fields }

end Yaml

namespace Settings

/-- The settings in a file with the given text. -/
def read (text : String) : Except SettingsError Settings :=
  match (Yaml.read? text).bind Yaml.asSettings? with
  | some s => .ok s
  | none => .error .malformed

/-! ### Environment variables -/

/-- The retry budget that the environment asks for, instead of the given one. -/
def retriesFrom (env : Environment) (retries : UInt64) : Except SettingsError UInt64 :=
  match env.lookup "IQL_N_RETRIES" with
  | none => .ok retries
  | some text =>
    match Text.readCount? text with
    | some n => .ok n
    | none => .error (.invalid "IQL_N_RETRIES"
        ("expected a non-negative integer, got '" ++ text ++ "'"))

/-- Refuses a blank sentinel. -/
def checked (s : Settings) : Except SettingsError Settings :=
  if s.agent.sentinel.toList.all Text.isBlank then
    .error (.invalid "agent.unsupported_sentinel" "must not be empty")
  else .ok s

/-- The settings with what the environment overrides. -/
def overridden (s : Settings) (env : Environment) : Except SettingsError Settings :=
  match retriesFrom env s.agent.retries with
  | .error e => .error e
  | .ok retries =>
    checked {
      agent := ⟨retries, (env.lookup "IQL_UNSUPPORTED_SENTINEL").getD s.agent.sentinel⟩
      model := { s.model with name := (env.lookup "IQL_LLM_MODEL").getD s.model.name }
      logging := {
        level := (env.lookup "RUST_LOG").getD s.logging.level
        format := (env.lookup "LOG_FORMAT").getD s.logging.format
        output := (env.lookup "LOG_OUTPUT").getD s.logging.output
        directory := (env.lookup "LOG_DIR").getD s.logging.directory } }

/-- The settings of a file, overridden by the environment. -/
def load (file : FileContent) (env : Environment) : Except SettingsError Settings :=
  match file with
  | .missing | .unreadable => .error .unreadable
  | .text s =>
    match read s with
    | .ok settings => settings.overridden env
    | .error e => .error e

/-- The same, with defaults for a file that does not exist. -/
def loadOrDefault (file : FileContent) (env : Environment) : Except SettingsError Settings :=
  match file with
  | .missing => Settings.default.overridden env
  | file => load file env

/-- The key for the service that runs the model. It comes from the environment alone. -/
def serviceKey (env : Environment) : Except SettingsError String :=
  match env.lookup "OPENAI_API_KEY" with
  | some key => .ok key
  | none => .error (.missingVariable "OPENAI_API_KEY")

/-- The names of the variables that have a meaning. -/
def variableNames : List String :=
  ["IQL_N_RETRIES", "IQL_UNSUPPORTED_SENTINEL", "IQL_LLM_MODEL", "RUST_LOG", "LOG_FORMAT",
   "LOG_OUTPUT", "LOG_DIR", "OPENAI_API_KEY"]

/-! ### Canonical text -/

/-- How a temperature is written: positional from `0.000001` up to thirteen digits. -/
def temperatureStyle : DecimalStyle := { DecimalStyle.json with
  positionalFrom := -6
  positionalBelow := 13 }

/-- A temperature that is no number is written as nothing. -/
def writeTemperature (t : Single) : List Char :=
  if t.isFinite then (temperatureStyle.write t).toList else Json.null.write

/-- A JSON object of fields whose values are already written. -/
def writeRecord (fields : List (String × List Char)) : List Char :=
  let written := fields.map fun (k, v) => Json.writeString k ++ ':' :: v
  '\x7b' :: ([','].intercalate written ++ ['\x7d'])

/-- The settings as canonical JSON. -/
def compact (s : Settings) : String :=
  String.ofList (writeRecord [
    ("agent", writeRecord [
      ("n_retries", Json.writeInt s.agent.retries.toNat),
      ("unsupported_sentinel", Json.writeString s.agent.sentinel)]),
    ("llm", writeRecord [
      ("model", Json.writeString s.model.name),
      ("temperature", writeTemperature s.model.temperature)]),
    ("logging", writeRecord [
      ("level", Json.writeString s.logging.level),
      ("format", Json.writeString s.logging.format),
      ("output", Json.writeString s.logging.output),
      ("directory", Json.writeString s.logging.directory)])])

end Settings

end CatalogQuery
