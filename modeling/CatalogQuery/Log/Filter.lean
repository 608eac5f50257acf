import CatalogQuery.Log.Event
import CatalogQuery.Text.Alphanumeric
import CatalogQuery.Text.Blank
import CatalogQuery.Text.Count
import CatalogQuery.Text.Split

/-!
# Which records are logged

A `LogFilter` is a list of directives, each of which sets the most verbose level for the targets
that begin with a text. For a record the directive with the longest such text decides. Filters are
written as a list such as `info,iql_ast=debug`; a level alone is meant for all targets, a target
alone for all levels.
-/

namespace CatalogQuery

/-- The rank of a level. More verbose levels have greater ranks; nothing has rank zero. -/
def LogLevel.rank : LogLevel → Nat
  | error => 1
  | warn => 2
  | info => 3
  | debug => 4
  | trace => 5

/-- What is logged of the targets that begin with a text. -/
structure LogDirective where
  target : String
  /-- The greatest rank that is logged. -/
  limit : Nat
  deriving DecidableEq, Repr

/-- Directives of distinct targets. -/
structure LogFilter where
  directives : List LogDirective

namespace LogDirective

/-- The rank that a word or a digit stands for, in either case of letters. -/
def limit? (text : String) : Option Nat :=
  match Text.readCount? text with
  | some n => if n ≤ 5 then some n.toNat else none
  | none =>
    match String.ofList (text.toList.map Char.toLower) with
    | "off" => some 0
    | "error" => some 1
    | "warn" => some 2
    | "info" => some 3
    | "debug" => some 4
    | "trace" => some 5
    | _ => none

/-- Whether a directive can begin with a character. -/
def canBegin (c : Char) : Bool := ['-', ':', '_', '['].contains c || Text.isAlphanumeric c

/-- The directive that a part of a list denotes. A target in front of a level may not follow a
blank. -/
def read? (part : List Char) : Option LogDirective :=
  if !((Text.trim part).head?.map canBegin).getD false then none
  else match part.dropWhile (· ≠ '=') with
    | [] =>
      match limit? (String.ofList part) with
      | some n => some ⟨"", n⟩
      | none => some ⟨String.ofList part, LogLevel.trace.rank⟩
    | _ :: level =>
      let target := String.ofList (part.takeWhile (· ≠ '='))
      if (part.head?.map Text.isBlank).getD true then none
      else if level.isEmpty then some ⟨target, LogLevel.trace.rank⟩
      else (limit? (String.ofList level)).map fun n => ⟨target, n⟩

/-- Whether the directive is about a target. -/
def covers (d : LogDirective) (target : String) : Bool :=
  d.target.toList.isPrefixOf target.toList

end LogDirective

namespace LogFilter

/-- Adds a directive, in place of one for the same target. -/
def add (f : LogFilter) (d : LogDirective) : LogFilter :=
  ⟨f.directives.filter (·.target ≠ d.target) ++ [d]⟩

/-- The parts of a list, without empty ones. -/
def parts (cs : List Char) : List (List Char) :=
  (Text.split ',' cs).filter fun part => !part.isEmpty

/-- The filter that a text denotes. An empty text stands for errors alone. -/
def read? (text : String) : Option LogFilter :=
  match (parts text.toList).mapM LogDirective.read? with
  | some [] => some ⟨[⟨"", 1⟩]⟩
  | some ds => some (ds.foldl add ⟨[]⟩)
  | none => none

/-- The filter of a run: the one that a text denotes, or else that for information, and in either
case debugging for the agent itself. -/
def ofText (text : String) : LogFilter :=
  ((read? text).getD ⟨[⟨"", LogLevel.info.rank⟩]⟩).add ⟨"iql_agent", LogLevel.debug.rank⟩

/-- The directive with the longer target. -/
def longer (d : LogDirective) : Option LogDirective → LogDirective
  | some best => if best.target.length < d.target.length then d else best
  | none => d

/-- The directive that decides about a target. -/
def deciding (f : LogFilter) (target : String) : Option LogDirective :=
  (f.directives.filter (·.covers target)).foldl (fun best d => some (longer d best)) none

/-- Whether a record is logged. -/
def allows (f : LogFilter) (r : LogRecord) : Bool :=
  match f.deciding r.target with
  | some d => r.level.rank ≤ d.limit
  | none => false

end LogFilter

end CatalogQuery
