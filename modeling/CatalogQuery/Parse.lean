import CatalogQuery.Draft.Narrow
import CatalogQuery.Grammar.Matcher
import CatalogQuery.Resolve.Basic
import CatalogQuery.Source.Normalize

/-!
# Reading sources

`parseFilter` reads a boolean combination of calls and `parseAggregation` a single call. Both bring
the source to its normal form, match the grammar, demand exactly one statement that is an
expression, narrow it to a draft, and resolve the draft. The first of these steps that fails decides
the error.
-/

namespace CatalogQuery

/-- The outcome of reading a source, with what was noted on the way. -/
structure Parsed (α : Type) where
  events : List Event
  result : Except ParseError (Query α)

namespace Source

/-- The only statement of a source, which is an expression. -/
def statement (source : String) (normal : List Char) : Except QueryError Grammar.ParseTree :=
  let snippet (tree : Grammar.ParseTree) : Snippet :=
    .of source.toList normal tree.start tree.stop
  match Grammar.parse normal with
  | .error f => .error (.malformed f.expected (.of f.offset normal) source)
  | .ok tree =>
    match tree.children.filter (·.rule != .endOfInput) with
    | [] => .error (.noStatement source)
    | [s] => if s.rule = .exprStmt then .ok s else .error (.notAnExpression (snippet s))
    | several => .error (.severalStatements (several.map snippet))

/-- The outcome of narrowing the only statement of a source. -/
def draft {δ : Type} (narrow : Reading → Grammar.ParseTree → Except QueryError δ) (source : String)
    (catalog : Catalog) : Except QueryError δ :=
  let normal := normalizeChars source.toList
  match statement source normal with
  | .ok tree => narrow ⟨source.toList, normal, catalog⟩ tree
  | .error e => .error e

end Source

/-- Resolves the draft of a source, and notes a success with `event`. -/
def Parsed.ofDraft {δ α : Type} (resolve : δ → Rounds α) (event : α → Event) (source : String) :
    Except QueryError δ → Parsed α
  | .error e => ⟨[], .error (.query e)⟩
  | .ok d =>
    match (resolve d).run with
    | (log, .ok root) => ⟨log ++ [event root], .ok ⟨root, source⟩⟩
    | (log, .error e) => ⟨log, .error e⟩

/-- Reads a boolean combination of calls. -/
def parseFilter (source : String) (catalog : Catalog) (contexts : List Context) :
    Parsed Condition :=
  Parsed.ofDraft (Resolve.condition contexts) (fun root => .filterParsed source root.render) source
    (Source.draft (fun r => Draft.ofTree r .topLevel) source catalog)

/-- Reads a single call. -/
def parseAggregation (source : String) (catalog : Catalog) (contexts : List Context) :
    Parsed Call :=
  Parsed.ofDraft (Resolve.call contexts) (fun root => .aggregationParsed source root.render) source
    (Source.draft Draft.aggregationOfTree source catalog)

end CatalogQuery
