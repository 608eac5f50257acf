import CatalogQuery.Draft.Basic
import CatalogQuery.Query.Condition
import CatalogQuery.Resolve.Rounds
import CatalogQuery.Validate

/-!
# Resolving drafts

Resolution turns the arguments of a draft into values. A bare name stands for the context of that
name, if the parameter admits its type. A literal other than `None` goes through the similarity
index of its parameter, if there is one, and is replaced by the text found. When all of an argument
is resolved it is checked against the type of its parameter.

Operands of a chain, arguments of a call and items of a list are resolved side by side.
-/

namespace CatalogQuery

namespace Literal

/-- The value that a literal is without any lookup. -/
def value : Literal → Value
  | .none => .none
  | .bool b => .bool b
  | .int n => .int n
  | .float x => .float x
  | .str s => .str s

/-- The text under which a literal is looked up; `None` is not. -/
def lookupText? : Literal → Option String
  | .none => Option.none
  | .str s => some s
  | l => some l.value.render

end Literal

namespace Resolve

/-- The context that a name stands for as an argument of a parameter. -/
def context (contexts : List Context) (p : Parameter) (name : String) (piece : Snippet) :
    Except ParseError Value :=
  if p.contextTypes.isEmpty then .error (.query (.contextNotAllowed p.name piece))
  else match contexts.find? fun c => c.name == name with
    | none => .error (.query (.contextNotFound name piece))
    | some c =>
      if p.acceptsContext c.typeName then .ok (.context c)
      else .error (.query (.contextNotAllowed p.name piece))

/-- What the answer of an index makes of a literal that was looked up. -/
def answered (p : Parameter) (index text : String) (value : Value) :
    Except SimilarityError (Option String) → Rounds Value
  | .error e => .done [] (.error (.similarity e))
  | .ok none => .done [] (.ok value)
  | .ok (some found) => .done [.similarityMatch p.name index text found] (.ok (.str found))

/-- The value of a literal, looked up where the parameter has an index. -/
def literal (p : Parameter) (l : Literal) (piece : Snippet) : Rounds Value :=
  match p.similarity, l.lookupText? with
  | some index, some text =>
    let reply := index.lookup piece.start text
    (Rounds.delayed reply.delay (answered p index.name text l.value reply.answer)).after
      [.lookup index.name text]
  | _, _ => .ofExcept (.ok l.value)

mutual

/-- The value of an argument, before it is checked. -/
def value (contexts : List Context) (p : Parameter) : RawArg → Rounds Value
  | .literal l piece => literal p l piece
  | .list items _ => (Rounds.all (values contexts p items)).map .list
  | .name name piece => .ofExcept (context contexts p name piece)
  | .unsupported piece => .ofExcept (.error (.query (.invalidArgument piece)))

/-- The values of the items of a list. -/
def values (contexts : List Context) (p : Parameter) : List RawArg → List (Rounds Value)
  | [] => []
  | a :: rest => value contexts p a :: values contexts p rest

end

/-- Checks a value against the type of its parameter. -/
def checked (p : Parameter) (piece : Snippet) (v : Value) : Except ParseError Value :=
  match v.validate p.type with
  | .ok w => .ok w
  | .error why => .error (.query (.invalidValue p.name p.type why piece))

/-- An argument, resolved and checked. -/
def argument (contexts : List Context) (p : Parameter) (a : RawArg) : Rounds Value :=
  (value contexts p a).check (checked p a.snippet)

/-- A call, resolved and checked. -/
def call (contexts : List Context) (c : DraftCall) : Rounds Call :=
  (Rounds.all (List.zipWith (argument contexts) c.function.parameters c.arguments)).map
    fun arguments => ⟨c.function.name, arguments⟩

mutual

/-- A draft, resolved and checked. -/
def condition (contexts : List Context) : Draft → Rounds Condition
  | .all ds => (Rounds.all (conditions contexts ds)).map .all
  | .any ds => (Rounds.all (conditions contexts ds)).map .any
  | .not d => (condition contexts d).map .not
  | .call c => (call contexts c).map .call

/-- Several drafts, resolved and checked. -/
def conditions (contexts : List Context) : List Draft → List (Rounds Condition)
  | [] => []
  | d :: rest => condition contexts d :: conditions contexts rest

end

end Resolve

end CatalogQuery
