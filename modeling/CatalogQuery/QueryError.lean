import CatalogQuery.Mismatch
import CatalogQuery.Grammar.Rule
import CatalogQuery.Similarity.Index
import CatalogQuery.Source.Snippet

/-!
# Why a source is refused

A `QueryError` is the cause for which a source is no valid query, with the piece of the source that
it concerns. `QueryError.message` is the one text for it; it is fed back to the language model, so
it always shows the offending piece.
-/

namespace CatalogQuery

/-- A construct of the grammar that a query may not use, or not where it stands. -/
inductive Construct where
  | orChain
  | andChain
  | negation
  | comparison
  | binaryOp
  | unaryOp
  | lambda
  | conditional
  | subscript
  | member
  | call
  | constant
  | formattedString
  | name
  | comprehension
  | list
  | tuple
  | dict
  | keywordArgument
  | starred
  | expression
  deriving DecidableEq, Repr

def Construct.label : Construct → String
  | orChain => "BoolOp(or)"
  | andChain => "BoolOp(and)"
  | negation => "UnaryOp(not)"
  | comparison => "Compare"
  | binaryOp => "BinOp"
  | unaryOp => "UnaryOp"
  | lambda => "Lambda"
  | conditional => "IfExp"
  | subscript => "Subscript"
  | member => "Attribute"
  | call => "Call"
  | constant => "Constant"
  | formattedString => "JoinedStr"
  | name => "Name"
  | comprehension => "ListComp"
  | list => "List"
  | tuple => "Tuple"
  | dict => "Dict"
  | keywordArgument => "Keyword argument"
  | starred => "Starred"
  | expression => "Expression"

/-- Where a refused construct stands. -/
inductive Surroundings where
  | topLevel
  | chain
  | negation
  | call
  | aggregation
  deriving DecidableEq, Repr

def Surroundings.label : Surroundings → String
  | topLevel => "at top level"
  | chain => "inside BoolOp"
  | negation => "inside UnaryOp"
  | call => "inside Call"
  | aggregation => "in an aggregation"

/-- Why a source is no valid query. -/
inductive QueryError where
  /-- The text breaks off from the grammar at a place where only the rules `expected` could go on.
  -/
  | malformed (expected : List Grammar.Rule) (place : Place) (source : String)
  | noStatement (source : String)
  | severalStatements (statements : List Snippet)
  | notAnExpression (piece : Snippet)
  | unsupported (construct : Construct) (surroundings : Surroundings) (piece : Snippet)
  | unknownFunction (name : String) (piece : Snippet)
  | wrongArity (name : String) (expected actual : Nat) (piece : Snippet)
  | invalidArgument (piece : Snippet)
  | contextNotAllowed (parameter : String) (piece : Snippet)
  | contextNotFound (name : String) (piece : Snippet)
  | invalidValue (parameter : String) (type : ParamType) (why : Mismatch) (piece : Snippet)

namespace QueryError

/-- A list of alternatives in words: `a`, `a or b`, `a, b, or c`. -/
def alternatives : List String → String
  | [] => ""
  | [a] => a
  | [a, b] => a ++ " or " ++ b
  | names => ", ".intercalate names.dropLast ++ ", or " ++ names.getLastD ""

/-- What could have stood where a text breaks off from the grammar. -/
def expectation : List Grammar.Rule → String
  | [] => "unknown parsing error"
  | rules => "expected " ++ alternatives (rules.map Grammar.Rule.label)

def message : QueryError → String
  | malformed expected place _ =>
    "Syntax error at line " ++ toString place.line ++ ", column " ++ toString place.column ++ ": "
      ++ expectation expected
  | noStatement _ => "Empty IQL: no statement found"
  | severalStatements statements =>
    "Multiple statements in IQL are not supported: "
      ++ ", ".intercalate (statements.map Snippet.render)
  | notAnExpression s => "Not a valid IQL expression: " ++ s.render
  | unsupported construct surroundings s =>
    construct.label ++ " syntax is not supported " ++ surroundings.label ++ ": " ++ s.render
  | unknownFunction name s => "Function " ++ name ++ " does not exist: " ++ s.render
  | wrongArity name expected actual s =>
    "Function " ++ name ++ " takes " ++ toString expected ++ " argument(s) but "
      ++ toString actual ++ " were given: " ++ s.render
  | invalidArgument s => "Not a valid IQL argument: " ++ s.render
  | contextNotAllowed parameter s =>
    "Context is not allowed as argument " ++ parameter ++ ": " ++ s.render
  | contextNotFound name s => "Context " ++ name ++ " not found: " ++ s.render
  | invalidValue parameter type why s =>
    s.render ++ " is not a valid value for argument " ++ parameter ++ " of type " ++ type.render
      ++ ": " ++ why.message

/-- The piece of the source that an error points at. -/
def snippet? : QueryError → Option Snippet
  | malformed .. | noStatement _ => none
  | severalStatements statements => statements.head?
  | notAnExpression s | unsupported _ _ s | unknownFunction _ s | wrongArity _ _ _ s
  | invalidArgument s | contextNotAllowed _ s | contextNotFound _ s | invalidValue _ _ _ s => some s

end QueryError

/-- Why reading a source ended without a query: the source is refused, or a similarity index
failed. -/
inductive ParseError where
  | query (e : QueryError)
  | similarity (e : SimilarityError)

end CatalogQuery
