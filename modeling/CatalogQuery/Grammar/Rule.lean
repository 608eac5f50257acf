/-!
# The rules of the grammar

`Rule` names the rules whose matches become nodes of a parse tree and whose failures a syntax error
lists. They stand in the order in which an error lists them. `Rule.label` is the name of a rule in
such a list.
-/

namespace CatalogQuery.Grammar

/-- A named rule of the expression grammar. -/
inductive Rule where
  | endOfInput
  | program
  | importStmt
  | assignStmt
  | assignOp
  | exprStmt
  | expr
  | lambda
  | conditional
  | disjunction
  | conjunction
  | negation
  | comparison
  | comparator
  | sum
  | sumOp
  | product
  | productOp
  | signed
  | sign
  | power
  | primary
  | call
  | keywordArg
  | starArg
  | subscript
  | member
  | group
  | comma
  | list
  | comprehension
  | dict
  | dictItem
  | trueLit
  | falseLit
  | noneLit
  | float
  | int
  | formatted
  | string
  | stringMark
  | doubleQuoted
  | singleQuoted
  | doubleBody
  | singleBody
  | ident
  | kwAnd
  | kwOr
  | kwNot
  | kwIn
  | kwIs
  | kwIf
  | kwElse
  | kwFor
  | kwLambda
  | kwImport
  | kwFrom
  deriving DecidableEq, Repr

namespace Rule

/-- All rules, in the order in which an error lists them. -/
def all : List Rule :=
  [endOfInput, program, importStmt, assignStmt, assignOp, exprStmt, expr, lambda, conditional,
    disjunction, conjunction, negation, comparison, comparator, sum, sumOp, product, productOp,
    signed, sign, power, primary, call, keywordArg, starArg, subscript, member, group, comma,
    list, comprehension, dict, dictItem, trueLit, falseLit, noneLit, float, int, formatted, string,
    stringMark, doubleQuoted, singleQuoted, doubleBody, singleBody, ident, kwAnd, kwOr, kwNot, kwIn,
    kwIs, kwIf, kwElse, kwFor, kwLambda, kwImport, kwFrom]

theorem mem_all (r : Rule) : r ∈ all := by cases r <;> decide

/-- The name of a rule in a syntax error. -/
def label : Rule → String
  | endOfInput => "end of input"
  | program => "module"
  | importStmt => "import_stmt"
  | assignStmt => "assign_stmt"
  | assignOp => "assignment"
  | exprStmt => "expr_stmt"
  | expr => "expression"
  | lambda => "lambda"
  | conditional => "ternary"
  | disjunction => "or_test"
  | conjunction => "and_test"
  | negation => "not_test"
  | comparison => "comparison"
  | comparator => "comp_op"
  | sum => "arith"
  | sumOp => "add_op"
  | product => "term"
  | productOp => "mul_op"
  | signed => "factor"
  | sign => "unary_op"
  | power => "power"
  | primary => "postfix"
  | call => "call"
  | keywordArg => "keyword_arg"
  | starArg => "star_arg"
  | subscript => "subscript"
  | member => "attribute"
  | group => "group"
  | comma => "','"
  | list => "list"
  | comprehension => "comp_for"
  | dict => "dict"
  | dictItem => "dict_item"
  | trueLit => "true_lit"
  | falseLit => "false_lit"
  | noneLit => "none_lit"
  | float => "float"
  | int => "int"
  | formatted => "fstring"
  | string => "string"
  | stringMark => "raw_prefix"
  | doubleQuoted => "dq_string"
  | singleQuoted => "sq_string"
  | doubleBody => "dq_inner"
  | singleBody => "sq_inner"
  | ident => "identifier"
  | kwAnd => "kw_and"
  | kwOr => "kw_or"
  | kwNot => "kw_not"
  | kwIn => "kw_in"
  | kwIs => "kw_is"
  | kwIf => "kw_if"
  | kwElse => "kw_else"
  | kwFor => "kw_for"
  | kwLambda => "kw_lambda"
  | kwImport => "kw_import"
  | kwFrom => "kw_from"

end Rule

end CatalogQuery.Grammar
