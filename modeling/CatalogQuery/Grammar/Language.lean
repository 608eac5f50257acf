import CatalogQuery.Grammar.Expr

/-!
# The language of sources

`Rule.body` is what a rule matches, and `Rule.flavor` says whether blanks and comments may stand
between its parts and whether its parts become nodes of the tree.

The language is larger than what a query may be. It has assignments, arithmetic, lambdas and
comprehensions, so that these can be refused by name and not as broken text. The operators bind,
from the loosest: a conditional, `or`, `and`, `not`, comparisons, sums, products, signs, powers, and
the calls, subscripts and attributes that follow an atom.
-/

namespace CatalogQuery.Grammar

open CatalogQuery.Grammar.Expr

/-- How a rule treats its parts. -/
inductive Flavor where
  /-- Blanks and comments may stand between the parts. -/
  | spaced
  /-- The parts follow each other at once. -/
  | tight
  /-- The parts follow each other at once, and none of them becomes a node. -/
  | token
  deriving DecidableEq, Repr

def Rule.flavor : Rule → Flavor
  | .formatted | .string | .doubleQuoted | .singleQuoted => .tight
  | .assignOp | .trueLit | .falseLit | .noneLit | .float | .int | .doubleBody | .singleBody | .ident
  | .kwAnd | .kwOr | .kwNot | .kwIn | .kwIs | .kwIf | .kwElse | .kwFor | .kwLambda | .kwImport
  | .kwFrom => .token
  | _ => .spaced

/-! ### Parts that are not nodes of their own -/

def newline : Expr := oneOf [lit "\n", lit "\r\n", lit "\r"]

/-- What separates two statements. -/
def separator : Expr := oneOf [newline, lit ";"]

def statement : Expr := oneOf [rule .importStmt, rule .assignStmt, rule .exprStmt]

/-- A character that may continue a name. -/
def identChar : Expr := oneOf [char .alphanumeric, lit "_"]

/-- A word that is not the beginning of a longer one. -/
def word (s : String) : Expr := sequence [lit s, absent identChar]

/-- A word that cannot be a name. -/
def reserved : Expr :=
  sequence [oneOf [lit "and", lit "or", lit "not", lit "in", lit "is", lit "if", lit "else",
    lit "for", lit "lambda", lit "import", lit "from", lit "True", lit "False", lit "None"],
    absent identChar]

/-- Digits, with single underscores between them. -/
def digits : Expr := sequence [char .digit, many (sequence [optional (lit "_"), char .digit])]

/-- The exponent of a floating-point literal. -/
def exponent : Expr :=
  sequence [oneOf [lit "e", lit "E"], optional (oneOf [lit "+", lit "-"]), digits]

/-- Items with `comma` between them and perhaps at the end, or none. -/
def commaList (item comma : Expr) : Expr :=
  optional (sequence [item, many (sequence [comma, item]), optional comma])

def argument : Expr := oneOf [rule .keywordArg, rule .starArg, rule .expr]

def trailer : Expr := oneOf [rule .call, rule .subscript, rule .member]

def literal : Expr :=
  oneOf [rule .formatted, rule .string, rule .float, rule .int, rule .trueLit, rule .falseLit,
    rule .noneLit]

def atom : Expr := oneOf [rule .group, rule .list, rule .dict, literal, rule .ident]

/-- Operands with an operator between any two. -/
def chain (operand operator : Expr) : Expr :=
  sequence [operand, many (sequence [operator, operand])]

def quoted : Expr := oneOf [rule .doubleQuoted, rule .singleQuoted]

/-- What stands between quotation marks: neither a line break nor the mark, unless after a
backslash. -/
def quotedBody (mark : String) : Expr :=
  many (oneOf [sequence [lit "\\", char .any],
    sequence [absent (oneOf [lit mark, lit "\\", newline]), char .any]])

/-- The second or third bound of a slice. -/
def sliceBound : Expr := optional (sequence [lit ":", optional (rule .expr)])

/-! ### The rules -/

/-- What a rule matches. -/
def Rule.body : Rule → Expr
  | .endOfInput => atEnd
  | .program => sequence [nothing, many separator,
      optional (sequence [statement, many (sequence [manyOne separator, statement])]),
      many separator, rule .endOfInput]
  | .importStmt => sequence [oneOf [rule .kwImport, rule .kwFrom],
      manyOne (sequence [absent separator, char .any])]
  | .assignStmt => sequence [rule .expr, manyOne (sequence [rule .assignOp, rule .expr])]
  | .assignOp => sequence [optional (oneOf [lit "**", lit "//", lit "+", lit "-", lit "*", lit "/",
      lit "%"]), lit "=", absent (lit "=")]
  | .exprStmt => rule .expr
  | .expr => oneOf [rule .lambda, rule .conditional]
  | .lambda => sequence [rule .kwLambda,
      optional (sequence [rule .ident, many (sequence [lit ",", rule .ident])]), lit ":",
      rule .expr]
  | .conditional => sequence [rule .disjunction,
      optional (sequence [rule .kwIf, rule .disjunction, rule .kwElse, rule .expr])]
  | .disjunction => chain (rule .conjunction) (rule .kwOr)
  | .conjunction => chain (rule .negation) (rule .kwAnd)
  | .negation => oneOf [sequence [rule .kwNot, rule .negation], rule .comparison]
  | .comparison => chain (rule .sum) (rule .comparator)
  | .comparator => oneOf [lit "==", lit "!=", lit "<=", lit ">=", lit "<", lit ">",
      sequence [rule .kwNot, rule .kwIn], rule .kwIn,
      sequence [rule .kwIs, optional (rule .kwNot)]]
  | .sum => chain (rule .product) (rule .sumOp)
  | .sumOp => oneOf [lit "+", lit "-"]
  | .product => chain (rule .signed) (rule .productOp)
  | .productOp => oneOf [lit "//", lit "*", lit "/", lit "%", lit "@"]
  | .signed => oneOf [sequence [rule .sign, rule .signed], rule .power]
  | .sign => oneOf [lit "+", lit "-", lit "~"]
  | .power => sequence [rule .primary, optional (sequence [lit "**", rule .signed])]
  | .primary => sequence [atom, many trailer]
  | .call => sequence [lit "(", commaList argument (lit ","), lit ")"]
  | .keywordArg => sequence [rule .ident, lit "=", absent (lit "="), rule .expr]
  | .starArg => sequence [oneOf [lit "**", lit "*"], rule .expr]
  | .subscript => sequence [lit "[", optional (rule .expr), sliceBound, sliceBound, lit "]"]
  | .member => sequence [lit ".", rule .ident]
  | .group => sequence [lit "(", commaList (rule .expr) (rule .comma), lit ")"]
  | .comma => lit ","
  | .list => sequence [lit "[",
      optional (sequence [rule .expr, oneOf [manyOne (rule .comprehension),
        sequence [many (sequence [lit ",", rule .expr]), optional (lit ",")]]]),
      lit "]"]
  | .comprehension => sequence [rule .kwFor, rule .primary,
      many (sequence [lit ",", rule .primary]), rule .kwIn, rule .disjunction,
      many (sequence [rule .kwIf, rule .disjunction])]
  | .dict => sequence [lit "\x7b", commaList (rule .dictItem) (lit ","), lit "\x7d"]
  | .dictItem => sequence [rule .expr, optional (sequence [lit ":", rule .expr])]
  | .trueLit => word "True"
  | .falseLit => word "False"
  | .noneLit => word "None"
  | .float => sequence [oneOf [
      sequence [digits, lit ".", optional digits, optional exponent],
      sequence [lit ".", digits, optional exponent],
      sequence [digits, exponent]], absent identChar]
  | .int => sequence [digits, absent identChar]
  | .formatted => sequence [oneOf [anyCase "rf".toList, anyCase "fr".toList, anyCase "f".toList],
      quoted]
  | .string => sequence [optional (rule .stringMark), quoted]
  | .stringMark => oneOf [anyCase "r".toList, anyCase "u".toList]
  | .doubleQuoted => sequence [lit "\"", rule .doubleBody, lit "\""]
  | .singleQuoted => sequence [lit "'", rule .singleBody, lit "'"]
  | .doubleBody => quotedBody "\""
  | .singleBody => quotedBody "'"
  | .ident => sequence [absent reserved, oneOf [char .letter, lit "_"], many identChar]
  | .kwAnd => word "and"
  | .kwOr => word "or"
  | .kwNot => word "not"
  | .kwIn => word "in"
  | .kwIs => word "is"
  | .kwIf => word "if"
  | .kwElse => word "else"
  | .kwFor => word "for"
  | .kwLambda => word "lambda"
  | .kwImport => word "import"
  | .kwFrom => word "from"

end CatalogQuery.Grammar
