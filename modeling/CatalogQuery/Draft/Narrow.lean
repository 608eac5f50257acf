import CatalogQuery.Decimal.Basic
import CatalogQuery.Draft.Basic
import CatalogQuery.Draft.Escape
import CatalogQuery.Grammar.ParseTree
import CatalogQuery.QueryError

/-!
# From parse trees to drafts

Narrowing keeps of the expression language what a query may be: `and`, `or` and `not` over calls of
functions of the catalog. Everything else is refused by name. Arguments are read as literals, lists
and names; what is none of these is kept as unsupported and refused later, when its turn comes.

A parse tree has a layer for every level of operators, and most layers hold a single operand.
Such layers, and parentheses around one expression, are looked through.
-/

namespace CatalogQuery

open Grammar

-- powers are those of the standard library, also where algebra brings its own
attribute [local instance (high)] instPowNat

/-- What narrowing looks at beside the parse tree. -/
structure Reading where
  source : List Char
  /-- The normal form of the source, which the tree was made from. -/
  normal : List Char
  catalog : Catalog

namespace Draft

/-- A level of operators or a bracket, which is looked through when it holds one part only. -/
def isLayer : Rule → Bool
  | .exprStmt | .expr | .group | .conditional | .disjunction | .conjunction | .negation
  | .comparison | .sum | .product | .signed | .power | .primary => true
  | _ => false

/-- The construct that a node stands for in messages. -/
def construct (tree : ParseTree) : Construct :=
  match tree.rule with
  | .disjunction => .orChain
  | .conjunction => .andChain
  | .negation => .negation
  | .comparison => .comparison
  | .sum | .product | .power => .binaryOp
  | .signed => .unaryOp
  | .lambda => .lambda
  | .conditional => .conditional
  | .primary =>
    match tree.children.getLast?.map ParseTree.rule with
    | some .subscript => .subscript
    | some .member => .member
    | _ => .call
  | .int | .float | .string | .trueLit | .falseLit | .noneLit => .constant
  | .formatted => .formattedString
  | .ident => .name
  | .list => if tree.children.any (·.rule == .comprehension) then .comprehension else .list
  | .group => .tuple
  | .dict => .dict
  | .keywordArg => .keywordArgument
  | .starArg => .starred
  | _ => .expression

/-- The piece of the source that a node was made from. -/
def snippet (r : Reading) (tree : ParseTree) : Snippet :=
  .of r.source r.normal tree.start tree.stop

/-- The refusal of a node. -/
def refuse (r : Reading) (around : Surroundings) (tree : ParseTree) : QueryError :=
  .unsupported (construct tree) around (snippet r tree)

/-! ### Literals -/

/-- Digits with the underscores between them removed. -/
def withoutUnderscores (cs : List Char) : List Char := cs.filter (· != '_')

/-- The integer that a literal denotes, if it has one of 64 bits. -/
def readInt? (cs : List Char) : Option Int64 :=
  let n := numeral (withoutUnderscores cs)
  if n < 2 ^ (63 : Nat) then some (Int64.ofInt n) else none

/-- The double that a literal denotes, if it is finite. -/
def readFloat? (cs : List Char) : Option Double :=
  match Decimal.read? (withoutUnderscores cs) with
  | some d =>
    let x : Double := d.nearest false
    if x.isFinite then some x else none
  | none => none

/-- The text between the marks of a quoted node. -/
def body (quoted : ParseTree) : List Char := (quoted.children.head?.map ParseTree.text).getD []

/-- The text that a string literal denotes. After `r` the body is taken as it stands. -/
def readString? : List ParseTree → Option (List Char)
  | [quoted] => Escape.unescape (body quoted)
  | [mark, quoted] =>
    if mark.text.map Char.toLower = ['r'] then some (body quoted)
    else Escape.unescape (body quoted)
  | _ => none

/-- The literal that a node denotes. -/
def literal? (tree : ParseTree) : Option Literal :=
  match tree.rule with
  | .int => (readInt? tree.text).map .int
  | .float => (readFloat? tree.text).map .float
  | .string => (readString? tree.children).map fun cs => .str (String.ofList cs)
  | .trueLit => some (.bool true)
  | .falseLit => some (.bool false)
  | .noneLit => some .none
  | _ => none

/-- A sign applied to a literal: numbers only, and no integer that has no negative. -/
def applySign? (sign : List Char) : Literal → Option Literal
  | .int n =>
    if sign = ['+'] then some (.int n)
    else if sign = ['-'] ∧ n ≠ Int64.minValue then some (.int (-n))
    else none
  | .float x =>
    if sign = ['+'] then some (.float x)
    else if sign = ['-'] then some (.float x.neg)
    else none
  | .none | .bool _ | .str _ => none

/-! ### Arguments -/

/-- A literal argument, or an unsupported one where there is no literal. -/
def literalOr (piece : Snippet) : Option Literal → RawArg
  | some value => .literal value piece
  | none => .unsupported piece

/-- A signed argument. Only a number can have a sign. -/
def applySign (sign : List Char) (operand : RawArg) (piece : Snippet) : RawArg :=
  match operand with
  | .literal value _ => literalOr piece (applySign? sign value)
  | _ => .unsupported piece

mutual

/-- The argument that a node stands for. -/
def argument (r : Reading) : ParseTree → RawArg
  | .node rule start stop text [child] =>
    if isLayer rule then argument r child
    else
      let tree := ParseTree.node rule start stop text [child]
      if rule = .list then .list (arguments r [child]) (snippet r tree)
      else literalOr (snippet r tree) (literal? tree)
  | .node .signed start stop text [sign, operand] =>
    applySign sign.text (argument r operand)
      (snippet r (.node .signed start stop text [sign, operand]))
  | .node rule start stop text children =>
    let tree := ParseTree.node rule start stop text children
    if rule = .ident then .name (String.ofList text) (snippet r tree)
    else if rule = .group ∨ (rule = .list ∧ !children.any (·.rule == .comprehension)) then
      .list (arguments r children) (snippet r tree)
    else literalOr (snippet r tree) (literal? tree)

/-- The arguments that nodes stand for; commas stand for none. -/
def arguments (r : Reading) : List ParseTree → List RawArg
  | [] => []
  | tree :: rest =>
    if tree.rule = .comma then arguments r rest else argument r tree :: arguments r rest

end

/-! ### Calls -/

/-- The call that a primary expression stands for. A function that does not exist is reported before
an argument that is given by keyword or spread, and that before a wrong number of arguments. -/
def callOf (r : Reading) (around : Surroundings) (tree : ParseTree) :
    Except QueryError DraftCall :=
  match tree.children with
  | [callee, args] =>
    if callee.rule = .ident ∧ args.rule = .call then
      let name := String.ofList callee.text
      match r.catalog.find? name with
      | none => .error (.unknownFunction name (snippet r tree))
      | some function =>
        match args.children.find? fun a => a.rule == .keywordArg || a.rule == .starArg with
        | some a => .error (refuse r .call a)
        | none =>
          let given := args.children.map (argument r)
          if given.length = function.arity then .ok ⟨function, given⟩
          else .error
            (.wrongArity function.name function.arity given.length (snippet r tree))
    else .error (refuse r around tree)
  | _ => .error (refuse r around tree)

/-! ### Roots -/

mutual

/-- The draft that a node stands for. -/
def ofTree (r : Reading) (around : Surroundings) : ParseTree → Except QueryError Draft
  | .node rule start stop text [child] =>
    if isLayer rule then ofTree r around child
    else .error (refuse r around (.node rule start stop text [child]))
  | .node .negation _ _ _ [_, operand] => (ofTree r .negation operand).map .not
  | .node rule start stop text children =>
    if rule = .disjunction then (operands r .conjunction children).map .any
    else if rule = .conjunction then (operands r .negation children).map .all
    else if rule = .primary then
      (callOf r around (.node rule start stop text children)).map .call
    else .error (refuse r around (.node rule start stop text children))

/-- The drafts of the operands of a chain, which are the nodes of one rule. -/
def operands (r : Reading) (rule : Rule) : List ParseTree → Except QueryError (List Draft)
  | [] => .ok []
  | tree :: rest =>
    if tree.rule = rule then
      match ofTree r .chain tree with
      | .ok d => (operands r rule rest).map (d :: ·)
      | .error e => .error e
    else operands r rule rest

end

/-- The single call that an aggregation consists of. -/
def aggregationOfTree (r : Reading) : ParseTree → Except QueryError DraftCall
  | .node rule start stop text [child] =>
    if isLayer rule then aggregationOfTree r child
    else .error (refuse r .topLevel (.node rule start stop text [child]))
  | .node rule start stop text children =>
    let tree := ParseTree.node rule start stop text children
    if rule = .primary then callOf r .topLevel tree
    else if rule = .disjunction ∨ rule = .conjunction ∨ rule = .negation then
      .error (refuse r .aggregation tree)
    else .error (refuse r .topLevel tree)

end Draft

end CatalogQuery
