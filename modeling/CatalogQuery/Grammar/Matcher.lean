import CatalogQuery.Grammar.Language
import CatalogQuery.Grammar.Furthest
import CatalogQuery.Grammar.ParseTree
import CatalogQuery.Source.Snippet

/-!
# Matching

`run` matches a parsing expression at the front of a text. Its `State` holds what is left of the
text, the byte offset reached, the nodes found so far and the furthest failure; a failure keeps only
the last of these, because everything else is given back. A `Mode` says what the surrounding rules
ask for: whether blanks and comments are skipped between parts, and whether matches become nodes and
failures are remembered.

The recursion is on an explicit fuel. Each step inside an expression and each entry into a rule
takes one unit; the grammar has no left recursion, so that an amount proportional to the length of
the text is enough. `parse` gives it that much, and matches a whole source.
-/

namespace CatalogQuery.Grammar

/-- What the rules around an expression ask for. -/
structure Mode where
  /-- Blanks and comments may stand between parts. -/
  skips : Bool
  /-- Matches become nodes, and failures are remembered. -/
  records : Bool
  deriving DecidableEq, Repr

/-- The mode for the parts of a rule of some flavor. -/
def Mode.inside (m : Mode) : Flavor → Mode
  | .spaced => m
  | .tight => { m with skips := false }
  | .token => ⟨false, false⟩

/-- How far a match has come. -/
structure State where
  rest : List Char
  /-- The byte offset of `rest` in the source. -/
  offset : Nat
  /-- The nodes found so far, the latest first. -/
  found : List ParseTree
  furthest : Furthest

/-- The outcome of a match. -/
inductive Outcome where
  | matched (s : State)
  | failed (f : Furthest)
  | outOfFuel

/-! ### Blanks and comments -/

/-- Skips blanks and comments. Blanks are spaces, tabs, carriage returns, and line breaks after a
backslash; a comment reaches from `#` to the end of its line. -/
def skipFrom (inComment : Bool) (offset : Nat) : List Char → List Char × Nat
  | [] => ([], offset)
  | c :: cs =>
    if inComment then
      if c = '\n' then (c :: cs, offset)
      else if c = '\r' then skipFrom false (offset + 1) cs
      else skipFrom true (offset + c.utf8Size) cs
    else if c = ' ' ∨ c = '\t' ∨ c = '\r' then skipFrom false (offset + 1) cs
    else if c = '#' then skipFrom true (offset + 1) cs
    else if c = '\\' then
      match cs with
      | '\n' :: rest => skipFrom false (offset + 2) rest
      | '\r' :: '\n' :: rest => skipFrom false (offset + 3) rest
      | '\r' :: rest => skipFrom false (offset + 2) rest
      | _ => (c :: cs, offset)
    else (c :: cs, offset)

namespace State

/-- The state after skipping what may stand between parts. -/
def skip (s : State) (m : Mode) : State :=
  if m.skips then
    let (rest, offset) := skipFrom false s.offset s.rest
    { s with rest, offset }
  else s

/-- The state after the given characters were consumed. -/
def advance (s : State) (consumed rest : List Char) : State :=
  { s with rest, offset := s.offset + Source.byteLength consumed }

/-- Consumes a text, compared after `fold` is applied to the characters of the source. -/
def consume (fold : Char → Char) (s : State) (t : List Char) : Outcome :=
  if (s.rest.take t.length).map fold = t then
    .matched (s.advance (s.rest.take t.length) (s.rest.drop t.length))
  else .failed s.furthest

/-- The text between two states of one match. -/
def textTo (before after : State) : List Char :=
  before.rest.take (before.rest.length - after.rest.length)

/-- The node for a rule that matched between two states. -/
def nodeTo (before after : State) (r : Rule) : ParseTree :=
  .node r before.offset after.offset (before.textTo after) after.found.reverse

end State

/-! ### Matching -/

/-- Matches an expression at the front of what is left of the source. -/
def run : (fuel : Nat) → Expr → Mode → State → Outcome
  | 0, _, _, _ => .outOfFuel
  | _ + 1, .nothing, _, s => .matched s
  | _ + 1, .atEnd, _, s => if s.rest.isEmpty then .matched s else .failed s.furthest
  | _ + 1, .text t, _, s => s.consume id t
  | _ + 1, .anyCase t, _, s => s.consume Char.toLower t
  | _ + 1, .char k, _, s =>
    match s.rest with
    | c :: rest => if k.holds c then .matched (s.advance [c] rest) else .failed s.furthest
    | [] => .failed s.furthest
  | n + 1, .rule r, m, s =>
    if m.records then
      match run n r.body (m.inside r.flavor) { s with found := [] } with
      | .matched after => .matched { after with found := s.nodeTo after r :: s.found }
      | .failed f => .failed (f.record r s.offset (s.furthest.countAt s.offset))
      | .outOfFuel => .outOfFuel
    else run n r.body (m.inside r.flavor) s
  | n + 1, .seq a b, m, s =>
    match run n a m s with
    | .matched after => run n b m (after.skip m)
    | .failed f => .failed f
    | .outOfFuel => .outOfFuel
  | n + 1, .choice a b, m, s =>
    match run n a m s with
    | .matched after => .matched after
    | .failed f => run n b m { s with furthest := f }
    | .outOfFuel => .outOfFuel
  | n + 1, .optional a, m, s =>
    match run n a m s with
    | .matched after => .matched after
    | .failed f => .matched { s with furthest := f }
    | .outOfFuel => .outOfFuel
  | n + 1, .many a, m, s =>
    match run n a m s with
    | .matched after => run n (.more a) m after
    | .failed f => .matched { s with furthest := f }
    | .outOfFuel => .outOfFuel
  | n + 1, .more a, m, s =>
    match run n a m (s.skip m) with
    | .matched after => run n (.more a) m after
    | .failed f => .matched { s with furthest := f }
    | .outOfFuel => .outOfFuel
  | n + 1, .absent a, m, s =>
    match run n a { m with records := false } s with
    | .matched _ => .failed s.furthest
    | .failed _ => .matched s
    | .outOfFuel => .outOfFuel

/-! ### Whole sources -/

/-- Fuel for matching a whole text. -/
def fuelFor (cs : List Char) : Nat := 400 * (cs.length + 1)

/-- The parse tree of a source in normal form, or where and why there is none. -/
def parse (cs : List Char) : Except Furthest ParseTree :=
  match run (fuelFor cs) (.rule .program) ⟨true, true⟩ ⟨cs, 0, [], .start⟩ with
  | .matched ⟨_, _, tree :: _, _⟩ => .ok tree
  | .matched s => .error s.furthest
  | .failed f => .error f
  | .outOfFuel => .error .start

end CatalogQuery.Grammar
