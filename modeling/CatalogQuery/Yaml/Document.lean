import CatalogQuery.Yaml.Basic
import CatalogQuery.Yaml.Layout

/-!
# Reading YAML documents

`Yaml.read?` reads the data of a document. The tokens say where collections open and close, so that
what is left is their grammar: items and fields that the indentation holds together, the items of a
key in whose column they stand, and items and fields in brackets. Wherever a key or a value is left
out, it is an empty scalar.

Fuel bounds the recursion; every step but one takes a token, so that twice the number of tokens is
enough.
-/

namespace CatalogQuery.Yaml

/-- Nothing is written for a key or a value in front of these tokens, outside brackets. -/
def endsField : List Token → Bool
  | .key :: _ | .value :: _ | .closeBlock :: _ => true
  | _ => false

/-- Nothing is written for an item in front of these tokens, outside brackets. -/
def endsItem : List Token → Bool
  | .item :: _ | .closeBlock :: _ => true
  | _ => false

/-- Nothing is written in front of these tokens in brackets. -/
def endsInBrackets : List Token → Bool
  | .comma :: _ | .closeBracket :: _ | .closeBrace :: _ => true
  | _ => false

mutual

/-- A value. Only outside brackets can the indentation open it. -/
def readNode : (fuel : Nat) → (inBrackets : Bool) → List Token → Option (Yaml × List Token)
  | 0, _, _ => none
  | fuel + 1, inBrackets, ts =>
    match ts with
    | .scalar isPlain text :: ts => some (.scalar isPlain text, ts)
    | .openBracket :: ts => (readBracket fuel true [] ts).map fun (ys, ts) => (.sequence ys, ts)
    | .openBrace :: ts => (readBrace fuel true [] ts).map fun (es, ts) => (.mapping es, ts)
    | .openItems :: ts =>
      if inBrackets then none
      else (readItems fuel [] ts).map fun (ys, ts) => (.sequence ys, ts)
    | .openFields :: ts =>
      if inBrackets then none
      else (readFields fuel [] ts).map fun (es, ts) => (.mapping es, ts)
    | _ => none

/-- The items that the indentation holds together. -/
def readItems : (fuel : Nat) → (done : List Yaml) → List Token → Option (List Yaml × List Token)
  | 0, _, _ => none
  | fuel + 1, done, ts =>
    match ts with
    | .item :: ts =>
      if endsItem ts then readItems fuel (Yaml.empty :: done) ts
      else match readNode fuel false ts with
        | some (y, ts) => readItems fuel (y :: done) ts
        | none => none
    | .closeBlock :: ts => some (done.reverse, ts)
    | _ => none

/-- The items in the column of the key that they belong to. What is no item ends them. -/
def readItemsOfKey : (fuel : Nat) → (done : List Yaml) → List Token →
    Option (List Yaml × List Token)
  | 0, _, _ => none
  | fuel + 1, done, ts =>
    match ts with
    | .item :: ts =>
      if endsItem ts || endsField ts then readItemsOfKey fuel (Yaml.empty :: done) ts
      else match readNode fuel false ts with
        | some (y, ts) => readItemsOfKey fuel (y :: done) ts
        | none => none
    | ts => some (done.reverse, ts)

/-- A key or a value in a mapping that the indentation holds together. -/
def readPart : (fuel : Nat) → List Token → Option (Yaml × List Token)
  | 0, _ => none
  | fuel + 1, ts =>
    if endsField ts then some (Yaml.empty, ts)
    else match ts with
      | .item :: _ => (readItemsOfKey fuel [] ts).map fun (ys, ts) => (.sequence ys, ts)
      | ts => readNode fuel false ts

/-- The fields that the indentation holds together. -/
def readFields : (fuel : Nat) → (done : List (Yaml × Yaml)) → List Token →
    Option (List (Yaml × Yaml) × List Token)
  | 0, _, _ => none
  | fuel + 1, done, ts =>
    match ts with
    | .key :: ts =>
      match readPart fuel ts with
      | none => none
      | some (key, .value :: ts) =>
        match readPart fuel ts with
        | some (value, ts) => readFields fuel ((key, value) :: done) ts
        | none => none
      | some (key, ts) => readFields fuel ((key, Yaml.empty) :: done) ts
    | .closeBlock :: ts => some (done.reverse, ts)
    | _ => none

/-- The value behind a key in brackets, or nothing. -/
def readValue : (fuel : Nat) → List Token → Option (Yaml × List Token)
  | 0, _ => none
  | fuel + 1, ts =>
    match ts with
    | .value :: ts => if endsInBrackets ts then some (Yaml.empty, ts) else readNode fuel true ts
    | ts => some (Yaml.empty, ts)

/-- The items in a pair of brackets. Behind the first one a comma precedes each. A key with its
value is an item of its own. -/
def readBracket : (fuel : Nat) → (first : Bool) → (done : List Yaml) → List Token →
    Option (List Yaml × List Token)
  | 0, _, _, _ => none
  | fuel + 1, first, done, ts =>
    match first, ts with
    | _, .closeBracket :: ts => some (done.reverse, ts)
    | false, .comma :: .closeBracket :: ts => some (done.reverse, ts)
    | true, .key :: ts | false, .comma :: .key :: ts =>
      let key := match ts with
        | .value :: ts | .comma :: ts | .closeBracket :: ts => some (Yaml.empty, ts)
        | ts => readNode fuel true ts
      match key with
      | none => none
      | some (key, ts) =>
        match readValue fuel ts with
        | some (value, ts) => readBracket fuel false (.mapping [(key, value)] :: done) ts
        | none => none
    | true, ts | false, .comma :: ts =>
      match readNode fuel true ts with
      | some (y, ts) => readBracket fuel false (y :: done) ts
      | none => none
    | false, _ => none

/-- The fields in a pair of braces. Behind the first one a comma precedes each. What is marked
neither as a key nor as a value is a key without a value. -/
def readBrace : (fuel : Nat) → (first : Bool) → (done : List (Yaml × Yaml)) → List Token →
    Option (List (Yaml × Yaml) × List Token)
  | 0, _, _, _ => none
  | fuel + 1, first, done, ts =>
    match first, ts with
    | _, .closeBrace :: ts => some (done.reverse, ts)
    | false, .comma :: .closeBrace :: ts => some (done.reverse, ts)
    | true, .key :: ts | false, .comma :: .key :: ts =>
      let key := match ts with
        | .value :: _ | .comma :: _ | .closeBrace :: _ => some (Yaml.empty, ts)
        | ts => readNode fuel true ts
      match key with
      | none => none
      | some (key, ts) =>
        match readValue fuel ts with
        | some (value, ts) => readBrace fuel false ((key, value) :: done) ts
        | none => none
    | true, ts | false, .comma :: ts =>
      match readNode fuel true ts with
      | some (key, ts) => readBrace fuel false ((key, Yaml.empty) :: done) ts
      | none => none
    | false, _ => none

end

/-- The data between the dividers of the only document, if it has any. -/
def ofTokens? (ts : List Token) : Option Yaml :=
  let read := match ts with
    | [] => some (Yaml.empty, ts)
    | .documentStart :: ts =>
      if ts.all (· matches .documentEnd) then some (Yaml.empty, ts)
      else readNode (2 * ts.length) false ts
    | ts => readNode (2 * ts.length) false ts
  match read with
  | some (y, ts) => if ts.all (· matches .documentEnd) then some y else none
  | none => none

/-- The data of a document, which is an empty scalar if the document holds nothing. -/
def read? (text : String) : Option Yaml := (tokens? text.toList).bind ofTokens?

end CatalogQuery.Yaml
