import CatalogQuery.Proofs.Draft.Narrow
import CatalogQuery.Proofs.Resolve.InOrder

/-!
# Delays do not matter

`Catalog.prompt` is a catalog with the same answers to all lookups, given at once. Two catalogs that
become the same when they are made prompt differ in delays only.

Narrowing does not ask the indexes, so it commutes with making a catalog prompt (`draft_prompt`),
and work in order only asks for answers (`conditionInOrder_prompt`). With the agreement of rounds
and order this gives the main result, `parse_toOption_eq_inOrder`: sources have the same trees under
catalogs that differ in delays only, namely those that work in order finds.
-/

namespace CatalogQuery

open Grammar

/-! ### Prompt catalogs -/

/-- The index with the same answers, given at once. -/
def SimilarityIndex.prompt (i : SimilarityIndex) : SimilarityIndex where
  name := i.name
  lookup place text := ⟨0, (i.lookup place text).answer⟩

def Parameter.prompt (p : Parameter) : Parameter :=
  { p with similarity := p.similarity.map SimilarityIndex.prompt }

def Function.prompt (f : Function) : Function :=
  { f with parameters := f.parameters.map Parameter.prompt }

/-- The catalog whose indexes give the same answers at once. -/
def Catalog.prompt (c : Catalog) : Catalog := ⟨c.functions.map Function.prompt⟩

theorem Catalog.find?_prompt (c : Catalog) (name : String) :
    c.prompt.find? name = (c.find? name).map Function.prompt := List.find?_map

def DraftCall.prompt (c : DraftCall) : DraftCall := { c with function := c.function.prompt }

namespace Draft

mutual

/-- The draft whose calls are of prompt functions. -/
def prompt : Draft → Draft
  | .all ds => .all (promptEach ds)
  | .any ds => .any (promptEach ds)
  | .not d => .not d.prompt
  | .call c => .call c.prompt

def promptEach : List Draft → List Draft
  | [] => []
  | d :: rest => d.prompt :: promptEach rest

end

end Draft

/-! ### Narrowing does not ask the indexes -/

namespace Draft

variable (source normal : List Char) (catalog : Catalog)

/-- A call is narrowed to the same call of the prompt function. -/
theorem callOf_prompt (around : Surroundings) (t : ParseTree) :
    callOf ⟨source, normal, catalog.prompt⟩ around t
      = (callOf ⟨source, normal, catalog⟩ around t).map DraftCall.prompt := by
  -- arguments are read without the catalog
  have hargs := fun ts : List ParseTree =>
    List.map_congr_left fun t (_ : t ∈ ts) =>
      argument_catalog source normal catalog.prompt catalog t
  unfold callOf
  split
  · rename_i callee args _
    split_ifs
    · dsimp only
      -- the prompt function has the same name and as many parameters
      rw [Catalog.find?_prompt]
      cases catalog.find? (String.ofList callee.text) with
      | none => rfl
      | some f =>
        dsimp only [Option.map_some]
        split
        · rfl
        · rw [hargs]
          simp only [Function.arity, Function.prompt, List.length_map]
          split_ifs <;> rfl
    · rfl
  · rfl

mutual

/-- A condition is narrowed to the same condition over prompt functions. -/
theorem ofTree_prompt :
    ∀ (around : Surroundings) (t : ParseTree), ofTree ⟨source, normal, catalog.prompt⟩ around t
      = (ofTree ⟨source, normal, catalog⟩ around t).map prompt
  | around, .node rule b e text ts => by
    unfold ofTree
    split
    · rename_i child heq
      cases heq
      split_ifs
      · exact ofTree_prompt around child
      · rfl
    · rename_i operand heq
      cases heq
      -- only calls have functions, and the operands are narrowed before them
      rw [ofTree_prompt .negation operand]
      cases ofTree ⟨source, normal, catalog⟩ .negation operand <;> rfl
    · rename_i heq
      cases heq
      rw [operands_prompt .conjunction ts, operands_prompt .negation ts, callOf_prompt]
      split_ifs
      · cases operands ⟨source, normal, catalog⟩ .conjunction ts <;> rfl
      · cases operands ⟨source, normal, catalog⟩ .negation ts <;> rfl
      · cases callOf ⟨source, normal, catalog⟩ around (.node rule b e text ts) <;> rfl
      · rfl

theorem operands_prompt :
    ∀ (rule : Rule) (ts : List ParseTree), operands ⟨source, normal, catalog.prompt⟩ rule ts
      = (operands ⟨source, normal, catalog⟩ rule ts).map promptEach
  | _, [] => rfl
  | rule, t :: rest => by
    rw [operands, operands, ofTree_prompt .chain t, operands_prompt rule rest]
    split_ifs
    · cases ofTree ⟨source, normal, catalog⟩ .chain t with
      | error e => rfl
      | ok d => cases operands ⟨source, normal, catalog⟩ rule rest <;> rfl
    · rfl

end

theorem aggregationOfTree_prompt (t : ParseTree) :
    aggregationOfTree ⟨source, normal, catalog.prompt⟩ t
      = (aggregationOfTree ⟨source, normal, catalog⟩ t).map DraftCall.prompt := by
  cases t with
  | node rule b e text ts =>
    unfold aggregationOfTree
    split
    · rename_i child heq
      cases heq
      split_ifs
      · exact aggregationOfTree_prompt child
      · rfl
    · rename_i heq
      cases heq
      dsimp only
      rw [callOf_prompt]
      split_ifs <;> rfl

end Draft

/-- Making the catalog prompt makes the draft of a source prompt. -/
theorem Source.draft_prompt {δ : Type} {narrow : Reading → ParseTree → Except QueryError δ}
    (prompt : δ → δ) {catalog : Catalog}
    (h : ∀ source normal t, narrow ⟨source, normal, catalog.prompt⟩ t
      = (narrow ⟨source, normal, catalog⟩ t).map prompt) (source : String) :
    Source.draft narrow source catalog.prompt = (Source.draft narrow source catalog).map prompt := by
  unfold Source.draft
  dsimp only
  split
  · exact h _ _ _
  · rfl

/-! ### Work in order asks for answers only -/

namespace Resolve

variable (contexts : List Context)

theorem literalInOrder_prompt (p : Parameter) (l : Literal) (piece : Snippet) :
    literalInOrder p.prompt l piece = literalInOrder p l piece := by
  unfold literalInOrder Parameter.prompt
  cases p.similarity <;> cases l.lookupText? <;> rfl

mutual

theorem valueInOrder_prompt (p : Parameter) :
    ∀ a, valueInOrder contexts p.prompt a = valueInOrder contexts p a
  | .literal l piece => literalInOrder_prompt p l piece
  | .list items _ => by rw [valueInOrder, valueInOrder, valuesInOrder_prompt p items]
  | .name _ _ => rfl
  | .unsupported _ => rfl

theorem valuesInOrder_prompt (p : Parameter) :
    ∀ items, valuesInOrder contexts p.prompt items = valuesInOrder contexts p items
  | [] => rfl
  | a :: rest => by
    rw [valuesInOrder, valuesInOrder, valueInOrder_prompt p a, valuesInOrder_prompt p rest]

end

theorem argumentsInOrder_prompt (ps : List Parameter) (as : List RawArg) :
    argumentsInOrder contexts (ps.map Parameter.prompt) as = argumentsInOrder contexts ps as := by
  induction ps generalizing as with
  | nil => rfl
  | cons p ps ih =>
    cases as with
    | nil => rfl
    | cons a as =>
      rw [List.map_cons, argumentsInOrder, argumentsInOrder, ih, argumentInOrder, argumentInOrder,
        valueInOrder_prompt]
      rfl

theorem callInOrder_prompt (c : DraftCall) :
    callInOrder contexts c.prompt = callInOrder contexts c := by
  unfold callInOrder DraftCall.prompt Function.prompt
  rw [argumentsInOrder_prompt]

mutual

theorem conditionInOrder_prompt :
    ∀ d, conditionInOrder contexts d.prompt = conditionInOrder contexts d
  | .all ds => by
    rw [Draft.prompt, conditionInOrder, conditionInOrder, conditionsInOrder_prompt ds]
  | .any ds => by
    rw [Draft.prompt, conditionInOrder, conditionInOrder, conditionsInOrder_prompt ds]
  | .not d => by rw [Draft.prompt, conditionInOrder, conditionInOrder, conditionInOrder_prompt d]
  | .call c => by rw [Draft.prompt, conditionInOrder, conditionInOrder, callInOrder_prompt]

theorem conditionsInOrder_prompt :
    ∀ ds, conditionsInOrder contexts (Draft.promptEach ds) = conditionsInOrder contexts ds
  | [] => rfl
  | d :: rest => by
    rw [Draft.promptEach, conditionsInOrder, conditionsInOrder, conditionInOrder_prompt d,
      conditionsInOrder_prompt rest]

end

end Resolve

/-! ### Sources -/

/-- The two catalogs have the same functions and the same answers; only the delays may differ. -/
def Catalog.SameAnswers (c c' : Catalog) : Prop := c.prompt = c'.prompt

namespace Source

/-- What a draft is when its arguments are resolved and checked one after another. -/
def finishInOrder {δ α : Type} (resolve : δ → Except ParseError α) (source : String) :
    Except QueryError δ → Except ParseError (Query α)
  | .error e => .error (.query e)
  | .ok d => (resolve d).map fun root => ⟨root, source⟩

/-- `parseFilter`, with one thing done at a time. -/
def filterInOrder (source : String) (catalog : Catalog) (contexts : List Context) :
    Except ParseError (Query Condition) :=
  finishInOrder (Resolve.conditionInOrder contexts) source
    (Source.draft (fun r => Draft.ofTree r .topLevel) source catalog)

/-- `parseAggregation`, with one thing done at a time. -/
def aggregationInOrder (source : String) (catalog : Catalog) (contexts : List Context) :
    Except ParseError (Query Call) :=
  finishInOrder (Resolve.callInOrder contexts) source
    (Source.draft Draft.aggregationOfTree source catalog)

theorem filterInOrder_prompt (source : String) (catalog : Catalog) (contexts : List Context) :
    filterInOrder source catalog.prompt contexts = filterInOrder source catalog contexts := by
  unfold filterInOrder
  rw [Source.draft_prompt Draft.prompt
    fun s n t => Draft.ofTree_prompt s n catalog .topLevel t]
  cases Source.draft (fun r => Draft.ofTree r .topLevel) source catalog with
  | error e => rfl
  | ok d => simp only [Except.map, finishInOrder, Resolve.conditionInOrder_prompt]

theorem aggregationInOrder_prompt (source : String) (catalog : Catalog)
    (contexts : List Context) :
    aggregationInOrder source catalog.prompt contexts
      = aggregationInOrder source catalog contexts := by
  unfold aggregationInOrder
  rw [Source.draft_prompt DraftCall.prompt
    fun s n t => Draft.aggregationOfTree_prompt s n catalog t]
  cases Source.draft Draft.aggregationOfTree source catalog with
  | error e => rfl
  | ok d => simp only [Except.map, finishInOrder, Resolve.callInOrder_prompt]

end Source

theorem Parsed.result_ofDraft {δ α : Type} (resolve : δ → Rounds α) (event : α → Event)
    (source : String) (d : δ) :
    (Parsed.ofDraft resolve event source (.ok d)).result
      = (resolve d).result.map fun root => ⟨root, source⟩ := by
  simp only [Parsed.ofDraft, Rounds.result]
  split <;> rename_i h <;> rw [h] <;> rfl

/-- A draft finished in rounds and in order. -/
theorem Parsed.ofDraft_agree {δ α : Type} {rounds : δ → Rounds α}
    {inOrder : δ → Except ParseError α} (h : ∀ d, Resolve.Agree (rounds d).result (inOrder d))
    (event : α → Event) (source : String) (x : Except QueryError δ) :
    Resolve.Agree (Parsed.ofDraft rounds event source x).result
      (Source.finishInOrder inOrder source x) := by
  cases x with
  | error e => exact .refl _
  | ok d =>
    rw [Parsed.result_ofDraft]
    exact (h d).map _

theorem parseFilter_agree (source : String) (catalog : Catalog) (contexts : List Context) :
    Resolve.Agree (parseFilter source catalog contexts).result
      (Source.filterInOrder source catalog contexts) :=
  Parsed.ofDraft_agree (Resolve.condition_agree contexts) _ _ _

theorem parseAggregation_agree (source : String) (catalog : Catalog) (contexts : List Context) :
    Resolve.Agree (parseAggregation source catalog contexts).result
      (Source.aggregationInOrder source catalog contexts) :=
  Parsed.ofDraft_agree (Resolve.call_agree contexts) _ _ _

/-- **Concurrent resolution agrees with resolution in order.** Under catalogs that differ in delays
only, a source is accepted in one mode under both or under neither, with the same tree; and this is
so exactly if work in order accepts it, again with the same tree. (`toOption` forgets which error
ended a run.) -/
theorem parse_toOption_eq_inOrder (source : String) (contexts : List Context)
    (catalog catalog' : Catalog) (h : catalog.SameAnswers catalog') :
    ((parseFilter source catalog contexts).result.toOption
        = (parseFilter source catalog' contexts).result.toOption ∧
      (parseFilter source catalog contexts).result.toOption
        = (Source.filterInOrder source catalog contexts).toOption) ∧
    ((parseAggregation source catalog contexts).result.toOption
        = (parseAggregation source catalog' contexts).result.toOption ∧
      (parseAggregation source catalog contexts).result.toOption
        = (Source.aggregationInOrder source catalog contexts).toOption) := by
  -- work in order does not look at delays
  have hfilter : Source.filterInOrder source catalog contexts
      = Source.filterInOrder source catalog' contexts := by
    rw [← Source.filterInOrder_prompt, h, Source.filterInOrder_prompt]
  have hcall : Source.aggregationInOrder source catalog contexts
      = Source.aggregationInOrder source catalog' contexts := by
    rw [← Source.aggregationInOrder_prompt, h, Source.aggregationInOrder_prompt]
  have hf := (parseFilter_agree source catalog contexts).toOption_eq
  have hf' := (parseFilter_agree source catalog' contexts).toOption_eq
  have ha := (parseAggregation_agree source catalog contexts).toOption_eq
  have ha' := (parseAggregation_agree source catalog' contexts).toOption_eq
  exact ⟨⟨by rw [hf, hf', hfilter], hf⟩, ⟨by rw [ha, ha', hcall], ha⟩⟩

/-- A function over an index that keeps the literal at a place waiting as long as `delay` says. -/
def Catalog.waiting (delay : Nat → Nat) : Catalog :=
  ⟨[⟨"f", none, [⟨"city", .str, some ⟨"cities", fun place _ =>
    ⟨delay place, .ok (some "Warsaw")⟩⟩⟩]⟩]⟩

/-- The first lookup waits longer than the second under one catalog and not at all under the other;
the source is accepted. -/
theorem parse_waiting_eq_inOrder :
    (Catalog.waiting fun place => 20 - place).SameAnswers (Catalog.waiting fun _ => 0) ∧
    (Source.filterInOrder "f('a') and f('b')" (.waiting fun _ => 0) []).toOption.isSome = true ∧
    (parseFilter "f('a') and f('b')" (.waiting fun place => 20 - place) []).result.toOption
      = (parseFilter "f('a') and f('b')" (.waiting fun _ => 0) []).result.toOption :=
  ⟨rfl, by decide +kernel,
    (parse_toOption_eq_inOrder "f('a') and f('b')" [] (.waiting fun place => 20 - place)
      (.waiting fun _ => 0) rfl).1.1⟩

end CatalogQuery
