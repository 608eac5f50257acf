import CatalogQuery.Proofs.Draft.Pieces
import CatalogQuery.Proofs.Grammar.Enclosed
import CatalogQuery.Proofs.Query.Accepted

/-!
# Places do not matter

Trees that differ in offsets only are narrowed to calls that differ in snippets only
(`Draft.callOf_unplaced`). Snippets are for errors and tell the indexes the place of a literal. So
if the answers of the indexes do not depend on places, the catalog is `Stable`, such calls are
resolved to the same call, or both are refused (`Resolve.callInOrder_unplaced`).
-/

namespace CatalogQuery

open Grammar

/-! ### Arguments without snippets -/

/-- The snippet of nothing. -/
def Snippet.nowhere : Snippet := ⟨"", 0, 0, 0, 0⟩

namespace RawArg

mutual

/-- The argument with all snippets forgotten. -/
def unplaced : RawArg → RawArg
  | .literal l _ => .literal l .nowhere
  | .list items _ => .list (unplacedEach items) .nowhere
  | .name n _ => .name n .nowhere
  | .unsupported _ => .unsupported .nowhere

def unplacedEach : List RawArg → List RawArg
  | [] => []
  | a :: rest => a.unplaced :: unplacedEach rest

end

theorem unplacedEach_eq (as : List RawArg) : unplacedEach as = as.map unplaced := by
  induction as with
  | nil => rfl
  | cons a as ih => rw [unplacedEach, ih, List.map_cons]

mutual

theorem mapPieces_nowhere : ∀ a : RawArg, a.mapPieces (fun _ => .nowhere) = a.unplaced
  | .literal _ _ | .name _ _ | .unsupported _ => rfl
  | .list items _ => by rw [mapPieces, unplaced, mapPiecesEach_nowhere items]

theorem mapPiecesEach_nowhere :
    ∀ as : List RawArg, mapPiecesEach (fun _ => .nowhere) as = unplacedEach as
  | [] => rfl
  | a :: rest => by
    rw [mapPiecesEach, unplacedEach, mapPieces_nowhere a, mapPiecesEach_nowhere rest]

end

end RawArg

/-- The call with all snippets forgotten. -/
def DraftCall.unplaced (c : DraftCall) : DraftCall :=
  { c with arguments := c.arguments.map RawArg.unplaced }

/-! ### Narrowing -/

namespace Draft

theorem body_unplaced (t : ParseTree) : body t.unplaced = body t := by
  unfold body
  rw [ParseTree.children_unplaced]
  cases t.children with
  | nil => rfl
  | cons u us => simp

theorem readString?_unplaced (ts : List ParseTree) :
    readString? (ts.map ParseTree.unplaced) = readString? ts := by
  match ts with
  | [] => rfl
  | [quoted] => rw [List.map_singleton, readString?, readString?, body_unplaced]
  | [mark, quoted] =>
    rw [List.map_cons, List.map_singleton, readString?, readString?, body_unplaced,
      ParseTree.text_unplaced]
  | _ :: _ :: _ :: _ => rfl

theorem literal?_unplaced (t : ParseTree) : literal? t.unplaced = literal? t := by
  unfold literal?
  rw [ParseTree.rule_unplaced, ParseTree.text_unplaced, ParseTree.children_unplaced,
    readString?_unplaced]

/-- Narrowing looks at no offset. -/
theorem keeps_unplaced (t : ParseTree) : Keeps ParseTree.unplaced t where
  rule := t.rule_unplaced
  children := t.children_unplaced
  name _ := t.text_unplaced
  literal := literal?_unplaced t
  sign sign _ _ _ := sign.text_unplaced

/-- **An argument forgets the offsets of its node.** -/
theorem argument_unplaced (r r' : Reading) (t : ParseTree) :
    (argument r t).unplaced = (argument r' t.unplaced).unplaced := by
  rw [← RawArg.mapPieces_nowhere, ← RawArg.mapPieces_nowhere]
  exact (argument_mapPieces (g := ParseTree.unplaced) (fun _ => rfl) (.of_forall keeps_unplaced t)).symm

/-- **When a node stands for a call**: it is a name with a trailer of positional arguments, as many
as the function of that name has parameters. -/
theorem callOf_eq_ok_iff {r : Reading} {around : Surroundings} {t : ParseTree} {c : DraftCall} :
    callOf r around t = .ok c ↔ ∃ callee args, t.children = [callee, args] ∧ callee.rule = .ident ∧
      args.rule = .call ∧ r.catalog.find? (String.ofList callee.text) = some c.function ∧
      args.children.find? (fun a => a.rule == .keywordArg || a.rule == .starArg) = none ∧
      c.arguments = args.children.map (argument r) ∧ c.arguments.length = c.function.arity := by
  constructor
  · intro h
    obtain ⟨callee, args, hchildren, hcallee, hargs, hfind, harguments, hlength⟩ := callOf_ok h
    refine ⟨callee, args, hchildren, hcallee, hargs, hfind, ?_, harguments, hlength⟩
    unfold callOf at h
    rw [hchildren] at h
    dsimp only at h
    rw [if_pos ⟨hcallee, hargs⟩, hfind] at h
    dsimp only at h
    split at h
    · cases h
    · -- nothing was given by keyword or spread
      assumption
  · rintro ⟨callee, args, hchildren, hcallee, hargs, hfind, hplain, harguments, hlength⟩
    obtain ⟨f, as⟩ := c
    obtain rfl : as = args.children.map (argument r) := harguments
    unfold callOf
    rw [hchildren]
    dsimp only
    rw [if_pos ⟨hcallee, hargs⟩, hfind, hplain]
    exact if_pos hlength

/-- **A call forgets the offsets of its node**: a node with the same parts, up to offsets, stands
for the same call, up to snippets. -/
theorem callOf_unplaced {r r' : Reading} {around around' : Surroundings} {t t' : ParseTree}
    {c : DraftCall} (hcatalog : r.catalog = r'.catalog)
    (hparts : t.children.map ParseTree.unplaced = t'.children.map ParseTree.unplaced)
    (h : callOf r around t = .ok c) :
    ∃ c', callOf r' around' t' = .ok c' ∧ c'.unplaced = c.unplaced := by
  obtain ⟨callee, args, hchildren, hcallee, hargs, hfind, hplain, harguments, hlength⟩ :=
    callOf_eq_ok_iff.mp h
  rw [hchildren] at hparts
  obtain ⟨callee', _, hchildren', hcallee', hrest⟩ := List.map_eq_cons_iff.mp hparts.symm
  obtain ⟨args', _, rfl, hargs', hnil⟩ := List.map_eq_cons_iff.mp hrest
  obtain rfl := List.map_eq_nil_iff.mp hnil
  have hitems : args'.children.map ParseTree.unplaced = args.children.map ParseTree.unplaced := by
    rw [← ParseTree.children_unplaced, hargs', ParseTree.children_unplaced]
  -- arguments by keyword or spread are told by the rules of the nodes
  have hplain' : args'.children.find? (fun a => a.rule == .keywordArg || a.rule == .starArg)
      = none := by
    have hrules : args'.children.map ParseTree.rule = args.children.map ParseTree.rule := by
      have h := congrArg (List.map ParseTree.rule) hitems
      rw [List.map_map, List.map_map] at h
      simpa [Function.comp_def] using h
    rw [List.find?_eq_none] at hplain ⊢
    intro a ha
    obtain ⟨b, hb, hrule⟩ := List.mem_map.mp (hrules ▸ List.mem_map_of_mem ha)
    rw [← hrule]
    exact hplain b hb
  have hgiven : (args'.children.map (argument r')).map RawArg.unplaced
      = (args.children.map (argument r)).map RawArg.unplaced := by
    have hsame : ∀ (q : Reading) (us : List ParseTree), (us.map (argument q)).map RawArg.unplaced
        = (us.map ParseTree.unplaced).map fun u => (argument r u).unplaced := by
      intro q us
      rw [List.map_map, List.map_map]
      exact List.map_congr_left fun u _ => argument_unplaced q r u
    rw [hsame, hsame, hitems]
  have hlength' : (args'.children.map (argument r')).length = c.function.arity := by
    have hlen := congrArg List.length hitems
    rw [List.length_map, List.length_map] at hlen
    rw [List.length_map, hlen, ← hlength, harguments, List.length_map]
  refine ⟨⟨c.function, args'.children.map (argument r')⟩,
    callOf_eq_ok_iff.mpr ⟨callee', args', hchildren', ?_, ?_, ?_, hplain', rfl, hlength'⟩, ?_⟩
  · rw [← ParseTree.rule_unplaced, hcallee', ParseTree.rule_unplaced, hcallee]
  · rw [← ParseTree.rule_unplaced, hargs', ParseTree.rule_unplaced, hargs]
  · rw [← hcatalog, ← ParseTree.text_unplaced, hcallee', ParseTree.text_unplaced, hfind]
  · rw [DraftCall.unplaced, DraftCall.unplaced, harguments, hgiven]

end Draft

/-! ### Resolution -/

/-- The answer of an index depends on the text only. -/
def SimilarityIndex.Stable (i : SimilarityIndex) : Prop :=
  ∀ place place' text, (i.lookup place text).answer = (i.lookup place' text).answer

/-- The answers of all indexes of the catalog depend on the text only. -/
def Catalog.Stable (c : Catalog) : Prop :=
  ∀ f ∈ c.functions, ∀ p ∈ f.parameters, ∀ i, p.similarity = some i → i.Stable

namespace Resolve

/-- What agrees goes on to what agrees. -/
theorem Agree.bind_congr {α β : Type} {x y : Except ParseError α} {f g : α → Except ParseError β}
    (h : Agree x y) (hfg : ∀ a, Agree (f a) (g a)) : Agree (x.bind f) (y.bind g) := by
  intro b
  rw [h.bind f b]
  cases y with
  | ok a => exact hfg a b
  | error e => exact Iff.rfl

variable (contexts : List Context)

theorem literalInOrder_unplaced {p : Parameter} (hp : ∀ i, p.similarity = some i → i.Stable)
    (l : Literal) (piece piece' : Snippet) :
    literalInOrder p l piece = literalInOrder p l piece' := by
  unfold literalInOrder
  cases hi : p.similarity with
  | none => rfl
  | some i =>
    cases l.lookupText? with
    | none => rfl
    | some text =>
      dsimp only
      rw [hp i hi piece.start piece'.start text]

theorem context_unplaced (p : Parameter) (name : String) (piece piece' : Snippet) :
    Agree (context contexts p name piece) (context contexts p name piece') := by
  intro v
  unfold context
  split_ifs
  · simp
  · split
    · simp
    · split_ifs
      · rfl
      · simp

mutual

theorem valueInOrder_unplaced {p : Parameter} (hp : ∀ i, p.similarity = some i → i.Stable) :
    ∀ a, Agree (valueInOrder contexts p a) (valueInOrder contexts p a.unplaced)
  | .literal l piece => by
    rw [RawArg.unplaced, valueInOrder, valueInOrder, literalInOrder_unplaced hp l piece]
    exact .refl _
  | .list items _ => by
    rw [RawArg.unplaced, valueInOrder, valueInOrder]
    exact (valuesInOrder_unplaced hp items).map _
  | .name name piece => context_unplaced contexts p name piece _
  | .unsupported piece => by
    intro v
    simp [RawArg.unplaced, valueInOrder]

theorem valuesInOrder_unplaced {p : Parameter} (hp : ∀ i, p.similarity = some i → i.Stable) :
    ∀ as, Agree (valuesInOrder contexts p as) (valuesInOrder contexts p (RawArg.unplacedEach as))
  | [] => .refl _
  | a :: rest => by
    rw [RawArg.unplacedEach, valuesInOrder, valuesInOrder]
    exact (valueInOrder_unplaced hp a).bind_congr fun v => (valuesInOrder_unplaced hp rest).map _

end

theorem checked_unplaced (p : Parameter) (piece piece' : Snippet) (v : Value) :
    Agree (checked p piece v) (checked p piece' v) := by
  intro w
  unfold checked
  split <;> simp

theorem argumentsInOrder_unplaced {ps : List Parameter}
    (hps : ∀ p ∈ ps, ∀ i, p.similarity = some i → i.Stable) (as : List RawArg) :
    Agree (argumentsInOrder contexts ps as)
      (argumentsInOrder contexts ps (as.map RawArg.unplaced)) := by
  induction ps generalizing as with
  | nil => exact .refl _
  | cons p ps ih =>
    obtain ⟨hp, hps⟩ := List.forall_mem_cons.mp hps
    cases as with
    | nil => exact .refl _
    | cons a as =>
      rw [List.map_cons, argumentsInOrder, argumentsInOrder]
      -- the value does not depend on places, and neither does its check
      have hargument : Agree (argumentInOrder contexts p a) (argumentInOrder contexts p a.unplaced) :=
        (valueInOrder_unplaced contexts hp a).bind_congr fun v => checked_unplaced p _ _ v
      exact hargument.bind_congr fun v => (ih hps as).map _

/-- **Places do not matter for stable indexes**: calls that differ in snippets only are resolved to
the same call. -/
theorem callInOrder_unplaced {c : DraftCall}
    (hc : ∀ p ∈ c.function.parameters, ∀ i, p.similarity = some i → i.Stable) :
    Agree (callInOrder contexts c) (callInOrder contexts c.unplaced) :=
  (argumentsInOrder_unplaced contexts hc c.arguments).map _

end Resolve

end CatalogQuery
