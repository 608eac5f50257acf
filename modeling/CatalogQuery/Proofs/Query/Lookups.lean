import CatalogQuery.Parse
import CatalogQuery.Proofs.Resolve.Lookups

/-!
# The lookups of a source

`Source.lookups` lists the lookups that a source asks for, from left to right: one for each literal
other than `None`, however deep in lists, in an argument of a call whose parameter has an index. It
is read off the parse tree, so it is there also if the source is refused.

`parse_startsInOrder`: whatever the indexes answer and however long they take, reading a source
starts the lookups of this list from the left, each once. It starts all of them if the source is
accepted, and none if narrowing refuses the source, even where the refusal stands behind literals.
-/

namespace CatalogQuery

open Grammar

/-- The lookups that were started, in order. -/
def Parsed.lookups {α : Type} (p : Parsed α) : List (String × String) := Event.lookups p.events

/-! ### Lookups of parse trees -/

namespace Grammar.ParseTree

/-- The function of the catalog that a node calls, and the nodes of the arguments. -/
def called? (catalog : Catalog) (rule : Rule) : List ParseTree → Option (Function × List ParseTree)
  | [callee, args] =>
    if rule = .primary ∧ callee.rule = .ident ∧ args.rule = .call then
      (catalog.find? (String.ofList callee.text)).map fun f => (f, args.children)
    else none
  | _ => none

mutual

/-- The lookups that the calls in a tree ask for, from left to right. -/
def lookups (r : Reading) : ParseTree → List (String × String)
  | .node rule _ _ _ ts =>
    match called? r.catalog rule ts with
    | some (f, args) => RawArg.lookupsOfCall f.parameters (args.map (Draft.argument r))
    | none => lookupsOfEach r ts

def lookupsOfEach (r : Reading) : List ParseTree → List (String × String)
  | [] => []
  | t :: rest => t.lookups r ++ lookupsOfEach r rest

end

theorem lookupsOfEach_eq (r : Reading) (ts : List ParseTree) :
    lookupsOfEach r ts = ts.flatMap (lookups r) := by
  induction ts with
  | nil => rfl
  | cons t ts ih => rw [lookupsOfEach, ih, List.flatMap_cons]

theorem called?_of_ne {catalog : Catalog} {rule : Rule} (hrule : rule ≠ .primary)
    (ts : List ParseTree) : called? catalog rule ts = none := by
  unfold called?
  split
  · rw [if_neg fun h => hrule h.1]
  · rfl

/-- A node that is no call asks for what its parts ask for. -/
theorem lookups_node {r : Reading} {rule : Rule} (hrule : rule ≠ .primary) (b e : Nat)
    (text : List Char) (ts : List ParseTree) :
    (node rule b e text ts).lookups r = ts.flatMap (lookups r) := by
  rw [lookups, called?_of_ne hrule, lookupsOfEach_eq]

theorem lookups_single (r : Reading) (rule : Rule) (b e : Nat) (text : List Char)
    (child : ParseTree) : (node rule b e text [child]).lookups r = child.lookups r := by
  rw [lookups]
  show lookupsOfEach r [child] = child.lookups r
  rw [lookupsOfEach, lookupsOfEach, List.append_nil]

/-- Marks ask for nothing. -/
theorem Grown.lookups_of_isMark {t : ParseTree} (h : t.Grown) (r : Reading)
    (ht : Branches.isMark t.rule = true) : t.lookups r = [] := by
  obtain ⟨rule, b, e, text, ts⟩ := t
  obtain rfl := h.branches.of_isMark ht
  rw [lookups]
  rfl

end Grammar.ParseTree

/-- The lookups that a source asks for, from left to right. -/
def Source.lookups (source : String) (catalog : Catalog) : List (String × String) :=
  let normal := normalizeChars source.toList
  match Grammar.parse normal with
  | .ok tree => tree.lookups ⟨source.toList, normal, catalog⟩
  | .error _ => []

/-! ### Narrowing keeps the lookups -/

namespace Draft

variable {r : Reading}

/-- A call asks for the lookups of its node. -/
theorem callOf_lookups {around : Surroundings} {t : ParseTree} {c : DraftCall}
    (ht : t.rule = .primary) (h : callOf r around t = .ok c) : t.lookups r = c.lookups := by
  obtain ⟨callee, args, hchildren, hcallee, hargs, hfind, harguments, -⟩ := callOf_ok h
  obtain ⟨rule, b, e, text, ts⟩ := t
  cases ht
  cases hchildren
  have hcalled : ParseTree.called? r.catalog .primary [callee, args]
      = some (c.function, args.children) := by
    rw [ParseTree.called?, if_pos ⟨rfl, hcallee, hargs⟩, hfind]
    rfl
  rw [ParseTree.lookups, hcalled, DraftCall.lookups, harguments]

/-- The operands of a chain ask for the lookups of its nodes; the words between them for none. -/
theorem operands_lookups {rule : Rule} {ts : List ParseTree} {ds : List Draft}
    (hmarks : ∀ t ∈ ts, t.rule ≠ rule → t.lookups r = [])
    (hkept : ∀ t ∈ ts, ∀ d, ofTree r .chain t = .ok d →
      t.lookups r = d.calls.flatMap DraftCall.lookups)
    (h : operands r rule ts = .ok ds) :
    ts.flatMap (ParseTree.lookups r) = (callsOfEach ds).flatMap DraftCall.lookups := by
  induction ts generalizing ds with
  | nil =>
    cases h
    rfl
  | cons t ts ih =>
    obtain ⟨hmark, hmarks⟩ := List.forall_mem_cons.mp hmarks
    obtain ⟨hkept, hkepts⟩ := List.forall_mem_cons.mp hkept
    rw [operands] at h
    rw [List.flatMap_cons]
    -- an operand asks for its own lookups, a word for none
    by_cases hrule : t.rule = rule
    · rw [if_pos hrule] at h
      split at h
      · rename_i d hd
        obtain ⟨ds', hds', rfl⟩ := map_eq_ok h
        rw [hkept d hd, ih hmarks hkepts hds', callsOfEach, List.flatMap_append]
      · cases h
    · rw [if_neg hrule] at h
      rw [hmark hrule, List.nil_append]
      exact ih hmarks hkepts h

/-- **A condition asks for the lookups of its node.** -/
theorem ofTree_lookups {t : ParseTree} (ht : t.Grown) : ∀ around d,
    ofTree r around t = .ok d → t.lookups r = d.calls.flatMap DraftCall.lookups := by
  refine ParseTree.Grown.induct ?_ ht
  intro rule b e text ts hgrown ih around d h
  have hts := hgrown.branches
  -- the nodes of a chain that are no operands are the words between them
  have hwords : ∀ {operand operator : Rule}, Alternates operand operator ts →
      ParseTree.Branches.isMark operator = true →
      ∀ t ∈ ts, t.rule ≠ operand → t.lookups r = [] := by
    intro operand operator halt hmark t ht hrule
    apply (hts.grown t ht).lookups_of_isMark
    rw [(halt.rule_eq t ht).resolve_left hrule]
    exact hmark
  cases ofTree_cases hts h with
  | @layer child _ hchild hrule h' =>
    subst hchild
    rw [ParseTree.lookups_single]
    exact ih child (by simp) around d h'
  | @not word operand d hchildren hrule hword h' =>
    subst hchildren hrule
    have hnothing := (hts.grown word (by simp)).lookups_of_isMark r (by rw [hword]; rfl)
    rw [ParseTree.lookups_node (by decide), List.flatMap_cons, hnothing, List.nil_append,
      List.flatMap_singleton]
    exact ih operand (by simp) .negation d h'
  | any halt hmany hrule h' =>
    subst hrule
    rw [ParseTree.lookups_node (by decide)]
    exact operands_lookups (hwords halt rfl) (fun t ht => ih t ht .chain) h'
  | all halt hmany hrule h' =>
    subst hrule
    rw [ParseTree.lookups_node (by decide)]
    exact operands_lookups (hwords halt rfl) (fun t ht => ih t ht .chain) h'
  | call hrule h' =>
    rw [calls, List.flatMap_singleton]
    exact callOf_lookups hrule h'

theorem aggregationOfTree_lookups {t : ParseTree} {c : DraftCall} (ht : t.Grown)
    (h : aggregationOfTree r t = .ok c) : t.lookups r = c.lookups := by
  revert h
  refine ParseTree.Grown.induct ?_ ht
  intro rule b e text ts hgrown ih h
  rcases aggregationOfTree_cases h with ⟨child, hchild, -, h'⟩ | ⟨hrule, h'⟩
  · subst hchild
    rw [ParseTree.lookups_single]
    exact ih child (by simp) h'
  · exact callOf_lookups hrule h'

end Draft

/-! ### Sources -/

/-- **The only statement of a source** asks for all lookups of the source. -/
theorem Source.statement_lookups {source : String} {t : ParseTree}
    (h : Source.statement source (normalizeChars source.toList) = .ok t) (catalog : Catalog) :
    Source.lookups source catalog
      = t.lookups ⟨source.toList, normalizeChars source.toList, catalog⟩ := by
  obtain ⟨tree, hparse, hfilter, -⟩ := Source.statement_ok h
  have hgrown := parse_grown hparse
  have hrule := parse_rule hparse
  obtain ⟨rule, b, e, text, ts⟩ := tree
  cases hrule
  -- the end of the input asks for nothing
  have hend : ∀ u ∈ ts, (u.rule != .endOfInput) = false →
      u.lookups ⟨source.toList, normalizeChars source.toList, catalog⟩ = [] := by
    intro u hu hrule
    have hrule : u.rule = .endOfInput := by simpa using hrule
    exact (hgrown.branches.grown u hu).lookups_of_isMark _ (by rw [hrule]; rfl)
  have honly := flatMap_filter hend
  have hfilter : ts.filter (fun u => u.rule != .endOfInput) = [t] := hfilter
  rw [hfilter, List.flatMap_singleton] at honly
  unfold Source.lookups
  dsimp only
  rw [hparse]
  show (ParseTree.node .program b e text ts).lookups _ = _
  rw [ParseTree.lookups_node (by decide), honly]

/-- How reading starts the lookups that a source asks for. -/
structure Parsed.StartsInOrder {α : Type} (lookups : List (String × String)) (p : Parsed α) :
    Prop where
  /-- From the left, each once. -/
  started : p.lookups <+: lookups
  /-- All of them for an accepted source. -/
  all : ∀ q, p.result = .ok q → p.lookups = lookups
  /-- None for a source whose text or shape is refused. -/
  none : ∀ e, p.result = .error (.query e) → e.isStructural = true → p.lookups = []

/-- Reading starts the lookups of the draft, as resolution does. -/
theorem Parsed.ofDraft_startsInOrder {δ α : Type} {resolve : δ → Rounds α} {event : α → Event}
    {source : String} {x : Except QueryError δ} {lookups : List (String × String)}
    (hevent : ∀ a, (event a).lookup? = none) (hx : ∀ d, x = .ok d → (resolve d).Orderly lookups) :
    (Parsed.ofDraft resolve event source x).StartsInOrder lookups := by
  cases x with
  | error e =>
    -- a refused source has no draft, and nothing is resolved
    refine ⟨List.nil_prefix, fun q hq => ?_, fun _ _ _ => rfl⟩
    cases hq
  | ok d =>
    obtain ⟨hstarted, hall, herror⟩ := (hx d rfl).run
    unfold Parsed.ofDraft
    dsimp only
    split
    · rename_i log root heq
      rw [heq] at hall
      have hlookups : Event.lookups (log ++ [event root]) = lookups := by
        rw [Event.lookups_append, hall root rfl, Event.lookups,
          List.filterMap_cons_none (hevent root), List.filterMap_nil, List.append_nil]
      refine ⟨?_, fun _ _ => hlookups, fun e he => ?_⟩
      · exact (congrArg (· <+: lookups) hlookups).mpr (List.prefix_refl _)
      · cases he
    · rename_i log e heq
      rw [heq] at hstarted herror
      refine ⟨hstarted, fun q hq => ?_, fun e' he' hstructural => ?_⟩
      · cases hq
      · cases he'
        exact absurd hstructural (by simp [show e'.isStructural = false from herror _ rfl])

/-- **Lookups are started in order, once, and not before narrowing is done.** This is so in both
modes, for every source and for all answers and delays of the indexes. -/
theorem parse_startsInOrder (source : String) (catalog : Catalog) (contexts : List Context) :
    (parseFilter source catalog contexts).StartsInOrder (Source.lookups source catalog) ∧
      (parseAggregation source catalog contexts).StartsInOrder
        (Source.lookups source catalog) := by
  constructor
  · apply Parsed.ofDraft_startsInOrder (fun _ => rfl)
    intro d hd
    obtain ⟨t, ht, hd⟩ := Source.draft_eq_ok_iff.mp hd
    obtain ⟨-, -, hgrown, -⟩ := Source.statement_atoms ht
    rw [Source.statement_lookups ht, Draft.ofTree_lookups hgrown _ _ hd]
    exact Resolve.condition_orderly contexts d
  · apply Parsed.ofDraft_startsInOrder (fun _ => rfl)
    intro c hc
    obtain ⟨t, ht, hc⟩ := Source.draft_eq_ok_iff.mp hc
    obtain ⟨-, -, hgrown, -⟩ := Source.statement_atoms ht
    rw [Source.statement_lookups ht, Draft.aggregationOfTree_lookups hgrown hc]
    exact Resolve.call_orderly contexts c

/-- A function of texts with an index that answers late. -/
def Catalog.looked : Catalog :=
  ⟨[⟨"f", none, [⟨"cities", .list .str,
    some ⟨"cities", fun place _ => ⟨place, .ok none⟩⟩⟩]⟩]⟩

/-- Lookups that are pending do not hold up those behind them: an accepted source starts all three,
though the first is answered last. A source that is refused while one is pending has started that one
and not the one behind the refused name. -/
theorem parse_startsInOrder_pending :
    let accepted := parseFilter "f(['a', 'b']) and f(['c'])" .looked []
    let refused := parseFilter "f(['a', here]) and f(['b'])" .looked []
    accepted.StartsInOrder [("cities", "a"), ("cities", "b"), ("cities", "c")] ∧
      accepted.result.toBool = true ∧
      accepted.lookups = [("cities", "a"), ("cities", "b"), ("cities", "c")] ∧
      refused.StartsInOrder [("cities", "a"), ("cities", "b")] ∧
      refused.result.toBool = false ∧ refused.lookups = [("cities", "a")] := by
  intro accepted refused
  have hasked : Source.lookups "f(['a', 'b']) and f(['c'])" .looked
      = [("cities", "a"), ("cities", "b"), ("cities", "c")] := by decide +kernel
  have hasked' : Source.lookups "f(['a', here]) and f(['b'])" .looked
      = [("cities", "a"), ("cities", "b")] := by decide +kernel
  have haccepted := (parse_startsInOrder "f(['a', 'b']) and f(['c'])" .looked []).1
  have hrefused := (parse_startsInOrder "f(['a', here]) and f(['b'])" .looked []).1
  rw [hasked] at haccepted
  rw [hasked'] at hrefused
  have hok : accepted.result.toBool = true := by decide +kernel
  -- an accepted source has started all lookups
  refine ⟨haccepted, hok, ?_, hrefused, by decide +kernel, by decide +kernel⟩
  cases hresult : accepted.result with
  | ok q => exact haccepted.all q hresult
  | error e =>
    rw [hresult] at hok
    cases hok

/-- The unknown function stands behind a literal that would be looked up. -/
example : Source.lookups "f([None, 'a', [2]]) and g()" .looked = [("cities", "a"), ("cities", "2")] ∧
    (parseFilter "f([None, 'a', [2]]) and g()" .looked []).lookups = [] := by decide +kernel

end CatalogQuery
