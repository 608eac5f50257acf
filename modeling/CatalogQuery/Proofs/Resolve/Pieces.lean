import CatalogQuery.Proofs.Draft.Pieces
import CatalogQuery.Proofs.Resolve.InOrder
import CatalogQuery.Resolve.Basic

/-!
# Resolution and snippets

What resolution does with a draft depends on the snippets in one way only: an index is told where a
literal begins. Apart from that, snippets are passed on to errors. So resolving a draft after a map
of its snippets that keeps where they begin is resolving the draft and then changing the errors: the
same rounds, the same events and the same values (`Resolve.condition_mapPieces`,
`Resolve.call_mapPieces`).
-/

namespace CatalogQuery

/-- The error with `f` applied to its snippets. -/
def ParseError.mapPieces (f : Snippet → Snippet) : ParseError → ParseError
  | .query e => .query (e.mapPieces f)
  | .similarity e => .similarity e

/-! ### Rounds with other errors -/

namespace Rounds

variable {α β : Type} (k : ParseError → ParseError)

/-- The same work with `k` applied to its error. -/
def mapError : Rounds α → Rounds α
  | .done log result => .done log (result.mapError k)
  | .wait log next => .wait log next.mapError

theorem mapError_after (log : List Event) (t : Rounds α) :
    (t.after log).mapError k = (t.mapError k).after log := by
  cases t <;> rfl

theorem mapError_delayed (n : Nat) (t : Rounds α) :
    (t.delayed n).mapError k = (t.mapError k).delayed n := by
  induction n with
  | zero => rfl
  | succ n ih => rw [delayed, mapError, ih, delayed]

/-- Only the errors of the work before a check, and of the check, are changed. -/
theorem mapError_check (f : α → Except ParseError β) (t : Rounds α) :
    (t.check f).mapError k = (t.mapError k).check fun a => (f a).mapError k := by
  induction t with
  | done log result => cases result <;> rfl
  | wait log next ih => rw [check, mapError, ih, mapError, check]

theorem mapError_map (f : α → β) (t : Rounds α) :
    (t.map f).mapError k = (t.mapError k).map f :=
  mapError_check k _ t

theorem mapError_zip (s : Rounds α) (t : Rounds β) :
    (s.zip t).mapError k = (s.mapError k).zip (t.mapError k) := by
  induction s generalizing t with
  | done log result =>
    cases result with
    | ok a =>
      show ((t.map (a, ·)).after log).mapError k = ((t.mapError k).map (a, ·)).after log
      -- the result of the first task waits for the second
      rw [mapError_after, mapError_map]
    | error e => rfl
  | wait log next ih =>
    cases t with
    | done log' result =>
      cases result with
      | ok b =>
        show Rounds.wait _ ((next.map (·, b)).mapError k) = .wait _ ((next.mapError k).map (·, b))
        rw [mapError_map]
      | error e => rfl
    | wait log' next' =>
      show Rounds.wait _ ((next.zip next').mapError k) = .wait _ ((next.mapError k).zip _)
      -- both go on with their next round
      rw [ih]

theorem mapError_all (ts : List (Rounds α)) :
    (all ts).mapError k = all (ts.map (mapError k)) := by
  induction ts with
  | nil => rfl
  | cons t ts ih => rw [all, mapError_map, mapError_zip, ih, List.map_cons, all]

theorem result_mapError (t : Rounds α) : (t.mapError k).result = t.result.mapError k := by
  induction t with
  | done log result => rfl
  | wait log next ih => rw [mapError, result_wait, ih, result_wait]

end Rounds

/-! ### Drafts with other snippets -/

namespace Resolve

variable {f : Snippet → Snippet} (contexts : List Context) (p : Parameter)

theorem context_mapPieces (name : String) (piece : Snippet) :
    context contexts p name (f piece)
      = (context contexts p name piece).mapError (ParseError.mapPieces f) := by
  unfold context
  split_ifs
  · rfl
  · split
    · rfl
    · split_ifs
      · rfl
      · rfl

theorem checked_mapPieces (piece : Snippet) (v : Value) :
    checked p (f piece) v = (checked p piece v).mapError (ParseError.mapPieces f) := by
  unfold checked
  split
  · rfl
  · rfl

/-- A literal is looked up at the same place. -/
theorem literal_mapPieces (hf : ∀ s, (f s).start = s.start) (l : Literal)
    (piece : Snippet) :
    literal p l (f piece) = (literal p l piece).mapError (ParseError.mapPieces f) := by
  unfold literal
  split
  · rename_i index text _ _
    rw [hf, Rounds.mapError_after, Rounds.mapError_delayed]
    -- an error of the index shows no piece of the source
    have hanswered : ∀ reply, (answered p index.name text l.value reply).mapError
        (ParseError.mapPieces f) = answered p index.name text l.value reply := fun reply => by
      match reply with
      | .error _ | .ok none | .ok (some _) => rfl
    rw [hanswered]
  · rfl

mutual

theorem value_mapPieces (hf : ∀ s, (f s).start = s.start) : ∀ a : RawArg,
    value contexts p (a.mapPieces f) = (value contexts p a).mapError (ParseError.mapPieces f)
  | .literal l piece => literal_mapPieces p hf l piece
  | .list items _ => by
    rw [RawArg.mapPieces, value, value, Rounds.mapError_map, Rounds.mapError_all,
      values_mapPieces hf items]
  | .name name piece => by
    rw [RawArg.mapPieces, value, value, context_mapPieces]
    rfl
  | .unsupported _ => rfl

theorem values_mapPieces (hf : ∀ s, (f s).start = s.start) : ∀ as : List RawArg,
    values contexts p (RawArg.mapPiecesEach f as)
      = (values contexts p as).map (Rounds.mapError (ParseError.mapPieces f))
  | [] => rfl
  | a :: rest => by
    rw [RawArg.mapPiecesEach, values, values, value_mapPieces hf a, values_mapPieces hf rest,
      List.map_cons]

end

theorem argument_mapPieces (hf : ∀ s, (f s).start = s.start) (a : RawArg) :
    argument contexts p (a.mapPieces f)
      = (argument contexts p a).mapError (ParseError.mapPieces f) := by
  unfold argument
  rw [value_mapPieces contexts p hf, RawArg.snippet_mapPieces, Rounds.mapError_check]
  congr 1
  funext v
  exact checked_mapPieces p _ v

/-- **A call is resolved in the same way**, but for the snippets of its error. -/
theorem call_mapPieces (hf : ∀ s, (f s).start = s.start) (c : DraftCall) :
    call contexts (c.mapPieces f) = (call contexts c).mapError (ParseError.mapPieces f) := by
  -- argument by argument
  have harguments : ∀ (ps : List Parameter) (as : List RawArg),
      List.zipWith (argument contexts) ps (as.map (RawArg.mapPieces f))
        = (List.zipWith (argument contexts) ps as).map
          (Rounds.mapError (ParseError.mapPieces f)) := fun ps as => by
    rw [List.zipWith_map_right, List.map_zipWith]
    congr 1
    funext p a
    exact argument_mapPieces contexts p hf a
  unfold call
  rw [Rounds.mapError_map, Rounds.mapError_all, ← harguments]
  rfl

mutual

/-- **A condition is resolved in the same way**, but for the snippets of its error. -/
theorem condition_mapPieces (hf : ∀ s, (f s).start = s.start) : ∀ d : Draft,
    condition contexts (d.mapPieces f) = (condition contexts d).mapError (ParseError.mapPieces f)
  | .all ds => by
    rw [Draft.mapPieces, condition, condition, Rounds.mapError_map, Rounds.mapError_all,
      conditions_mapPieces hf ds]
  | .any ds => by
    rw [Draft.mapPieces, condition, condition, Rounds.mapError_map, Rounds.mapError_all,
      conditions_mapPieces hf ds]
  | .not d => by rw [Draft.mapPieces, condition, condition, Rounds.mapError_map,
      condition_mapPieces hf d]
  | .call c => by
    rw [Draft.mapPieces, condition, condition, Rounds.mapError_map, call_mapPieces contexts hf]

theorem conditions_mapPieces (hf : ∀ s, (f s).start = s.start) : ∀ ds : List Draft,
    conditions contexts (Draft.mapPiecesEach f ds)
      = (conditions contexts ds).map (Rounds.mapError (ParseError.mapPieces f))
  | [] => rfl
  | d :: rest => by
    rw [Draft.mapPiecesEach, conditions, conditions, condition_mapPieces hf d,
      conditions_mapPieces hf rest, List.map_cons]

end

end Resolve

end CatalogQuery
