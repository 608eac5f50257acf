import CatalogQuery.Proofs.Query.Validation
import CatalogQuery.Proofs.Render.Statements
import CatalogQuery.Proofs.Resolve.InOrder
import CatalogQuery.Proofs.Similarity.Nearest

/-!
# Values that recur

A literal is looked up by its text, the answer takes its place, and what comes out is checked
against the type of the parameter. `literal_recurs_iff` says when the value that is accepted recurs:
written where the literal stood, it is accepted again as the same value.

The second lookup can differ from the first only if its text does. An answer is its own answer
(`Choices.nearest_answer`), and a literal that had no answer is written as it was, unless it is an
integer that was widened: this is looked up by its digits the first time and as a floating-point
number the second time.
-/

namespace CatalogQuery

open Grammar

/-! ### Literals -/

/-- The value that a literal stands for where some texts have answers. -/
def Literal.substituted (closest : String → Option String) (l : Literal) : Value :=
  match l.lookupText?.bind closest with
  | some found => .str found
  | Option.none => l.value

theorem Literal.substituted_of_found {closest : String → Option String} {l : Literal}
    {found : String} (h : l.lookupText?.bind closest = some found) :
    l.substituted closest = .str found := by
  rw [substituted, h]

theorem Literal.substituted_of_missed {closest : String → Option String} {l : Literal}
    (h : l.lookupText?.bind closest = Option.none) : l.substituted closest = l.value := by
  rw [substituted, h]

namespace Resolve

/-- Wherever the text of the value stands as an argument of the parameter, the argument has the
value again. -/
def Recurs (contexts : List Context) (p : Parameter) (w : Value) : Prop :=
  ∀ rest, Closed rest → Matches .spaced (.rule .expr) (w.write ++ rest) rest
    (Found fun t => ∀ r, (argument contexts p (Draft.argument r t)).result = .ok w)

variable {contexts : List Context} {p : Parameter} {index : Choices} {l : Literal} {w : Value}
  {score : List Char → List Char → Double}

theorem argument_literal_iff (hp : p.similarity = some (index.scoredBy score)) {piece : Snippet} :
    (argument contexts p (.literal l piece)).result = .ok w ↔
      (l.substituted (index.nearest score)).validate p.type = .ok w := by
  -- the index answers at once, with a choice or with nothing
  have hliteral : literalInOrder p l piece = .ok (l.substituted (index.nearest score)) := by
    unfold literalInOrder Literal.substituted
    rw [hp]
    cases l.lookupText? with
    | none => rfl
    | some text =>
      dsimp only [Choices.scoredBy, Option.bind_some]
      cases index.nearest score text <;> rfl
  rw [argument_agree, argumentInOrder, valueInOrder, hliteral]
  show checked p piece _ = _ ↔ _
  unfold checked
  cases (l.substituted (index.nearest score)).validate p.type <;> simp

/-- What is read where a literal was written is that literal. -/
theorem recurs_iff (hp : p.similarity = some (index.scoredBy score)) (hw : w.Readable)
    (hl : l.value = w) :
    Recurs contexts p w ↔ (l.substituted (index.nearest score)).validate p.type = .ok w := by
  subst hl
  have hread : ∀ rest, Closed rest → Matches .spaced (.rule .expr) (l.value.write ++ rest) rest
      (Found l.value.Item) := fun rest hrest =>
    Value.expr_of_signed hw hrest (Value.signed_matches hw rest hrest)
  constructor
  · intro h
    -- the text is read in one way only, so that what it says of one tree it says of the literal
    obtain ⟨o, _, hreads, t, rfl, ht⟩ := h [] closed_nil 0
    obtain ⟨o', _, hreads', t', rfl, ht'⟩ := hread [] closed_nil 0
    cases hreads.unique hreads'
    obtain ⟨piece, hpiece⟩ := (ht'.1 ⟨[], [], ⟨[]⟩⟩).eq_literal
    have hresult := ht ⟨[], [], ⟨[]⟩⟩
    rw [hpiece] at hresult
    exact (argument_literal_iff hp).mp hresult
  · intro h rest hrest
    refine (hread rest hrest).imp ?_
    rintro _ ⟨t, rfl, ht⟩
    refine ⟨t, rfl, fun r => ?_⟩
    obtain ⟨piece, hpiece⟩ := (ht.1 r).eq_literal
    rw [hpiece]
    exact (argument_literal_iff hp).mpr h

/-- An answer that is of the type recurs. -/
theorem recurs_answer (hscore : Similarity.IsMeasure score index.choices)
    (hp : p.similarity = some (index.scoredBy score)) {text found : String}
    (hfound : index.nearest score text = some found)
    (hvalid : (Value.str found).validate p.type = .ok (.str found)) :
    Recurs contexts p (.str found) := by
  have hagain : (Literal.str found).lookupText?.bind (index.nearest score) = some found :=
    Choices.nearest_answer hscore hfound
  rw [recurs_iff hp (.str found) (l := .str found) rfl, Literal.substituted_of_found hagain]
  exact hvalid

/-- A number that is of the type recurs exactly if its text has no answer: a text in the place of
the number stays a text. -/
theorem recurs_float_iff (hp : p.similarity = some (index.scoredBy score)) {x : Double}
    (hx : x.isFinite = true) (hvalid : (Value.float x).validate p.type = .ok (.float x)) :
    Recurs contexts p (.float x) ↔ index.nearest score (Value.float x).render = none := by
  rw [recurs_iff hp (.float hx) (l := .float x) rfl]
  have hlookup : (Literal.float x).lookupText?.bind (index.nearest score)
      = index.nearest score (Value.float x).render := rfl
  cases hagain : index.nearest score (Value.float x).render with
  | none =>
    rw [Literal.substituted_of_missed (hlookup.trans hagain)]
    exact iff_of_true hvalid rfl
  | some found =>
    rw [Literal.substituted_of_found (hlookup.trans hagain)]
    -- a text is no number
    refine iff_of_false (fun hstr => ?_) (by simp)
    cases Value.validate_widened hstr

/-- **A value recurs unless it is a widened integer whose text has an answer.** -/
theorem literal_recurs_iff (hscore : Similarity.IsMeasure score index.choices)
    (hp : p.similarity = some (index.scoredBy score)) (hl : l.value.Readable) {piece : Snippet}
    (h : (argument contexts p (.literal l piece)).result = .ok w) :
    Recurs contexts p w ↔ ¬ ∃ n, l = .int n ∧ w = .float (Binary.ofInt n.toInt) ∧
      ∃ found, index.nearest score w.render = some found := by
  have hw := (argument_literal_iff hp).mp h
  cases hfound : l.lookupText?.bind (index.nearest score) with
  | some found =>
    rw [Literal.substituted_of_found hfound] at hw
    cases Value.validate_widened hw
    obtain ⟨text, -, htext⟩ := Option.bind_eq_some_iff.mp hfound
    exact iff_of_true (recurs_answer hscore hp htext hw) (by simp)
  | none =>
    have hvalid := hw
    rw [Literal.substituted_of_missed hfound] at hvalid
    generalize hv : l.value = v at hvalid
    cases Value.validate_widened hvalid with
    | refl =>
      -- the same text is looked up again
      refine iff_of_true ((recurs_iff hp (hv ▸ hl) hv).mpr hw) ?_
      rintro ⟨n, rfl, rfl, -⟩
      cases hv
    | int n =>
      obtain rfl : l = .int n := by
        cases l <;> cases hv
        rfl
      rw [recurs_float_iff hp (Binary.isFinite_ofInt n) (Value.validate_idem hvalid)]
      simp [Option.eq_none_iff_forall_ne_some]
    | list => cases l <;> cases hv

/-- The answer to a misspelling recurs, and so does a widened integer whose text is close to
nothing. -/
theorem literal_recurs_spelling :
    let index : Choices := ⟨"f.a", ["gzip", "New York"], Choices.defaultThreshold⟩
    let p : Parameter := ⟨"a", .union [.float, .str], some index.toIndex⟩
    let piece : Snippet := .of "f(3)".toList "f(3)".toList 2 3
    Similarity.IsMeasure Similarity.jaroWinkler index.choices ∧
      ((argument [] p (.literal (.str "new  yrok") piece)).result = .ok (.str "New York") ∧
        Recurs [] p (.str "New York")) ∧
      ((argument [] p (.literal (.int 3) piece)).result = .ok (.float (Binary.ofInt 3)) ∧
        Recurs [] p (.float (Binary.ofInt 3))) := by
  intro index p piece
  have hscore : Similarity.IsMeasure Similarity.jaroWinkler index.choices :=
    Similarity.jaroWinkler_isMeasure (by decide +kernel)
  have hp : p.similarity = some (index.scoredBy Similarity.jaroWinkler) :=
    congrArg some index.toIndex_eq
  have hcity : (Literal.str "new  yrok").lookupText?.bind (index.nearest Similarity.jaroWinkler)
      = some "New York" := by decide +kernel
  have hdigits : (Literal.int 3).lookupText?.bind (index.nearest Similarity.jaroWinkler) = none := by
    decide +kernel
  have hfloat : index.nearest Similarity.jaroWinkler (Value.float (Binary.ofInt 3)).render = none := by
    decide +kernel
  have hfound : (argument [] p (.literal (.str "new  yrok") piece)).result
      = .ok (.str "New York") := by
    rw [argument_literal_iff hp, Literal.substituted_of_found hcity]
    rfl
  have hwidened : (argument [] p (.literal (.int 3) piece)).result
      = .ok (.float (Binary.ofInt 3)) := by
    rw [argument_literal_iff hp, Literal.substituted_of_missed hdigits]
    rfl
  refine ⟨hscore, ⟨hfound, ?_⟩, hwidened, ?_⟩
  · refine (literal_recurs_iff hscore hp (l := .str "new  yrok") (.str _) hfound).mpr ?_
    -- an answer is not widened
    rintro ⟨_, h, -⟩
    cases h
  · refine (literal_recurs_iff hscore hp (l := .int 3) (.int (by decide)) hwidened).mpr ?_
    -- the text of the widened integer is close to no choice
    rintro ⟨_, -, -, found, h⟩
    cases hfloat.symm.trans h

/-- **A widened integer need not recur**: its digits are far from the choice `3.0`, and its text as
a floating-point number is that choice. -/
theorem not_literal_recurs :
    ¬ ∀ (index : Choices) (contexts : List Context) (p : Parameter) (l : Literal) (piece : Snippet)
      (w : Value), p.similarity = some index.toIndex → l.value.Readable →
      (argument contexts p (.literal l piece)).result = .ok w → Recurs contexts p w := by
  intro hall
  let index : Choices := ⟨"f.a", ["3.0"], Choices.defaultThreshold⟩
  let p : Parameter := ⟨"a", .float, some index.toIndex⟩
  have hp : p.similarity = some (index.scoredBy Similarity.jaroWinkler) :=
    congrArg some index.toIndex_eq
  have hdigits : (Literal.int 3).lookupText?.bind (index.nearest Similarity.jaroWinkler) = none := by
    decide +kernel
  have hfloat : index.nearest Similarity.jaroWinkler (Value.float (Binary.ofInt 3)).render
      = some "3.0" := by decide +kernel
  let piece : Snippet := .of [] [] 0 0
  have hwidened : (argument [] p (.literal (.int 3) piece)).result
      = .ok (.float (Binary.ofInt 3)) := by
    rw [argument_literal_iff hp, Literal.substituted_of_missed hdigits]
    rfl
  -- the widened integer would have to have no answer
  have hrecurs := hall index [] p (.int 3) piece _ rfl (.int (by decide)) hwidened
  cases hfloat.symm.trans ((recurs_float_iff hp (Binary.isFinite_ofInt 3) rfl).mp hrecurs)

end Resolve

end CatalogQuery
