import CatalogQuery.Proofs.Draft.Narrow
import CatalogQuery.Proofs.Grammar.Layers
import CatalogQuery.Resolve.Basic

/-!
# Nodes that show values

A node shows a value if narrowing makes of it an argument that denotes the value, whatever is read
beside it (`Value.ShownBy`). Layers pass this on, and the nodes of literals, signs, names and
brackets show the values that are written as they stand there.
-/

namespace CatalogQuery

open Grammar

/-- The value of an argument if its names stand for the contexts of these names. -/
inductive RawArg.Denotes : RawArg → Value → Prop where
  | literal (l : Literal) (piece : Snippet) : Denotes (.literal l piece) l.value
  | list {items : List RawArg} {vs : List Value} (piece : Snippet)
      (h : List.Forall₂ Denotes items vs) : Denotes (.list items piece) (.list vs)
  | name (c : Context) (piece : Snippet) : Denotes (.name c.name piece) (.context c)

/-- An argument that denotes what a literal denotes is that literal. -/
theorem RawArg.Denotes.eq_literal {a : RawArg} {l : Literal} (h : a.Denotes l.value) :
    ∃ piece, a = .literal l piece := by
  generalize hv : l.value = v at h
  cases h with
  | literal l' piece =>
    refine ⟨piece, ?_⟩
    cases l <;> cases l' <;> cases hv <;> rfl
  | list => cases l <;> cases hv
  | name => cases l <;> cases hv

/-- Whatever the source is, narrowing makes of the node an argument that denotes the value. -/
def Value.ShownBy (v : Value) (t : ParseTree) : Prop :=
  ∀ r, (Draft.argument r t).Denotes v

namespace Draft

theorem argument_layer {r : Reading} {rule : Rule} {b e : Nat} {text : List Char} {t : ParseTree}
    (hrule : isLayer rule = true) : argument r (.node rule b e text [t]) = argument r t := by
  rw [argument, if_pos hrule]

theorem layered_shownBy (v : Value) : Layered v.ShownBy := by
  intro rule b e text t hrule ht r
  rw [argument_layer hrule]
  exact ht r

/-! ### Words -/

/-- A literal is kept as it is. -/
theorem argument_of_literal? {r : Reading} {t : ParseTree} {l : Literal}
    (h : literal? t = some l) : argument r t = .literal l (snippet r t) := by
  obtain ⟨rule, b, e, text, ts⟩ := t
  -- only the leaves of the grammar have a value
  have hrule : isLayer rule = false ∧ rule ≠ .list ∧ rule ≠ .ident ∧ rule ≠ .group ∧
      rule ≠ .signed := by
    cases rule <;> first | decide | cases h
  obtain ⟨hlayer, hlist, hident, hgroup, hsigned⟩ := hrule
  unfold argument
  split
  · rename_i heq
    cases heq
    dsimp only
    rw [hlayer, if_neg (by simp), if_neg hlist, h]
    rfl
  · rename_i heq
    cases heq
    exact absurd rfl hsigned
  · rename_i heq
    cases heq
    dsimp only
    rw [if_neg hident, if_neg (by simp [hgroup, hlist]), h]
    rfl

theorem shownBy_of_literal? {t : ParseTree} {l : Literal} (h : literal? t = some l) :
    l.value.ShownBy t := by
  intro r
  rw [argument_of_literal? h]
  exact .literal l _

theorem shownBy_context (c : Context) {b e : Nat} :
    (Value.context c).ShownBy (.node .ident b e c.name.toList []) := by
  intro r
  have h : argument r (.node .ident b e c.name.toList [])
      = .name c.name (snippet r (.node .ident b e c.name.toList [])) := by
    simp [argument]
  rw [h]
  exact .name c _

/-! ### Numbers -/

theorem withoutUnderscores_eq {cs : List Char} (h : ∀ c ∈ cs, c ≠ '_') :
    withoutUnderscores cs = cs := by
  rw [withoutUnderscores, List.filter_eq_self]
  intro c hc
  simpa using h c hc

theorem ne_underscore_of_isDigit {c : Char} (h : c.isDigit = true) : c ≠ '_' := by
  rintro rfl
  cases h

/-- The digits of an integer that is not negative are read as the integer. -/
theorem readInt?_toDigits {n : Int64} (hn : 0 ≤ n.toInt) :
    readInt? (Nat.toDigits 10 n.toInt.natAbs) = some n := by
  have hdigits : withoutUnderscores (Nat.toDigits 10 n.toInt.natAbs) = _ :=
    withoutUnderscores_eq fun c hc => ne_underscore_of_isDigit (isDigit_toDigits _ c hc)
  have hlt : n.toInt.natAbs < 2 ^ 63 := by
    have := n.toInt_lt
    omega
  rw [readInt?, hdigits, numeral_toDigits, if_pos hlt, Int.natAbs_of_nonneg hn, Int64.ofInt_toInt]

theorem shownBy_int {n : Int64} (hn : 0 ≤ n.toInt) {b e : Nat} :
    (Value.int n).ShownBy (.node .int b e (Nat.toDigits 10 n.toInt.natAbs) []) :=
  shownBy_of_literal? (l := .int n) (congrArg (Option.map Literal.int) (readInt?_toDigits hn))

/-- No character of a numeral is an underscore. -/
theorem ne_underscore_of_numeral {n : Numeral} (hn : n.WellFormed) : ∀ c ∈ n.write, c ≠ '_' := by
  have hall : ∀ c ∈ numeric, c ≠ '_' := by decide
  exact fun c hc => hall c (Numeral.mem_numeric hn c hc)

/-- The size of a finite number is read as the number without its sign. -/
theorem readFloat?_writeSize {x : Double} (hx : x.isFinite = true) :
    ∃ n : Numeral, n.WellFormed ∧ n.write = DecimalStyle.writeSize .rendered x ∧
      readFloat? n.write = some ⟨false, x.rank⟩ := by
  have hstyle : DecimalStyle.rendered.plus = false := rfl
  obtain ⟨n, hn, hwrite, hnearest⟩ := DecimalStyle.writeSize_spec hstyle hx
  refine ⟨n, hn, hwrite, ?_⟩
  have hunderscore := withoutUnderscores_eq (ne_underscore_of_numeral hn)
  have hfinite : (⟨false, x.rank⟩ : Double).isFinite = true := hx
  rw [readFloat?, hunderscore, Numeral.read?_write hn]
  dsimp only
  rw [hnearest, if_pos hfinite]

/-- A minus sign before a node that shows a number. -/
theorem shownBy_neg {l l' : Literal} {b e b' e' : Nat} {text : List Char} {t : ParseTree}
    (ht : l.value.ShownBy t) (hl : applySign? ['-'] l = some l') :
    l'.value.ShownBy (.node .signed b e text [.node .sign b' e' ['-'] [], t]) := by
  intro r
  obtain ⟨piece, hpiece⟩ := (ht r).eq_literal
  rw [argument, hpiece]
  show (literalOr _ (applySign? ['-'] l)).Denotes l'.value
  rw [hl]
  exact .literal l' _

/-! ### Strings and lists -/

theorem shownBy_string (s : String) {b e b' e' b'' e'' : Nat} {text text' : List Char} :
    (Value.str s).ShownBy (.node .string b e text [.node .singleQuoted b' e' text'
      [.node .singleBody b'' e'' (s.toList.flatMap Value.escape) []]]) := by
  refine shownBy_of_literal? (l := .str s) ?_
  have hbody : readString? [.node .singleQuoted b' e' text'
      [.node .singleBody b'' e'' (s.toList.flatMap Value.escape) []]] = some s.toList :=
    unescape_escape s.toList
  refine (congrArg (Option.map fun cs => Literal.str (String.ofList cs)) hbody).trans ?_
  rw [Option.map_some, String.ofList_toList]

/-- The items of brackets show the items of the list. -/
theorem shownBy_list {vs : List Value} {ts : List ParseTree} {b e : Nat} {text : List Char}
    (hrules : ∀ t ∈ ts, t.rule = .expr) (h : List.Forall₂ Value.ShownBy vs ts) :
    (Value.list vs).ShownBy (.node .list b e text ts) := by
  intro r
  -- commas are left out of the children, and there are none
  have hcomma : ts.filter (·.rule ≠ .comma) = ts := by
    rw [List.filter_eq_self]
    intro t ht
    simp [hrules t ht]
  have hplain : ts.any (·.rule == .comprehension) = false := by
    rw [List.any_eq_false]
    intro t ht
    simp [hrules t ht]
  have hitems : argument r (.node .list b e text ts)
      = .list (ts.map (argument r)) (snippet r (.node .list b e text ts)) := by
    rw [← hcomma, ← arguments_eq, hcomma]
    unfold argument
    split
    · rename_i heq
      cases heq
      rfl
    · rename_i heq
      cases heq
    · rename_i heq
      cases heq
      dsimp only
      rw [if_neg (by decide), if_pos (by simp [hplain])]
  rw [hitems]
  refine .list _ (List.forall₂_map_left_iff.mpr (h.flip.imp fun t v ht => ht r))

end Draft

end CatalogQuery
