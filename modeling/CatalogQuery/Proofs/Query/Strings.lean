import CatalogQuery.Proofs.Grammar.InStep
import CatalogQuery.Proofs.Query.Faithful

/-!
# Strings are as the user wrote them

Normalization and the grammar both decide what is quoted. They agree where comments end with their
lines, so that a string literal of the normal form is the one that the source has at its place
(`strings_as_written`): the texts of a query are the bodies of the literals, their escapes replaced.

After a lone carriage return in a comment they do not. To normalization what follows is still
comment, and a line break inside the next literal ends it, so that the rest of the literal is taken
for code (`not_strings_as_written`).
-/

namespace CatalogQuery

open Grammar

/-! ### String literals -/

/-- The characters that the text of a string literal denotes: after `r` what stands between the
marks, and otherwise the same with its escapes replaced. -/
inductive StringLiteral : List Char → List Char → Prop where
  | plain {letter body cs : List Char} {mark : Char}
      (hletter : letter.map Char.toLower ∈ [[], ['u']]) (hmark : mark ∈ quoteMarks)
      (hbody : QuotedText mark body) (h : Escape.unescape body = some cs) :
      StringLiteral (letter ++ mark :: (body ++ [mark])) cs
  | raw {letter mark : Char} {body : List Char} (hletter : letter.toLower = 'r')
      (hmark : mark ∈ quoteMarks) (hbody : QuotedText mark body) :
      StringLiteral (letter :: mark :: (body ++ [mark])) body

theorem Draft.body_eq {t : ParseTree} {w : List Char} (h : t.children.map ParseTree.text = [w]) :
    body t = w := by
  rw [body, ← List.head?_map, h]
  rfl

/-- What a string literal is read as is what its text denotes. -/
theorem StringLiteral.of_readString? {w cs : List Char} {ts : List ParseTree} (hw : Quotation w ts)
    (h : Draft.readString? ts = some cs) : StringLiteral w cs := by
  cases hw with
  | bare hmark hbody ht =>
    rw [Draft.readString?, Draft.body_eq ht] at h
    have hletter : [].map Char.toLower ∈ [[], ['u']] := by decide
    exact .plain hletter hmark hbody h
  | @marked x _ _ _ u hx hu hmark hbody ht =>
    rw [Draft.readString?, Draft.body_eq ht, hu, List.map_singleton] at h
    -- a raw text denotes itself
    split_ifs at h with hraw
    · cases h
      exact .raw (by simpa using hraw) hmark hbody
    · -- the other mark changes nothing
      have hletter : x.toLower = 'u' := by
        rcases List.mem_cons.mp hx with hx | hx
        · exact absurd (by rw [hx]) hraw
        · exact List.mem_singleton.mp hx
      have hletters : [x].map Char.toLower ∈ [[], ['u']] := by simp [hletter]
      exact .plain hletters hmark hbody h

/-- A string literal of a parse tree denotes what it is narrowed to. -/
theorem Grammar.ParseTree.Grown.stringLiteral {t : ParseTree} {l : Literal} (ht : t.Grown)
    (hrule : t.rule = .string) (h : Draft.literal? t = some l) :
    ∃ s, l = .str s ∧ StringLiteral t.text s.toList := by
  cases ht with
  | node hm hreads =>
    obtain rfl := hrule
    obtain ⟨cs, hcs, rfl⟩ := Option.map_eq_some_iff.mp h
    obtain ⟨w, hrest, hw⟩ := hreads.of_string hm
    refine ⟨_, rfl, ?_⟩
    show StringLiteral (Cursor.textTo _ _) _
    rw [Cursor.textTo_eq hrest, String.toList_ofList]
    exact .of_readString? hw hcs

/-- The text of a leaf, if it is one. -/
def Leaf.string? : Leaf → Option String
  | .value (.str s) => some s
  | _ => none

theorem rule_of_literal?_str {t : ParseTree} {s : String}
    (h : Draft.literal? t = some (.str s)) : t.rule = .string := by
  unfold Draft.literal? at h
  split at h
  · obtain ⟨_, -, hl⟩ := Option.map_eq_some_iff.mp h
    cases hl
  · obtain ⟨_, -, hl⟩ := Option.map_eq_some_iff.mp h
    cases hl
  · assumption
  all_goals cases h

/-- A leaf of a query is a text if it stands for a string literal, and then it is the text that the
literal denotes. -/
theorem StandsFor.string? {leaf : Leaf} {t : ParseTree} (h : StandsFor leaf t) (ht : t.Grown) :
    (t.rule = .string ∧ ∃ s, leaf.string? = some s ∧ StringLiteral t.text s.toList) ∨
      (t.rule ≠ .string ∧ leaf.string? = none) := by
  cases h with
  | name hrule => exact .inr ⟨by simp [hrule], rfl⟩
  | @literal _ l v hliteral hv =>
    by_cases hrule : t.rule = .string
    · -- a string is neither negated nor widened
      obtain ⟨s, rfl, hs⟩ := ht.stringLiteral hrule hliteral
      cases hv with
      | same => exact .inl ⟨hrule, s, rfl, hs⟩
    · refine .inr ⟨hrule, ?_⟩
      cases hv with
      | same =>
        cases l with
        | str s => exact absurd (rule_of_literal?_str hliteral) hrule
        | none | bool | int | float => rfl
      | negInt | negFloat | widened | negWidened => rfl

/-- The texts of a query stand for the string literals of a parse tree, one by one. -/
theorem strings_of_standsFor {leaves : List Leaf} {atoms : List ParseTree}
    (h : List.Forall₂ StandsFor leaves atoms) (hatoms : ∀ t ∈ atoms, t.Grown) :
    List.Forall₂ (fun t s => StringLiteral t.text s.toList)
      (atoms.filter (·.rule == .string)) (leaves.filterMap Leaf.string?) := by
  induction h with
  | nil => exact .nil
  | @cons leaf t leaves atoms hleaf _ ih =>
    obtain ⟨ht, hatoms⟩ := List.forall_mem_cons.mp hatoms
    rcases hleaf.string? ht with ⟨hrule, s, hstring, hs⟩ | ⟨hrule, hstring⟩
    · rw [List.filter_cons_of_pos (by simpa using hrule), List.filterMap_cons_some hstring]
      exact .cons hs (ih hatoms)
    · rw [List.filter_cons_of_neg (by simpa using hrule), List.filterMap_cons_none hstring]
      exact ih hatoms

/-! ### Accepted sources -/

/-- **Strings are as the user wrote them**, if the comments of the source end with their lines.
Every string literal of the normal form of an accepted source is, byte for byte, what the source has
at its place; and without indexes the texts of the query are, one by one, what these literals
denote. -/
theorem strings_as_written {source : String} {catalog : Catalog} {contexts : List Context}
    {q : Query Condition} (hends : Source.commentsEndLines (.code 0) source.toList = true)
    (h : (parseFilter source catalog contexts).result = .ok q) :
    ∃ tree, Grammar.parse (Source.normalizeChars source.toList) = .ok tree ∧
      tree.Everywhere (fun t => t.rule = .string →
        Source.piece? t.start t.stop (Source.normalizeChars source.toList) = some t.text ∧
        Source.piece? t.start t.stop source.toList = some t.text) ∧
      (catalog.Plain → List.Forall₂ (fun t s => StringLiteral t.text s.toList)
        (tree.atoms.filter (·.rule == .string)) (q.root.leaves.filterMap Leaf.string?)) := by
  obtain ⟨t, d, ht, hd, hroot, -⟩ := parseFilter_eq_ok_iff.mp h
  obtain ⟨tree, hparse, hfilter, hrule⟩ := Source.statement_ok ht
  refine ⟨tree, hparse, ?_, fun hplain => ?_⟩
  · exact (parse_texts hparse).imp₂ (fun _ htext hverbatim hstring => ⟨htext, hverbatim hstring⟩)
      (parse_verbatim hends hparse hfilter hrule)
  · obtain ⟨tree', hparse', hgrown, hatoms, -⟩ := Source.statement_atoms ht
    -- both are the tree of the normal form
    obtain rfl : tree = tree' := by
      rw [hparse] at hparse'
      exact Except.ok.inj hparse'
    obtain ⟨hsupported, hleaves, -⟩ := Resolve.conditionInOrder_leaves
      (Draft.ofTree_wellFormed hgrown _ _ hd) hplain _ hroot
    obtain ⟨hread, -⟩ := Draft.ofTree_leaves hgrown _ _ hd hsupported
    have hstands := forall₂_comp hread hleaves (T := fun t l => StandsFor l t)
      fun _ _ _ => StandsFor.of_becomes
    rw [hatoms]
    exact strings_of_standsFor hstands.flip hgrown.of_mem_atoms

/-- A source with a raw literal and one with escapes, and with quotation marks in its comments. -/
def Source.quoting : String := "f(r'\\AND', # it's\n U\"\\x41\\\n Or\") # don't\r\n"

/-- A function of two texts. -/
def Catalog.texts : Catalog := ⟨[⟨"f", none, [⟨"a", .str, none⟩, ⟨"b", .str, none⟩]⟩]⟩

/-- The texts are those between the marks. -/
theorem strings_as_written_quoting :
    Source.commentsEndLines (.code 0) Source.quoting.toList = true ∧
      ∃ q, (parseFilter Source.quoting .texts []).result = .ok q ∧
        q.root.leaves.filterMap Leaf.string? = ["\\AND", "A Or"] ∧
        ∃ tree, Grammar.parse (Source.normalizeChars Source.quoting.toList) = .ok tree ∧
          tree.Everywhere (fun t => t.rule = .string →
            Source.piece? t.start t.stop (Source.normalizeChars Source.quoting.toList) = some t.text ∧
            Source.piece? t.start t.stop Source.quoting.toList = some t.text) ∧
          List.Forall₂ (fun t s => StringLiteral t.text s.toList)
            (tree.atoms.filter (·.rule == .string)) (q.root.leaves.filterMap Leaf.string?) := by
  have hends : Source.commentsEndLines (.code 0) Source.quoting.toList = true := by decide +kernel
  have hplain : Catalog.texts.Plain := by
    simp [Catalog.Plain, Catalog.texts]
  have hstrings : (parseFilter Source.quoting .texts []).result.toOption.map
      (fun q => q.root.leaves.filterMap Leaf.string?) = some ["\\AND", "A Or"] := by decide +kernel
  cases hq : (parseFilter Source.quoting .texts []).result with
  | error e => rw [hq] at hstrings; cases hstrings
  | ok q =>
    rw [hq] at hstrings
    obtain ⟨tree, hparse, hverbatim, hdenote⟩ := strings_as_written hends hq
    exact ⟨hends, q, rfl, Option.some.inj hstrings, tree, hparse, hverbatim, hdenote hplain⟩

/-- A comment with a lone carriage return, and a literal with a line break. -/
def Source.returning : String := "# \rf('a\\\nAND', '')"

/-- **A lone carriage return in a comment** ends it for the grammar only, and a word of the literal
that follows is lowered: the text of the query is not the one that the source has. -/
theorem not_strings_as_written :
    ∃ q, (parseFilter Source.returning .texts []).result = .ok q ∧
      q.root.leaves.filterMap Leaf.string? = ["aand", ""] ∧
      ∃ tree, Grammar.parse (Source.normalizeChars Source.returning.toList) = .ok tree ∧
        ∃ t ∈ tree.atoms, t.rule = .string ∧ t.text = "'a\\\nand'".toList ∧
          Source.piece? t.start t.stop Source.returning.toList = some "'a\\\nAND'".toList := by
  have hstrings : (parseFilter Source.returning .texts []).result.toOption.map
      (fun q => q.root.leaves.filterMap Leaf.string?) = some ["aand", ""] := by decide +kernel
  -- the literal of the tree, and the piece of the source at its place
  have hatoms : (Grammar.parse (Source.normalizeChars Source.returning.toList)).toOption.any
      (fun tree => tree.atoms.any fun t => t.rule == .string && t.text == "'a\\\nand'".toList &&
        Source.piece? t.start t.stop Source.returning.toList == some "'a\\\nAND'".toList) = true := by
    decide +kernel
  cases hq : (parseFilter Source.returning .texts []).result with
  | error e => rw [hq] at hstrings; cases hstrings
  | ok q =>
    rw [hq] at hstrings
    cases hparse : Grammar.parse (Source.normalizeChars Source.returning.toList) with
    | error e => rw [hparse] at hatoms; cases hatoms
    | ok tree =>
      rw [hparse] at hatoms
      obtain ⟨t, ht, hbool⟩ := List.any_eq_true.mp hatoms
      simp only [Bool.and_eq_true, beq_iff_eq] at hbool
      exact ⟨q, rfl, Option.some.inj hstrings, tree, rfl, t, ht, hbool.1.1, hbool.1.2, hbool.2⟩

end CatalogQuery
