import CatalogQuery.Proofs.Grammar.Continued
import CatalogQuery.Proofs.Grammar.InStep

/-!
# Continued lines

Outside brackets, quotes and comments a blank may be replaced by a backslash in front of a line
break. The filter is still accepted, and has the same root. Inside brackets it may not:
normalization turns the line break into a blank, and leaves the backslash in front of it, which no
expression reads. So a filter that was accepted no longer is (`parseFilter_continued`).

What is skipped inside a statement is in the texts of its nodes. Narrowing does not look there
(`Draft.keeps_bare`), so that statements which differ there only have the same root, if the answers
of the indexes do not depend on places (`parseFilter_of_bare`).
-/

namespace CatalogQuery

open Grammar

/-! ### Narrowing looks at no text that is spaced -/

namespace Draft

theorem legible_of_mem_quoteRules : ∀ r ∈ quoteRules, Rule.legible r = true := by decide

theorem body_bare {t : ParseTree} (h : ∀ u ∈ t.children, u.rule.legible = true) :
    body t.bare = body t := by
  unfold body
  rw [ParseTree.children_bare]
  cases hts : t.children with
  | nil => rfl
  | cons u us =>
    have hu : u.bare.text = u.text := ParseTree.text_bare (h u (by simp [hts]))
    simp [hu]

theorem readString?_bare {ts : List ParseTree}
    (h : ∀ t ∈ ts, t.rule.legible = true ∧ ∀ u ∈ t.children, u.rule.legible = true) :
    readString? (ts.map ParseTree.bare) = readString? ts := by
  match ts with
  | [] => rfl
  | [quoted] => rw [List.map_singleton, readString?, readString?, body_bare (h quoted (by simp)).2]
  | [mark, quoted] =>
    have hmark := ParseTree.text_bare (h mark (by simp)).1
    rw [List.map_cons, List.map_singleton, readString?, readString?, hmark,
      body_bare (h quoted (by simp)).2]
  | _ :: _ :: _ :: _ => rfl

/-- The parts of a quoted literal, and their parts, have texts that are not spaced. -/
theorem legible_of_quoted {r : Rule} {ts : List ParseTree} (h : ParseTree.Branches r ts)
    (hr : r ∈ .string :: .formatted :: quoteRules) :
    ∀ t ∈ ts, t.rule.legible = true ∧ ∀ u ∈ t.children, u.rule.legible = true := by
  intro t ht
  have hrule := h.mem_quoteRules hr t ht
  refine ⟨legible_of_mem_quoteRules _ hrule, fun u hu => ?_⟩
  -- the parts of a part are again those of a quoted literal
  obtain ⟨rule, b, e, text, us⟩ := t
  have hparts := (h.grown _ ht).branches.mem_quoteRules
    (List.mem_cons_of_mem _ (List.mem_cons_of_mem _ hrule))
  exact legible_of_mem_quoteRules _ (hparts u hu)

theorem literal?_bare {r : Rule} {b e : Nat} {text : List Char} {ts : List ParseTree}
    (h : ParseTree.Branches r ts) :
    literal? (ParseTree.node r b e text ts).bare = literal? (.node r b e text ts) := by
  have hchildren : (ParseTree.node r b e text ts).bare.children = ts.map ParseTree.bare :=
    ParseTree.children_bare _
  unfold literal?
  rw [ParseTree.rule_bare, hchildren]
  by_cases hr : r = .string
  · subst hr
    show (readString? (ts.map ParseTree.bare)).map _ = (readString? ts).map _
    -- the texts of a string literal are kept
    rw [readString?_bare (legible_of_quoted h (by simp))]
  · by_cases hnumber : r = .int ∨ r = .float
    · -- numbers are tokens
      have hlegible : r.legible = true := by rcases hnumber with rfl | rfl <;> rfl
      have htext : (ParseTree.node r b e text ts).bare.text = text := ParseTree.text_bare hlegible
      rw [htext]
      rcases hnumber with rfl | rfl <;> rfl
    · cases r <;> first | rfl | simp at hr hnumber

/-- Narrowing looks at no text inside which something may be skipped. -/
theorem keeps_bare {t : ParseTree} (ht : t.Grown) : t.Everywhere (Keeps ParseTree.bare) := by
  refine ParseTree.Grown.induct ?_ ht
  intro r b e text ts hgrown ih
  refine .node ⟨ParseTree.rule_bare _, ParseTree.children_bare _, ?_, literal?_bare hgrown.branches,
    ?_⟩ ih
  · rintro rfl
    exact ParseTree.text_bare rfl
  · rintro sign operand rfl rfl
    obtain ⟨hsign, -⟩ := hgrown.branches.signed
    exact ParseTree.text_bare (by rw [hsign]; rfl)

/-- **Trees that are the same without such texts are narrowed to the same draft**, but for
snippets. -/
theorem ofTree_of_bare (r r' : Reading) (hcatalog : r'.catalog = r.catalog) {t t' : ParseTree}
    (ht : t.Grown) (ht' : t'.Grown) (hbare : t'.bare = t.bare) {d : Draft}
    (h : ofTree r .topLevel t = .ok d) :
    ∃ d', ofTree r' .topLevel t' = .ok d' ∧
      d'.mapPieces (fun _ => .nowhere) = d.mapPieces fun _ => .nowhere := by
  -- each is narrowed like the tree without the texts
  have hpieces : ∀ (q : Reading) {u : ParseTree}, r'.catalog = q.catalog → u.Grown →
      mapBoth (QueryError.mapPieces fun _ => .nowhere) (mapPieces fun _ => .nowhere)
          (ofTree r' .topLevel u.bare)
        = mapBoth (QueryError.mapPieces fun _ => .nowhere) (mapPieces fun _ => .nowhere)
          (ofTree q .topLevel u) :=
    fun q {u} hq hu =>
      ofTree_mapPieces (g := ParseTree.bare) (fun _ => rfl) hq (keeps_bare hu) .topLevel
  have hsame := hpieces r' rfl ht'
  rw [hbare, hpieces r hcatalog ht, h] at hsame
  cases hd' : ofTree r' .topLevel t' with
  | error e =>
    rw [hd'] at hsame
    cases hsame
  | ok d' =>
    rw [hd'] at hsame
    exact ⟨d', rfl, (Except.ok.inj hsame).symm⟩

end Draft

/-! ### Resolution looks at no snippet -/

theorem DraftCall.mapPieces_nowhere (c : DraftCall) :
    c.mapPieces (fun _ => .nowhere) = c.unplaced := by
  have hsame : RawArg.mapPieces (fun _ => .nowhere) = RawArg.unplaced :=
    funext RawArg.mapPieces_nowhere
  rw [mapPieces, unplaced, hsame]

namespace Resolve

variable (contexts : List Context)

theorem conditionsInOrder_congr {f : Draft → Draft} {ds : List Draft}
    (h : ∀ d ∈ ds, Agree (conditionInOrder contexts d) (conditionInOrder contexts (f d))) :
    Agree (conditionsInOrder contexts ds) (conditionsInOrder contexts (ds.map f)) := by
  induction ds with
  | nil => exact .refl _
  | cons d ds ih =>
    obtain ⟨hd, hds⟩ := List.forall_mem_cons.mp h
    rw [List.map_cons, conditionsInOrder, conditionsInOrder]
    exact hd.bind_congr fun c => (ih hds).map _

/-- **Snippets do not matter for stable indexes**: drafts that differ in snippets only are resolved
to the same condition. -/
theorem conditionInOrder_unplaced {r : Reading} (hstable : r.catalog.Stable) {d : Draft}
    (hd : d.WellFormed r) :
    Agree (conditionInOrder contexts d)
      (conditionInOrder contexts (d.mapPieces fun _ => .nowhere)) := by
  induction hd with
  | all _ _ ih | any _ _ ih =>
    rw [Draft.mapPieces, Draft.mapPiecesEach_eq, conditionInOrder, conditionInOrder]
    exact (conditionsInOrder_congr contexts ih).map _
  | not _ ih =>
    rw [Draft.mapPieces, conditionInOrder, conditionInOrder]
    exact ih.map _
  | call h =>
    -- the function is one of the catalog, whose indexes are stable
    have hmem := List.mem_of_find?_eq_some h.found
    rw [Draft.mapPieces, conditionInOrder, conditionInOrder, DraftCall.mapPieces_nowhere]
    exact (callInOrder_unplaced contexts (hstable _ hmem)).map _

end Resolve

section Filters

variable {catalog : Catalog} {contexts : List Context} {q : Query Condition}

/-- **What is skipped inside a statement does not matter**: a statement that differs there only has
the same root. -/
theorem parseFilter_of_bare (hstable : catalog.Stable) {source source' : String}
    (hbare : ∀ t, Source.statement source (Source.normalizeChars source.toList) = .ok t →
      ∃ t', Source.statement source' (Source.normalizeChars source'.toList) = .ok t' ∧
        t'.bare = t.bare)
    (h : (parseFilter source catalog contexts).result = .ok q) :
    ∃ q', (parseFilter source' catalog contexts).result = .ok q' ∧ q'.root = q.root := by
  obtain ⟨t, d, ht, hd, hroot, -⟩ := parseFilter_eq_ok_iff.mp h
  obtain ⟨t', ht', hsame⟩ := hbare t ht
  obtain ⟨-, -, hgrown, -⟩ := Source.statement_atoms ht
  obtain ⟨-, -, hgrown', -⟩ := Source.statement_atoms ht'
  obtain ⟨d', hd', hpieces⟩ :=
    Draft.ofTree_of_bare ⟨source.toList, Source.normalizeChars source.toList, catalog⟩
      ⟨source'.toList, Source.normalizeChars source'.toList, catalog⟩ rfl hgrown hgrown' hsame hd
  have hagree := Resolve.conditionInOrder_unplaced contexts hstable
    (Draft.ofTree_wellFormed hgrown _ _ hd)
  have hagree' := Resolve.conditionInOrder_unplaced contexts hstable
    (Draft.ofTree_wellFormed hgrown' _ _ hd')
  rw [hpieces] at hagree'
  -- the root that was resolved for one draft is that of the other
  refine ⟨{ q with source := source' }, parseFilter_eq_ok_iff.mpr ⟨t', d', ht', hd', ?_, rfl⟩, rfl⟩
  exact (hagree' _).mpr ((hagree _).mp hroot)

end Filters

/-! ### The change -/

namespace Source

/-- **The change in normal form**, behind a text that leads to code: inside brackets the line break
becomes a blank. -/
theorem normalizeChars_continued {before : List Char} {d : Nat}
    (hzone : before.foldl Zone.next (.code 0) = .code d)
    (hends : commentsEndLines (.code 0) before = true) (after : List Char) :
    ∃ n rest, Passed n ∧ normalizeChars (before ++ ' ' :: after) = n ++ ' ' :: rest ∧
      normalizeChars (before ++ '\\' :: '\n' :: after) = n ++ '\\' :: joined d :: rest := by
  obtain ⟨n, hn, hnormal⟩ := normalizeChars_passed hzone hends
  -- either character ends a word, and leaves the text in code
  have hcode : ∀ c ∈ [' ', '\\'], ∀ cs, normalizeChars (before ++ c :: cs)
      = n ++ c :: normalizeFrom (.code d) [] cs := by
    intro c hc cs
    have hword : isWordChar c = false := (by decide : ∀ x ∈ [' ', '\\'], isWordChar x = false) c hc
    have hzone : Zone.after d c = .code d := by
      simp only [List.mem_cons, List.not_mem_nil, or_false] at hc
      rcases hc with rfl | rfl <;> rfl
    rw [hnormal _ (by simp [hword]), normalizeFrom_code hword, hzone]
    · rfl
    · rintro rfl
      exact absurd hc (by decide)
    · rintro rfl
      exact absurd hc (by decide)
  refine ⟨n, normalizeFrom (.code d) [] after, hn, hcode ' ' (by simp) after, ?_⟩
  rw [hcode '\\' (by simp)]
  rfl

end Source

/-- **Continued lines.** Let a blank of an accepted filter stand outside quotes and comments, and
let the comments in front of it end with their lines. If a backslash and a line break take its
place, the filter is accepted with the same root outside brackets, and is not accepted inside
brackets. -/
theorem parseFilter_continued {catalog : Catalog} (hstable : catalog.Stable) {contexts : List Context}
    {before after : List Char} {d : Nat}
    (hzone : before.foldl Source.Zone.next (.code 0) = .code d)
    (hends : Source.commentsEndLines (.code 0) before = true) {q : Query Condition}
    (h : (parseFilter (String.ofList (before ++ ' ' :: after)) catalog contexts).result = .ok q) :
    let continued := String.ofList (before ++ '\\' :: '\n' :: after)
    (d = 0 → ∃ q', (parseFilter continued catalog contexts).result = .ok q' ∧ q'.root = q.root) ∧
      (0 < d → ∀ q', (parseFilter continued catalog contexts).result ≠ .ok q') := by
  intro continued
  obtain ⟨n, rest, hn, hnormal, hnormal'⟩ := Source.normalizeChars_continued hzone hends after
  have hblank : Breaks (' ' :: rest) := ⟨' ', rest, rfl, by simp⟩
  constructor
  · rintro rfl
    have hline : Breaks ('\\' :: '\n' :: rest) := ⟨'\\', '\n' :: rest, rfl, by simp⟩
    -- outside brackets both are skipped to what follows, so that the texts are read alike
    have hskip : skipped (' ' :: rest) = skipped ('\\' :: '\n' :: rest) := by
      rw [skipped_blank, skipped_feed]
    refine parseFilter_of_bare hstable (fun t ht => ?_) h
    rw [String.toList_ofList, hnormal] at ht
    rw [String.toList_ofList, hnormal']
    have hcarries := carries_changed hline hblank hskip.symm
    rw [← changed_flip] at hcarries
    exact (Source.statement_carried (carries_changed hblank hline hskip) hcarries ht
      (.inr ⟨n, hn, rfl, rfl⟩) continued).2
  · -- neither the backslash nor what follows it can be read
    intro hd q' hq'
    obtain ⟨d, rfl⟩ : ∃ k, d = k + 1 := ⟨d - 1, by omega⟩
    have hstuck : Breaks ('\\' :: ' ' :: rest) := ⟨'\\', ' ' :: rest, rfl, by simp⟩
    have hskip : skipped ('\\' :: ' ' :: rest) = '\\' :: ' ' :: rest :=
      skipped_backslash_alone (by rintro _ ⟨⟩; decide)
    have hcarries := carries_stuck hstuck hskip
    obtain ⟨t, -, ht, -⟩ := parseFilter_eq_ok_iff.mp hq'
    rw [String.toList_ofList, hnormal'] at ht
    obtain ⟨hnil, -⟩ := Source.statement_carried hcarries (across_flip ▸ hcarries) ht
      ⟨n, hn, rfl, rfl⟩ continued
    exact Across.ne_nil hstuck hnil

/-- One function of a text and a number. -/
def Catalog.pairs : Catalog := ⟨[⟨"f", none, [⟨"a", .str, none⟩, ⟨"b", .int, none⟩]⟩]⟩

/-- Two calls below a comment with a quote and a bracket. A line is continued between the calls, and
inside the brackets of the first. -/
theorem parseFilter_continued_commented :
    let between := "# it's f(\nf('(', 1)"
    let inside := "# it's f(\nf('(',"
    Catalog.pairs.Stable ∧
      between.toList.foldl Source.Zone.next (.code 0) = .code 0 ∧
      inside.toList.foldl Source.Zone.next (.code 0) = .code 1 ∧
      ∃ q, (parseFilter "# it's f(\nf('(', 1) and f(')', 2)" .pairs []).result = .ok q ∧
        (∃ q', (parseFilter "# it's f(\nf('(', 1)\\\nand f(')', 2)" .pairs []).result = .ok q' ∧
          q'.root = q.root) ∧
        ∀ q', (parseFilter "# it's f(\nf('(',\\\n1) and f(')', 2)" .pairs []).result ≠ .ok q' := by
  intro between inside
  have hstable : Catalog.pairs.Stable := by simp [Catalog.Stable, Catalog.pairs]
  have hbetween : between.toList.foldl Source.Zone.next (.code 0) = .code 0 := by decide +kernel
  have hinside : inside.toList.foldl Source.Zone.next (.code 0) = .code 1 := by decide +kernel
  refine ⟨hstable, hbetween, hinside, ?_⟩
  have hok : (parseFilter "# it's f(\nf('(', 1) and f(')', 2)" .pairs []).result.toOption.isSome
      = true := by decide +kernel
  cases hq : (parseFilter "# it's f(\nf('(', 1) and f(')', 2)" .pairs []).result with
  | error e =>
    rw [hq] at hok
    cases hok
  | ok q =>
    have hsplit : String.ofList (between.toList ++ ' ' :: "and f(')', 2)".toList)
        = "# it's f(\nf('(', 1) and f(')', 2)" := by decide +kernel
    have hsplit' : String.ofList (inside.toList ++ ' ' :: "1) and f(')', 2)".toList)
        = "# it's f(\nf('(', 1) and f(')', 2)" := by decide +kernel
    have hfirst := (parseFilter_continued hstable hbetween (by decide +kernel)
      (hsplit.symm ▸ hq)).1 rfl
    have hsecond := (parseFilter_continued hstable hinside (by decide +kernel)
      (hsplit'.symm ▸ hq)).2 (by decide)
    rw [show String.ofList (between.toList ++ '\\' :: '\n' :: "and f(')', 2)".toList)
      = "# it's f(\nf('(', 1)\\\nand f(')', 2)" by decide +kernel] at hfirst
    rw [show String.ofList (inside.toList ++ '\\' :: '\n' :: "1) and f(')', 2)".toList)
      = "# it's f(\nf('(',\\\n1) and f(')', 2)" by decide +kernel] at hsecond
    exact ⟨q, rfl, hfirst, hsecond⟩

/-- **Inside brackets a continued line is not blank**: a filter that is accepted with a blank
between its arguments is refused with a backslash and a line break there. -/
theorem not_parseFilter_continued :
    ¬ ∀ (catalog : Catalog) (contexts : List Context) (before after : List Char) (d : Nat)
      (q : Query Condition), catalog.Stable →
      before.foldl Source.Zone.next (.code 0) = .code d →
      Source.commentsEndLines (.code 0) before = true →
      (parseFilter (String.ofList (before ++ ' ' :: after)) catalog contexts).result = .ok q →
      ∃ q', (parseFilter (String.ofList (before ++ '\\' :: '\n' :: after)) catalog contexts).result
        = .ok q' ∧ q'.root = q.root := by
  intro hall
  let before := "f('',".toList
  have hok : (parseFilter (String.ofList (before ++ ' ' :: "2)".toList)) .pairs []).result.toOption.isSome
      = true := by decide +kernel
  have hrefused : (parseFilter (String.ofList (before ++ '\\' :: '\n' :: "2)".toList)) .pairs
      []).result.toOption.isSome = false := by decide +kernel
  cases hq : (parseFilter (String.ofList (before ++ ' ' :: "2)".toList)) .pairs []).result with
  | error e =>
    rw [hq] at hok
    cases hok
  | ok q =>
    -- the backslash before the line break is left alone inside brackets
    obtain ⟨q', hq', -⟩ := hall .pairs [] before "2)".toList 1 q
      (by simp [Catalog.Stable, Catalog.pairs]) (by decide +kernel) (by decide +kernel) hq
    rw [hq'] at hrefused
    cases hrefused

end CatalogQuery
