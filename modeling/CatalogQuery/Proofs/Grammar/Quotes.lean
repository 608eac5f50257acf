import CatalogQuery.Proofs.Grammar.Literals

/-!
# What stands between quotation marks

`QuotedText mark w` says that `w` may stand between two marks: a backslash takes the next character
with it, whatever it is, and neither the mark nor a line break stands by itself. The bodies of
quoted literals are read as long as such a text goes on (`Reads.of_quotedBody`).
-/

namespace CatalogQuery.Grammar

/-- The characters that do not stand by themselves between marks. -/
def quoteStops (mark : Char) : List Char := [mark, '\\', '\n', '\r']

/-- A text that may stand between two marks. -/
inductive QuotedText (mark : Char) : List Char → Prop where
  | nil : QuotedText mark []
  | escaped (c : Char) {w : List Char} (h : QuotedText mark w) : QuotedText mark ('\\' :: c :: w)
  | plain {c : Char} {w : List Char} (hc : c ∉ quoteStops mark) (h : QuotedText mark w) :
      QuotedText mark (c :: w)

/-- A quoted text goes on behind any part of it without backslashes. -/
theorem QuotedText.of_append {mark : Char} {u w : List Char} (hu : ∀ x ∈ u, x ≠ '\\')
    (h : QuotedText mark (u ++ w)) : QuotedText mark w := by
  induction u with
  | nil => exact h
  | cons x u ih =>
    generalize hw : x :: u ++ w = cs at h
    cases h with
    | nil => cases hw
    -- the part has no backslash to escape with
    | escaped => exact absurd (List.cons.inj hw).1 (hu x (List.mem_cons_self ..))
    | plain _ h =>
      obtain ⟨rfl, rfl⟩ := List.cons.inj hw
      exact ih (fun y hy => hu y (List.mem_cons_of_mem _ hy)) h

/-- What stands for one character between marks. -/
def quotedPiece (mark : String) : Expr :=
  .oneOf [.sequence [.lit "\\", .char .any],
    .sequence [.absent (.oneOf [.lit mark, .lit "\\", newline]), .char .any]]

section Body

variable {m : Mode} {mark : Char} {s : String} {c c' : Cursor} {ts : List ParseTree}

/-- No stop is found at another character. -/
theorem quoteStop_refuses (hs : s.toList = [mark]) {x : Char} (hx : x ∉ quoteStops mark)
    (cs : List Char) : Refuses m (.oneOf [.lit s, .lit "\\", newline]) (x :: cs) := by
  simp only [quoteStops, List.mem_cons, List.not_mem_nil, or_false, not_or] at hx
  obtain ⟨hmark, hbackslash, hfeed, hreturn⟩ := hx
  -- each stop begins with another character
  have hother : ∀ (d : Char) (ds : List Char), x ≠ d → ¬ (d :: ds) <+: x :: cs := by
    rintro d ds hne ⟨t, ht⟩
    cases ht
    exact hne rfl
  refine .choice (.text ?_) (.choice (.text (hother _ _ hbackslash))
    (.choice (.text (hother _ _ hfeed))
      (.choice (.text (hother _ _ hreturn)) (.text (hother _ _ hreturn)))))
  rw [hs]
  exact hother _ _ hmark

/-- Where no stop is found, none stands. -/
theorem Reads.not_mem_quoteStops (hs : s.toList = [mark])
    (h : Reads m (.oneOf [.lit s, .lit "\\", newline]) c none) {x : Char} {cs : List Char}
    (hc : c.rest = x :: cs) : x ∉ quoteStops mark := by
  -- a stop that is refused is not the first character
  have hne : ∀ {d : Char}, ¬ [d] <+: c.rest → x ≠ d := by
    rintro d hd rfl
    exact hd (hc ▸ ⟨cs, rfl⟩)
  cases h with
  | choice_right hmark h =>
    cases h with
    | choice_right hbackslash h =>
      cases h with
      | choice_right hfeed h =>
        cases h with
        | choice_right _ hreturn =>
          cases hmark with
          | text_fails hmark =>
            cases hbackslash with
            | text_fails hbackslash =>
              cases hfeed with
              | text_fails hfeed =>
                cases hreturn with
                | text_fails hreturn =>
                  rw [hs] at hmark
                  simp only [quoteStops, List.mem_cons, List.not_mem_nil, or_false, not_or]
                  exact ⟨hne hmark, hne hbackslash, hne hfeed, hne hreturn⟩

/-- A piece is a backslash with the character after it, or a character that is no stop. -/
theorem Reads.of_quotedPiece (hs : s.toList = [mark]) (hm : m.skips = false)
    (h : Reads m (quotedPiece s) c (some (c', ts))) :
    ∃ u, c.rest = u ++ c'.rest ∧ ∀ w, QuotedText mark w → QuotedText mark (u ++ w) := by
  cases h with
  | choice_left h =>
    cases h with
    | seq ha hb =>
      rw [Cursor.skip_of_tight _ hm] at hb
      cases ha with
      | text ha =>
        cases hb with
        | @char _ _ _ x rest hb _ =>
          -- a backslash and the character that it escapes
          refine ⟨['\\', x], ?_, fun _ hw => .escaped x hw⟩
          rw [ha]
          exact congrArg (List.cons '\\') hb
  | choice_right _ h =>
    cases h with
    | seq ha hb =>
      rw [Cursor.skip_of_tight _ hm] at hb
      cases ha with
      | absent ha =>
        cases hb with
        | @char _ _ _ x rest hb _ =>
          -- one character, where no stop is found
          exact ⟨[x], hb, fun _ hw => .plain (ha.not_mem_quoteStops hs hb) hw⟩

/-- The pieces end at a stop, or with the text. -/
theorem Reads.head_mem_quoteStops (hs : s.toList = [mark]) (hm : m.skips = false)
    (h : Reads m (quotedPiece s) c none) : ∀ x ∈ c.rest.head?, x ∈ quoteStops mark := by
  intro x hx
  by_contra hstop
  obtain ⟨rest, offset⟩ := c
  cases rest with
  | nil => cases hx
  | cons y cs =>
    cases hx
    -- a character that stops nothing would be one more piece
    have hbackslash : ¬ ['\\'] <+: x :: cs := by
      rintro ⟨t, ht⟩
      cases ht
      exact hstop (by simp [quoteStops])
    have hchar : Matches m (.char .any) (m.next (x :: cs)) cs (· = []) := by
      rw [Mode.next_of_tight hm]
      exact .char rfl
    have hpiece : Matches m (quotedPiece s) (x :: cs) cs fun _ => True :=
      .choice_right (.seq_left (.text hbackslash))
        (((Matches.absent (quoteStop_refuses hs hstop cs)).seq hchar).imp fun _ _ => trivial)
    obtain ⟨o, us, hreads, -⟩ := hpiece offset
    cases h.unique hreads

theorem Reads.more_quotedPiece (hs : s.toList = [mark]) (hm : m.skips = false)
    (h : Reads m (.more (quotedPiece s)) c (some (c', ts))) :
    ∃ w, c.rest = w ++ c'.rest ∧ QuotedText mark w ∧ ∀ x ∈ c'.rest.head?, x ∈ quoteStops mark := by
  generalize he : Expr.more (quotedPiece s) = e at h
  generalize ho : some (c', ts) = o at h
  induction h generalizing c' ts with
  | more_some ha _ _ ih =>
    cases he
    cases ho
    rw [Cursor.skip_of_tight _ hm] at ha
    obtain ⟨u, hu, hbefore⟩ := ha.of_quotedPiece hs hm
    obtain ⟨w, hw, hquoted, hstop⟩ := ih hm rfl rfl
    -- one more piece before those that follow
    exact ⟨u ++ w, by rw [hu, hw, List.append_assoc], hbefore w hquoted, hstop⟩
  | more_none ha =>
    cases he
    cases ho
    rw [Cursor.skip_of_tight _ hm] at ha
    exact ⟨[], rfl, .nil, ha.head_mem_quoteStops hs hm⟩
  | _ => cases he

/-- **What is read between marks** goes on as long as it can. -/
theorem Reads.of_quotedBody (hs : s.toList = [mark]) (hm : m.skips = false)
    (h : Reads m (quotedBody s) c (some (c', ts))) :
    ∃ w, c.rest = w ++ c'.rest ∧ QuotedText mark w ∧ ∀ x ∈ c'.rest.head?, x ∈ quoteStops mark := by
  have h : Reads m (.many (quotedPiece s)) c (some (c', ts)) := h
  cases h with
  | many_some ha hmore =>
    obtain ⟨u, hu, hbefore⟩ := ha.of_quotedPiece hs hm
    obtain ⟨w, hw, hquoted, hstop⟩ := hmore.more_quotedPiece hs hm
    exact ⟨u ++ w, by rw [hu, hw, List.append_assoc], hbefore w hquoted, hstop⟩
  | many_none ha => exact ⟨[], rfl, .nil, ha.head_mem_quoteStops hs hm⟩

end Body

/-! ### Quoted literals -/

/-- The characters that quoted text stands between. -/
def quoteMarks : List Char := ['\'', '"']

/-- The text of a string literal and the nodes found in it: the quoted part holds the text between
the marks, and a letter may stand before it. -/
inductive Quotation : List Char → List ParseTree → Prop where
  | bare {mark : Char} {w : List Char} {t : ParseTree} (hmark : mark ∈ quoteMarks)
      (hw : QuotedText mark w) (ht : t.children.map ParseTree.text = [w]) :
      Quotation (mark :: (w ++ [mark])) [t]
  | marked {x mark : Char} {w : List Char} {t u : ParseTree} (hx : x.toLower ∈ ['r', 'u'])
      (hu : u.text = [x]) (hmark : mark ∈ quoteMarks) (hw : QuotedText mark w)
      (ht : t.children.map ParseTree.text = [w]) :
      Quotation (x :: mark :: (w ++ [mark])) [u, t]

/-- A string literal begins with a letter or a mark. -/
theorem Quotation.head {w : List Char} {ts : List ParseTree} (h : Quotation w ts) :
    ∃ x u, w = x :: u ∧ x ≠ ' ' ∧ x ≠ '\n' := by
  have hmarks : ∀ x ∈ quoteMarks, x ≠ ' ' ∧ x ≠ '\n' := by decide
  cases h with
  | bare hmark => exact ⟨_, _, rfl, hmarks _ hmark⟩
  | @marked x _ _ _ _ hx =>
    refine ⟨x, _, rfl, ?_, ?_⟩
    · rintro rfl
      exact absurd hx (by decide)
    · rintro rfl
      exact absurd hx (by decide)

section Literals

variable {m : Mode} {c c' : Cursor} {ts : List ParseTree}

theorem Reads.of_text {t : List Char} (h : Reads m (.text t) c (some (c', ts))) :
    c.rest = t ++ c'.rest ∧ ts = [] := by
  cases h with
  | text h => exact ⟨h, rfl⟩

/-- What is read from a mark to the next. -/
theorem Reads.of_marked {mark : Char} {s : String} {r : Rule} (hs : s.toList = [mark])
    (hr : r.body = quotedBody s) (hflavor : r.flavor = .token) (hm : m.skips = false)
    (h : Reads m (.sequence [.lit s, .rule r, .lit s]) c (some (c', ts))) :
    ∃ w, QuotedText mark w ∧ c.rest = mark :: (w ++ [mark]) ++ c'.rest ∧
      (m.records = true → ts.map ParseTree.text = [w]) := by
  cases h with
  | @seq _ _ c₁ _ _ _ _ _ hopen h =>
    rw [Cursor.skip_of_tight _ hm] at h
    -- the first mark
    obtain ⟨htext, rfl⟩ := hopen.of_text
    cases h with
    | @seq _ _ c₂ _ _ _ us _ hbody hclose =>
      rw [Cursor.skip_of_tight _ hm] at hclose
      -- the last one
      obtain ⟨htext', rfl⟩ := hclose.of_text
      -- and the body between them, whether it is recorded or not
      obtain ⟨w, hw, hquoted, hfound⟩ : ∃ w, c₁.rest = w ++ c₂.rest ∧ QuotedText mark w ∧
          (m.records = true → us.map ParseTree.text = [w]) := by
        cases hbody with
        | node _ h =>
          rw [hflavor, hr] at h
          obtain ⟨w, hw, hquoted, -⟩ := h.of_quotedBody hs rfl
          exact ⟨w, hw, hquoted, fun _ => congrArg (fun t => [t]) (Cursor.textTo_eq hw)⟩
        | bare hrecords h =>
          rw [hflavor, hr] at h
          obtain ⟨w, hw, hquoted, -⟩ := h.of_quotedBody hs rfl
          exact ⟨w, hw, hquoted, fun h => absurd (hrecords.symm.trans h) (by simp)⟩
      refine ⟨w, hquoted, ?_, ?_⟩
      · rw [htext, hw, htext', hs]
        simp
      · rw [List.nil_append, List.append_nil]
        exact hfound

/-- What is read of a quoted part. -/
theorem Reads.of_quoted (hrecords : m.records = true)
    (h : Reads m quoted c (some (c', ts))) :
    ∃ mark ∈ quoteMarks, ∃ w t, QuotedText mark w ∧ c.rest = mark :: (w ++ [mark]) ++ c'.rest ∧
      ts = [t] ∧ t.children.map ParseTree.text = [w] := by
  cases h with
  | choice_left h =>
    cases h with
    | bare hbare => exact absurd (hrecords.symm.trans hbare) (by simp)
    | node _ h =>
      -- in double quotation marks
      have hmark : "\"".toList = ['"'] := rfl
      obtain ⟨w, hquoted, htext, hfound⟩ := h.of_marked hmark rfl rfl rfl
      exact ⟨'"', by decide, w, _, hquoted, htext, rfl, hfound hrecords⟩
  | choice_right _ h =>
    cases h with
    | bare hbare => exact absurd (hrecords.symm.trans hbare) (by simp)
    | node _ h =>
      -- in single ones
      have hmark : "'".toList = ['\''] := rfl
      obtain ⟨w, hquoted, htext, hfound⟩ := h.of_marked hmark rfl rfl rfl
      exact ⟨'\'', by decide, w, _, hquoted, htext, rfl, hfound hrecords⟩

/-- What is read of the letter before a quoted part. -/
theorem Reads.of_stringMark (h : Reads m Rule.stringMark.body c (some (c', ts))) :
    ∃ x, c.rest = [x] ++ c'.rest ∧ x.toLower ∈ ['r', 'u'] := by
  -- a word of one letter is read of one character
  have hletter : ∀ {t : List Char}, t.length = 1 → (∀ x ∈ t, x ∈ ['r', 'u']) →
      Reads m (.anyCase t) c (some (c', ts)) → ∃ x, c.rest = [x] ++ c'.rest ∧ x.toLower ∈ ['r', 'u'] := by
    intro t hlen ht hreads
    cases hreads with
    | @anyCase _ _ _ w _ hrest hw =>
      rw [← hw, List.length_map] at hlen
      obtain ⟨x, rfl⟩ := List.length_eq_one_iff.mp hlen
      exact ⟨x, hrest, ht _ (hw ▸ List.mem_singleton_self _)⟩
  cases h with
  | choice_left h => exact hletter rfl (by decide) h
  | choice_right _ h => exact hletter rfl (by decide) h

/-- **What the rule for strings reads** is a string literal. -/
theorem Reads.of_string (hrecords : m.records = true)
    (h : Reads (m.inside .tight) Rule.string.body c (some (c', ts))) :
    ∃ w, c.rest = w ++ c'.rest ∧ Quotation w ts := by
  have hm : (m.inside .tight).skips = false := rfl
  have hrecords' : (m.inside .tight).records = true := hrecords
  cases h with
  | seq hletter hquoted =>
    rw [Cursor.skip_of_tight _ hm] at hquoted
    obtain ⟨mark, hmark, w, t, hw, htext, rfl, ht⟩ := hquoted.of_quoted hrecords'
    cases hletter with
    -- without a mark before it
    | optional_none => exact ⟨_, htext, .bare hmark hw ht⟩
    | optional_some h =>
      cases h with
      | bare hbare => exact absurd (hrecords'.symm.trans hbare) (by simp)
      | node _ h =>
        -- with a mark, which is a node of its own
        obtain ⟨x, hx, hlower⟩ := h.of_stringMark
        refine ⟨_, ?_, .marked hlower (Cursor.textTo_eq hx) hmark hw ht⟩
        rw [hx, htext]
        rfl

/-- What the rule for formatted strings reads: letters and a quoted part. -/
theorem Reads.of_formatted (hrecords : m.records = true)
    (h : Reads (m.inside .tight) Rule.formatted.body c (some (c', ts))) :
    ∃ letters mark w, (∀ x ∈ letters, continues x = true) ∧ mark ∈ quoteMarks ∧ QuotedText mark w ∧
      c.rest = letters ++ (mark :: (w ++ [mark]) ++ c'.rest) := by
  have hm : (m.inside .tight).skips = false := rfl
  cases h with
  | seq hletters hquoted =>
    rw [Cursor.skip_of_tight _ hm] at hquoted
    obtain ⟨mark, hmark, w, t, hw, htext, -, -⟩ :=
      Reads.of_quoted (m := m.inside .tight) hrecords hquoted
    -- one of three marks, of letters only
    obtain ⟨letters, hletters, hall⟩ : ∃ u, c.rest = u ++ _ ∧ ∀ x ∈ u, continues x = true := by
      cases hletters with
      | choice_left h => exact h.anyCase_continues (by decide)
      | choice_right _ h =>
        cases h with
        | choice_left h => exact h.anyCase_continues (by decide)
        | choice_right _ h => exact h.anyCase_continues (by decide)
    exact ⟨letters, mark, w, hall, hmark, hw, by rw [hletters, htext]⟩

end Literals

end CatalogQuery.Grammar
