import CatalogQuery.Proofs.Grammar.Enclosed
import CatalogQuery.Proofs.Draft.Pieces
import CatalogQuery.Proofs.Resolve.Unplaced

/-!
# Reading two texts in parallel

Two texts are read in the same way if they go on in the same way wherever reading comes, except for
what is skipped. A relation of rests of texts `Carries` reading if related rests begin with the same
character of code, or with quoted texts that are the same, and are related behind it and after
skipping. Then every expression reads related rests alike (`Reads.carried`): it reads nothing in
both, or comes to related rests and finds nodes that differ only in offsets and in the texts of
nodes inside which something may be skipped (`ParseTree.bare`). Narrowing looks at neither
(`Draft.keeps_bare`).
-/

namespace CatalogQuery.Grammar

/-! ### Trees without the texts that are spaced -/

/-- The expression is matched without skipping: it has no parts that follow each other. -/
def Expr.flat : Expr → Bool
  | .text _ | .anyCase _ | .char _ => true
  | .choice a b => a.flat && b.flat
  | _ => false

/-- Nothing is skipped between the parts of the rule, so that its text is all that it reads. -/
def Rule.legible (r : Rule) : Bool := r.flavor != .spaced || r.body.flat

namespace ParseTree

mutual

/-- The tree without offsets, and without the texts of nodes inside which something may be
skipped. -/
def bare : ParseTree → ParseTree
  | .node rule _ _ text ts => .node rule 0 0 (if rule.legible then text else []) (bareEach ts)

def bareEach : List ParseTree → List ParseTree
  | [] => []
  | t :: rest => t.bare :: bareEach rest

end

theorem bareEach_eq (ts : List ParseTree) : bareEach ts = ts.map bare := by
  induction ts with
  | nil => rfl
  | cons t ts ih => rw [bareEach, ih, List.map_cons]

theorem bare_node (r : Rule) (b e : Nat) (text : List Char) (ts : List ParseTree) :
    (node r b e text ts).bare = node r 0 0 (if r.legible then text else []) (ts.map bare) := by
  rw [bare, bareEach_eq]

@[simp] theorem rule_bare (t : ParseTree) : t.bare.rule = t.rule := by
  cases t
  rw [bare]
  rfl

@[simp] theorem children_bare (t : ParseTree) : t.bare.children = t.children.map bare := by
  cases t
  rw [bare_node]
  rfl

theorem text_bare {t : ParseTree} (h : t.rule.legible = true) : t.bare.text = t.text := by
  cases t
  rw [bare]
  exact if_pos h

mutual

/-- Offsets have been forgotten. -/
theorem bare_unplaced : ∀ t : ParseTree, t.unplaced.bare = t.bare
  | .node r b e text ts => by rw [unplaced, bare, bare, bareEach_unplaced ts]

theorem bareEach_unplaced : ∀ ts : List ParseTree, bareEach (unplacedEach ts) = bareEach ts
  | [] => rfl
  | t :: rest => by
    rw [unplacedEach, bareEach, bareEach, bare_unplaced t, bareEach_unplaced rest]

end

theorem map_bare_of_unplaced {ts us : List ParseTree}
    (h : us.map unplaced = ts.map unplaced) : us.map bare = ts.map bare := by
  have hbare : ∀ vs : List ParseTree, (vs.map unplaced).map bare = vs.map bare := fun vs => by
    rw [List.map_map]
    exact List.map_congr_left fun t _ => t.bare_unplaced
  rw [← hbare, h, hbare]

end ParseTree

/-! ### Relations that carry reading -/

/-- A character of code that is not skipped wherever it stands, and begins no quoted text. -/
def Ordinary (c : Char) : Prop := c ∉ [' ', '\\', '#', '\'', '"']

instance (c : Char) : Decidable (Ordinary c) := inferInstanceAs (Decidable (c ∉ _))

/-- Related texts go on in the same way, from the first to the second. -/
structure Carries (R : List Char → List Char → Prop) : Prop where
  nil {t : List Char} : R [] t → t = []
  skip {s t : List Char} : R s t → R (skipped s) (skipped t)
  cons {c : Char} {s t : List Char} : Ordinary c → R (c :: s) t → ∃ t', t = c :: t' ∧ R s t'
  quote {mark : Char} {w s t : List Char} : mark ∈ quoteMarks → QuotedText mark w →
    R (mark :: (w ++ mark :: s)) t → ∃ t', t = mark :: (w ++ mark :: t') ∧ R s t'

/-- The expression reads code, of rules for parts of expressions. -/
def Expr.ordinary : Expr → Bool
  | .nothing | .atEnd => true
  | .text t => t.all fun c => decide (Ordinary c)
  | .anyCase t => t.all Char.isAlpha
  | .char k => k != .any
  | .rule r => r ∉ [.program, .importStmt, .doubleBody, .singleBody]
  | .seq a b | .choice a b => a.ordinary && b.ordinary
  | .optional a | .many a | .more a | .absent a => a.ordinary

theorem ordinary_body {r : Rule} (hr : r ∉ [.program, .importStmt, .doubleBody, .singleBody])
    (hdouble : r ≠ .doubleQuoted) (hsingle : r ≠ .singleQuoted) : r.body.ordinary = true := by
  cases r <;> first
    | exact absurd rfl hdouble
    | exact absurd rfl hsingle
    | exact absurd (by decide) hr
    | decide

theorem ordinary_of_continues {c : Char} (h : continues c = true) : Ordinary c := by
  have hall : ∀ x ∈ [' ', '\\', '#', '\'', '"'], continues x = false := by decide
  intro hc
  rw [hall c hc] at h
  cases h

section Carries

variable {R : List Char → List Char → Prop} {s t w : List Char}

theorem Carries.append (hR : Carries R) (hw : ∀ c ∈ w, Ordinary c) (h : R (w ++ s) t) :
    ∃ t', t = w ++ t' ∧ R s t' := by
  induction w generalizing t with
  | nil => exact ⟨t, rfl, h⟩
  | cons c w ih =>
    obtain ⟨hc, hw⟩ := List.forall_mem_cons.mp hw
    -- one character of the text at a time
    obtain ⟨t₁, rfl, h₁⟩ := hR.cons hc h
    obtain ⟨t', rfl, h'⟩ := ih hw h₁
    exact ⟨t', rfl, h'⟩

/-- What follows a place goes on in the same way after skipping. -/
theorem Carries.next (hR : Carries R) (m : Mode) {c : Cursor} (h : R c.rest t) :
    R (c.skip m).rest (m.next t) := by
  rw [Cursor.skip_rest]
  unfold Mode.next
  split_ifs
  · exact hR.skip h
  · exact h

end Carries

/-! ### Reading related texts -/

/-- The same text stands before the rests of two texts. -/
def Shared (s s' t t' : List Char) : Prop := ∃ w, s = w ++ s' ∧ t = w ++ t'

theorem Shared.refl (s t : List Char) : Shared s s t t := ⟨[], rfl, rfl⟩

theorem Shared.trans {s₁ s₂ s₃ t₁ t₂ t₃ : List Char} (h : Shared s₁ s₂ t₁ t₂)
    (h' : Shared s₂ s₃ t₂ t₃) : Shared s₁ s₃ t₁ t₃ := by
  obtain ⟨u, hu, hu'⟩ := h
  obtain ⟨v, hv, hv'⟩ := h'
  exact ⟨u ++ v, by rw [hu, hv, List.append_assoc], by rw [hu', hv', List.append_assoc]⟩

/-- What was read at a place is read of a related text, too: nothing, or the same nodes up to their
texts, with related rests behind. Where nothing is skipped the texts that are read are the same. -/
def Carried (R : List Char → List Char → Prop) (m : Mode) (e : Expr) (c : Cursor) (t : List Char) :
    Option (Cursor × List ParseTree) → Prop
  | none => Refuses m e t
  | some (c', ts) => ∃ t', R c'.rest t' ∧
      Matches m e t t' (fun us => us.map ParseTree.bare = ts.map ParseTree.bare) ∧
      (m.skips = false ∨ e.flat = true → Shared c.rest c'.rest t t')

theorem Rule.tight_or_flat {r : Rule} (hr : r.legible = true) (m : Mode) :
    (m.inside r.flavor).skips = false ∨ r.body.flat = true := by
  rw [legible, Bool.or_eq_true] at hr
  refine hr.imp_left fun hflavor => ?_
  cases h : r.flavor with
  | spaced =>
    rw [h] at hflavor
    cases hflavor
  | tight | token => rfl

section Carried

variable {R : List Char → List Char → Prop} {m : Mode} {c c' : Cursor} {t : List Char}
  {o : Option (Cursor × List ParseTree)} {ts : List ParseTree}

/-- A quoted part is read as a whole in both texts or in none. -/
theorem Reads.carried_quoted {r : Rule} {mark : Char} {s : String} (hs : s.toList = [mark])
    (hmark : mark ∈ quoteMarks) (hr : r.body = quotedBody s) (hflavor : r.flavor = .token)
    (hm : m.skips = false) (hsteady : (Expr.sequence [.lit s, .rule r, .lit s]).steady = true)
    (hR : Carries R) (hR' : Carries (flip R))
    (h : Reads m (.sequence [.lit s, .rule r, .lit s]) c o) (hc : R c.rest t) :
    Carried R m (.sequence [.lit s, .rule r, .lit s]) c t o := by
  have hbackslash : mark ≠ '\\' := (by decide : ∀ y ∈ quoteMarks, y ≠ '\\') mark hmark
  have hmatches : ∀ {w : List Char} (_ : QuotedText mark w) (rest : List Char), _ :=
    fun hw rest => quotation_matches hs hbackslash hr hflavor hm hw rest
  obtain ⟨s, offset⟩ := c
  cases o with
  | some p =>
    obtain ⟨⟨s', offset'⟩, ts⟩ := p
    obtain ⟨w, hw, hrest, -⟩ := h.of_marked hs hr hflavor hm
    obtain rfl : s = mark :: (w ++ mark :: s') := by simpa using hrest
    -- the second text has the same quoted text
    obtain ⟨t', rfl, ht'⟩ := hR.quote hmark hw hc
    obtain ⟨o', us, hus, hfound⟩ := hmatches hw s' offset
    cases h.unique hus
    refine ⟨t', ht', (hmatches hw t').imp fun vs hvs => ?_, fun _ => ⟨mark :: (w ++ [mark]), ?_⟩⟩
    · exact ParseTree.map_bare_of_unplaced (hvs.trans hfound.symm)
    · simp
  | none =>
    intro offset'
    -- reading the second text comes to an answer, which cannot be a match
    obtain ⟨out, hout⟩ := Reads.total hsteady m ⟨t, offset'⟩
    cases out with
    | none => exact hout
    | some p =>
      obtain ⟨⟨t', _⟩, us⟩ := p
      obtain ⟨w, hw, hrest, -⟩ := hout.of_marked hs hr hflavor hm
      obtain rfl : t = mark :: (w ++ mark :: t') := by simpa using hrest
      -- the first text goes on with the same quoted text
      obtain ⟨s', rfl, -⟩ := hR'.quote hmark hw hc
      obtain ⟨o', vs, hvs, -⟩ := hmatches hw s' offset
      cases h.unique hvs

/-- The body of a rule is carried if it is code; quoted parts are passed over. -/
theorem Reads.carried_body {r : Rule} (hr : (Expr.rule r).ordinary = true) (hR : Carries R)
    (hR' : Carries (flip R)) (h : Reads (m.inside r.flavor) r.body c o) (hc : R c.rest t)
    (ih : r.body.ordinary = true → Carried R (m.inside r.flavor) r.body c t o) :
    Carried R (m.inside r.flavor) r.body c t o := by
  by_cases hdouble : r = .doubleQuoted
  · subst hdouble
    have hmark : "\"".toList = ['"'] := rfl
    exact h.carried_quoted hmark (by decide) rfl rfl rfl (steady_body .doubleQuoted) hR hR' hc
  by_cases hsingle : r = .singleQuoted
  · subst hsingle
    have hmark : "'".toList = ['\''] := rfl
    exact h.carried_quoted hmark (by decide) rfl rfl rfl (steady_body .singleQuoted) hR hR' hc
  rw [Expr.ordinary, decide_eq_true_eq] at hr
  exact ih (ordinary_body hr hdouble hsingle)

/-- Without skipping around a rule, nothing is skipped inside it. -/
theorem tight_inside (f : Flavor) (hm : m.skips = false) : (m.inside f).skips = false := by
  cases h : (m.inside f).skips with
  | false => rfl
  | true => exact absurd (Mode.skips_of_inside h) (by simp [hm])

/-- The node of a rule is carried with its parts. -/
theorem Carried.node {r : Rule} (hm : m.records = true)
    (hcarried : Carried R (m.inside r.flavor) r.body c t (some (c', ts))) :
    Carried R m (.rule r) c t (some (c', [c.nodeTo c' r ts])) := by
  obtain ⟨t', ht', hmatches, hsame⟩ := hcarried
  refine ⟨t', ht', (Matches.rule hm hmatches).imp ?_, fun htight => hsame (.inl ?_)⟩
  · rintro _ ⟨_, rfl, b, e, text, us, rfl, htext, hus⟩
    rw [Cursor.nodeTo, List.map_singleton, List.map_singleton, ParseTree.bare_node,
      ParseTree.bare_node, hus]
    split_ifs with hr
    · -- the text is the same because nothing was skipped in it
      obtain ⟨w, hw, hw'⟩ := hsame (Rule.tight_or_flat hr m)
      rw [Cursor.textTo_eq hw, List.append_cancel_right (htext.symm.trans hw')]
    · rfl
  · exact tight_inside _ (htight.resolve_right (by simp [Expr.flat]))

theorem Carried.bare {r : Rule} (hm : m.records = false)
    (hcarried : Carried R (m.inside r.flavor) r.body c t (some (c', ts))) :
    Carried R m (.rule r) c t (some (c', ts)) := by
  obtain ⟨t', ht', hmatches, hsame⟩ := hcarried
  refine ⟨t', ht', fun o => ?_, fun htight => hsame (.inl ?_)⟩
  · obtain ⟨o', us, hus, hfound⟩ := hmatches o
    exact ⟨o', us, .bare hm hus, hfound⟩
  · exact tight_inside _ (htight.resolve_right (by simp [Expr.flat]))

/-- Where nothing is read, nothing has to be carried. -/
theorem Carried.nothing {e : Expr} (hc : R c.rest t) (h : Matches m e t t (· = [])) :
    Carried R m e c t (some (c, [])) := by
  refine ⟨t, hc, h.imp ?_, fun _ => .refl _ _⟩
  rintro _ rfl
  rfl

/-- The same text is read of both, and no node. -/
theorem Carried.text {e : Expr} {w rest : List Char} {offset : Nat} (h : c.rest = w ++ rest)
    (hrest : R rest t) (hmatches : Matches m e (w ++ t) t (· = [])) :
    Carried R m e c (w ++ t) (some (⟨rest, offset⟩, [])) := by
  refine ⟨t, hrest, hmatches.imp ?_, fun _ => ⟨w, h, rfl⟩⟩
  rintro _ rfl
  rfl

/-- The nodes of two parts are carried, one part after the other. -/
theorem Carried.append {e : Expr} {t' : List Char} {us : List ParseTree} (ht' : R c'.rest t')
    (h : Matches m e t t' fun xs => ∃ vs ws, xs = vs ++ ws ∧
      vs.map ParseTree.bare = ts.map ParseTree.bare ∧ ws.map ParseTree.bare = us.map ParseTree.bare)
    (he : e.flat = false) (hsame : m.skips = false → Shared c.rest c'.rest t t') :
    Carried R m e c t (some (c', ts ++ us)) := by
  -- an expression with parts is not flat, so that it is the mode that does not skip
  refine ⟨t', ht', h.imp ?_, fun htight => hsame (htight.resolve_right (by simp [he]))⟩
  rintro _ ⟨vs, ws, rfl, hvs, hws⟩
  rw [List.map_append, List.map_append, hvs, hws]

/-- Letters in any case are read of both texts. -/
theorem Reads.carried_anyCase {u : List Char} (h : Reads m (.anyCase u) c o)
    (hu : u.all Char.isAlpha = true) (hR : Carries R) (hR' : Carries (flip R)) (hc : R c.rest t) :
    Carried R m (.anyCase u) c t o := by
  have hordinary : ∀ w : List Char, w.map Char.toLower = u → ∀ x ∈ w, Ordinary x := by
    intro w hw x hx
    have hx : x.toLower ∈ u := hw ▸ List.mem_map_of_mem hx
    exact ordinary_of_continues (continues_of_toLower (List.all_eq_true.mp hu _ hx))
  cases h with
  | @anyCase _ _ _ w rest h hw =>
    obtain ⟨t', rfl, ht'⟩ := hR.append (hordinary w hw) (h ▸ hc)
    exact .text h ht' fun o => ⟨_, [], .anyCase rfl hw, rfl⟩
  | anyCase_fails h =>
    -- a spelling in the second text would stand in the first one, by the converse relation
    refine fun o => .anyCase_fails fun hw => h ?_
    have hc : flip R (t.take u.length ++ t.drop u.length) c.rest := by
      rwa [List.take_append_drop]
    obtain ⟨s', hs', -⟩ := hR'.append (hordinary _ hw) hc
    have hlen := congrArg List.length hw
    rw [List.length_map] at hlen
    rw [hs', List.take_left' hlen, hw]

/-- **Related texts are read alike**: by induction on what is read. Each part begins at related
places. -/
theorem Reads.carried (hR : Carries R) (hR' : Carries (flip R)) {e : Expr} (h : Reads m e c o)
    (he : e.ordinary = true) (hc : R c.rest t) : Carried R m e c t o := by
  induction h generalizing t with
  | nothing => exact .nothing hc Matches.nothing
  | @atEnd m c h =>
    -- one text ends where the other does
    rw [h] at hc
    obtain rfl := hR.nil hc
    exact .nothing (h ▸ hc) Matches.atEnd
  | atEnd_fails h =>
    refine fun o => .atEnd_fails ?_
    rintro rfl
    exact h (hR'.nil hc)
  | @text m c w rest h =>
    have hw : ∀ x ∈ w, Ordinary x := by simpa [Expr.ordinary] using he
    obtain ⟨t', rfl, ht'⟩ := hR.append hw (h ▸ hc)
    exact .text h ht' Matches.text
  | @text_fails m c w h =>
    -- a text that stood in the second would stand in the first
    have hw : ∀ x ∈ w, Ordinary x := by simpa [Expr.ordinary] using he
    refine Refuses.text ?_
    rintro ⟨t', rfl⟩
    obtain ⟨s', hs', -⟩ := hR'.append hw hc
    exact h ⟨s', hs'.symm⟩
  | anyCase h hw => exact Reads.carried_anyCase (.anyCase h hw) he hR hR' hc
  | anyCase_fails h => exact Reads.carried_anyCase (.anyCase_fails h) he hR hR' hc
  | @char m c k x rest h hx =>
    have hk : k ≠ .any := by simpa [Expr.ordinary] using he
    have hordinary := ordinary_of_continues (continues_of_holds hk hx)
    obtain ⟨t', rfl, ht'⟩ := hR.cons hordinary (h ▸ hc)
    exact .text (w := [x]) h ht' (Matches.char hx)
  | @char_fails m c k h =>
    -- only a character of code could be taken, and it would be the first one of both texts
    have hk : k ≠ .any := by simpa [Expr.ordinary] using he
    refine fun o => .char_fails fun x hx => ?_
    by_contra hholds
    rw [Bool.not_eq_false] at hholds
    obtain ⟨t', rfl⟩ : ∃ t', t = x :: t' := ⟨t.tail, (List.eq_cons_of_mem_head? hx)⟩
    obtain ⟨s', hs', -⟩ := hR'.cons (ordinary_of_continues (continues_of_holds hk hholds)) hc
    rw [h x (by rw [hs']; rfl)] at hholds
    cases hholds
  -- inside a rule code is read again, or quoted text
  | node hm h ih => exact .node hm (h.carried_body he hR hR' hc fun hbody => ih hbody hc)
  | bare hm h ih => exact .bare hm (h.carried_body he hR hR' hc fun hbody => ih hbody hc)
  | rule_fails h ih => exact Refuses.rule (h.carried_body he hR hR' hc fun hbody => ih hbody hc)
  | @seq m c c₁ c₂ a b ts us ha hb iha ihb =>
    rw [Expr.ordinary, Bool.and_eq_true] at he
    obtain ⟨t₁, ht₁, hfirst, hsame₁⟩ := iha he.1 hc
    have hnext := hR.next m ht₁
    obtain ⟨t₂, ht₂, hsecond, hsame₂⟩ := ihb he.2 hnext
    refine .append ht₂ (hfirst.seq hsecond) rfl fun hm => ?_
    -- both texts have the second part directly behind the first, so that the whole is the same
    have hsecond := hsame₂ (.inl hm)
    rw [Cursor.skip_of_tight _ hm, Mode.next_of_tight hm] at hsecond
    exact (hsame₁ (.inl hm)).trans hsecond
  | seq_fails_left ha iha =>
    rw [Expr.ordinary, Bool.and_eq_true] at he
    exact Refuses.seq_left (iha he.1 hc)
  | @seq_fails_right m c c₁ a b ts ha hb iha ihb =>
    -- behind the first part the two texts are related once more after skipping
    rw [Expr.ordinary, Bool.and_eq_true] at he
    obtain ⟨t₁, ht₁, hfirst, -⟩ := iha he.1 hc
    have hnext := hR.next m ht₁
    exact Refuses.seq_right hfirst (ihb he.2 hnext)
  | choice_left ha iha =>
    -- an alternative of a flat expression is flat
    rw [Expr.ordinary, Bool.and_eq_true] at he
    obtain ⟨t', ht', hfirst, hsame⟩ := iha he.1 hc
    refine ⟨t', ht', .choice_left hfirst, fun htight => hsame (htight.imp_right fun hflat => ?_)⟩
    rw [Expr.flat, Bool.and_eq_true] at hflat
    exact hflat.1
  | @choice_right m c a b o ha hb iha ihb =>
    rw [Expr.ordinary, Bool.and_eq_true] at he
    have hfirst : Refuses m a t := iha he.1 hc
    have hsecond := ihb he.2 hc
    cases o with
    | none => exact Refuses.choice hfirst hsecond
    | some p =>
      obtain ⟨t', ht', hmatches, hsame⟩ := hsecond
      refine ⟨t', ht', .choice_right hfirst hmatches,
        fun htight => hsame (htight.imp_right fun hflat => ?_)⟩
      rw [Expr.flat, Bool.and_eq_true] at hflat
      exact hflat.2
  | optional_some ha iha =>
    -- an optional part is not flat, so the same text is promised only where nothing is skipped
    obtain ⟨t', ht', hmatches, hsame⟩ := iha he hc
    refine ⟨t', ht', .optional_some hmatches, fun htight => hsame (.inl ?_)⟩
    exact htight.resolve_right (by simp [Expr.flat])
  | optional_none ha iha => exact .nothing hc (Matches.optional_none (iha he hc))
  | many_some ha hmore iha ihmore =>
    obtain ⟨t₁, ht₁, hfirst, hsame₁⟩ := iha he hc
    obtain ⟨t₂, ht₂, hothers, hsame₂⟩ := ihmore he ht₁
    exact .append ht₂ (Matches.many_some hfirst hothers) rfl fun hm =>
      (hsame₁ (.inl hm)).trans (hsame₂ (.inl hm))
  | many_none ha iha => exact .nothing hc (Matches.many_none (iha he hc))
  | @more_some m c c₁ c₂ a ts us ha hmore iha ihmore =>
    have hnext := hR.next m hc
    obtain ⟨t₁, ht₁, hfirst, hsame₁⟩ := iha he hnext
    obtain ⟨t₂, ht₂, hothers, hsame₂⟩ := ihmore he ht₁
    refine .append ht₂ (Matches.more_some hfirst hothers) rfl fun hm => ?_
    have hfirst := hsame₁ (.inl hm)
    rw [Cursor.skip_of_tight _ hm, Mode.next_of_tight hm] at hfirst
    exact hfirst.trans (hsame₂ (.inl hm))
  | @more_none m c a ha iha =>
    have hnext := hR.next m hc
    exact .nothing hc (Matches.more_none (iha he hnext))
  | absent ha iha => exact .nothing hc (Matches.absent (iha he hc))
  | absent_fails ha iha =>
    obtain ⟨t', -, hmatches, -⟩ := iha he hc
    exact Refuses.absent hmatches

end Carried

end CatalogQuery.Grammar
