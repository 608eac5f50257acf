import CatalogQuery.Proofs.Grammar.Shape
import CatalogQuery.Proofs.Source.Brackets

/-!
# Reading inside brackets

Inside brackets that are closed later on, reading never comes to the end of the text: whatever an
expression tries there, it tries at a place where a bracket is still to be closed. So the outcome
does not depend on what follows the last bracket. `Reads.kept` says this of a text with nothing
behind it and the same text in front of another: the expression reads the same, or nothing in both,
and what it finds differs in offsets only (`ParseTree.unplaced`).

How deep an expression leads is computed from its texts (`Expr.depthAfter`). Rules lead back to
where they began, and quoted texts are passed over as a whole.
-/

namespace CatalogQuery.Grammar

open Source (Closing Plain openBrackets closeBrackets plain_of_continues)

/-! ### Trees without offsets -/

namespace ParseTree

mutual

/-- The tree with all offsets forgotten. -/
def unplaced : ParseTree → ParseTree
  | .node rule _ _ text ts => .node rule 0 0 text (unplacedEach ts)

def unplacedEach : List ParseTree → List ParseTree
  | [] => []
  | t :: rest => t.unplaced :: unplacedEach rest

end

theorem unplacedEach_eq (ts : List ParseTree) : unplacedEach ts = ts.map unplaced := by
  induction ts with
  | nil => rfl
  | cons t ts ih => rw [unplacedEach, ih, List.map_cons]

theorem unplaced_node (r : Rule) (b e : Nat) (text : List Char) (ts : List ParseTree) :
    (node r b e text ts).unplaced = node r 0 0 text (ts.map unplaced) := by
  rw [unplaced, unplacedEach_eq]

@[simp] theorem rule_unplaced (t : ParseTree) : t.unplaced.rule = t.rule := by
  cases t
  rw [unplaced]
  rfl

@[simp] theorem text_unplaced (t : ParseTree) : t.unplaced.text = t.text := by
  cases t
  rw [unplaced]
  rfl

@[simp] theorem children_unplaced (t : ParseTree) :
    t.unplaced.children = t.children.map unplaced := by
  cases t
  rw [unplaced_node]
  rfl

end ParseTree

/-! ### Skipping inside brackets -/

/-- A character that is skipped by itself. -/
theorem skipped_of_blank {c : Char} (hc : c ∈ [' ', '\t', '\r']) (cs : List Char) :
    skipped (c :: cs) = skipped cs := by
  unfold skipped
  conv_lhs => unfold skipFrom
  rw [if_neg (by decide), if_pos (by simpa using hc)]
  exact skipFrom_rest false _ 0 cs

/-- Characters that are skipped by themselves. -/
theorem skipped_blanks {gap : List Char} (hgap : ∀ c ∈ gap, c ∈ [' ', '\t', '\r']) (cs : List Char) :
    skipped (gap ++ cs) = skipped cs := by
  induction gap with
  | nil => rfl
  | cons c gap ih =>
    obtain ⟨hc, hgap⟩ := List.forall_mem_cons.mp hgap
    rw [List.cons_append, skipped_of_blank hc, ih hgap]

/-- A backslash is skipped only with a carriage return behind it, because no line feed can be
there. -/
theorem skipped_backslash {k : Nat} {v : List Char} (h : Closing (k + 1) v) (tail : List Char) :
    skipped ('\\' :: (v ++ tail))
      = if v.head? = some '\r' then skipped (v ++ tail) else '\\' :: (v ++ tail) := by
  obtain ⟨x, u, rfl⟩ := h.exists_cons
  have hfeed : x ≠ '\n' := h.head_ne.2
  unfold skipped
  conv_lhs => unfold skipFrom
  rw [if_neg (by decide), if_neg (by decide), if_neg (by decide), if_pos rfl]
  split
  · rename_i heq
    -- there is no line feed before the brackets are closed
    exact absurd (List.cons.inj heq).1 hfeed
  · rename_i heq
    -- the carriage return would end the line
    obtain ⟨rfl, hu⟩ := List.cons.inj heq
    obtain ⟨y, r, rfl⟩ := (h.of_plain (by decide)).exists_cons
    exact absurd (List.cons.inj hu).1 (h.of_plain (by decide)).head_ne.2
  · rename_i heq
    obtain ⟨rfl, rfl⟩ := List.cons.inj heq
    rw [if_pos (List.head?_cons ..)]
    -- the carriage return is a blank by itself
    exact (skipFrom_rest false _ 0 _).trans (skipped_of_blank (by decide) _).symm
  · rename_i hreturn
    rw [if_neg]
    intro hx
    obtain rfl : x = '\r' := Option.some.inj hx
    exact hreturn (u ++ tail) rfl

/-- **Skipping stays inside the brackets**, so that it does not depend on what follows them. -/
theorem skipped_closing {k : Nat} {v : List Char} (h : Closing (k + 1) v) (tail : List Char) :
    Closing (k + 1) (skipped v) ∧ skipped (v ++ tail) = skipped v ++ tail := by
  generalize hj : k + 1 = j at h
  induction h generalizing k with
  | nil => cases hj
  | @closed _ c v hc h =>
    -- brackets and marks are solid: there is nothing to skip before them
    have hsolid : Solid c := (by decide : ∀ x ∈ closeBrackets, Solid x) c hc
    rw [List.cons_append, skipped_cons hsolid, skipped_cons hsolid]
    exact ⟨.closed hc h, rfl⟩
  | @opened _ c v hc h =>
    have hsolid : Solid c := (by decide : ∀ x ∈ openBrackets, Solid x) c hc
    rw [List.cons_append, skipped_cons hsolid, skipped_cons hsolid]
    exact ⟨.opened hc h, rfl⟩
  | @quoted _ mark w v hmark hw h =>
    have hsolid : Solid mark := (by decide : ∀ x ∈ quoteMarks, Solid x) mark hmark
    rw [List.cons_append, skipped_cons hsolid, skipped_cons hsolid]
    exact ⟨.quoted hmark hw h, rfl⟩
  | @plain j c v hc h ih =>
    obtain ⟨hskipped, htail⟩ := ih rfl
    -- of the plain characters, blanks are skipped, and a backslash may be
    by_cases hblank : c ∈ [' ', '\t', '\r']
    · rw [List.cons_append, skipped_of_blank hblank, skipped_of_blank hblank]
      exact ⟨hskipped, htail⟩
    · by_cases hbackslash : c = '\\'
      · subst hbackslash
        have hempty := skipped_backslash h []
        rw [List.append_nil] at hempty
        rw [List.cons_append, skipped_backslash h tail, hempty]
        split_ifs
        · exact ⟨hskipped, htail⟩
        · exact ⟨.plain hc h, rfl⟩
      · -- what is closed later on has no comment outside quoted texts
        have hhash : c ≠ '#' := (Closing.plain hc h).head_ne.1
        have hsolid : Solid c := by
          simp only [List.mem_cons, List.not_mem_nil, or_false, not_or] at hblank
          simp [Solid, hblank, hhash, hbackslash]
        rw [List.cons_append, skipped_cons hsolid, skipped_cons hsolid]
        exact ⟨.plain hc h, rfl⟩

theorem Mode.next_closing (m : Mode) {k : Nat} {v : List Char} (h : Closing (k + 1) v)
    (tail : List Char) : Closing (k + 1) (m.next v) ∧ m.next (v ++ tail) = m.next v ++ tail := by
  unfold Mode.next
  split
  · exact skipped_closing h tail
  · exact ⟨h, rfl⟩

/-- The place after skipping is inside the same brackets. -/
theorem Cursor.skip_closing {c : Cursor} {k : Nat} (m : Mode) (h : Closing (k + 1) c.rest)
    (tail : List Char) :
    Closing (k + 1) (c.skip m).rest ∧ m.next (c.rest ++ tail) = (c.skip m).rest ++ tail := by
  rw [Cursor.skip_rest]
  exact m.next_closing h tail

/-! ### How deep expressions lead -/

/-- The depth after a text that is read at a depth, if it is read inside brackets throughout. -/
def textDepth : List Char → Nat → Option Nat
  | [], n => some n
  | _ :: _, 0 => none
  | c :: t, n + 1 =>
    if c ∈ openBrackets then textDepth t (n + 2)
    else if c ∈ closeBrackets then textDepth t n
    else if Plain c then textDepth t (n + 1)
    else none

/-- The rule is read inside brackets. Programs and imports are not, and what stands between
quotation marks is not code. -/
def Rule.enclosed : Rule → Bool
  | .program | .importStmt | .endOfInput | .doubleBody | .singleBody => false
  | _ => true

/-- The depth after an expression that is read at a depth, if all of it is read inside brackets. -/
def Expr.depthAfter : Expr → Nat → Option Nat
  | _, 0 => none
  | .nothing, n + 1 => some (n + 1)
  | .atEnd, _ + 1 => none
  | .text t, n + 1 => textDepth t (n + 1)
  | .anyCase t, n + 1 => if t.all Char.isAlpha then some (n + 1) else none
  | .char k, n + 1 => if k = .any then none else some (n + 1)
  | .rule r, n + 1 => if r.enclosed then some (n + 1) else none
  | .seq a b, n + 1 => (a.depthAfter (n + 1)).bind b.depthAfter
  | .choice a b, n + 1 =>
    if a.depthAfter (n + 1) = b.depthAfter (n + 1) then a.depthAfter (n + 1) else none
  | .optional a, n + 1 | .many a, n + 1 | .more a, n + 1 =>
    if a.depthAfter (n + 1) = some (n + 1) then some (n + 1) else none
  | .absent a, n + 1 => if (a.depthAfter (n + 1)).isSome then some (n + 1) else none

/-- Rules lead back to where they began. -/
theorem depthAfter_body {r : Rule} (hr : r.enclosed = true) (hdouble : r ≠ .doubleQuoted)
    (hsingle : r ≠ .singleQuoted) : r.body.depthAfter 1 = some 1 := by
  cases r <;> first
    | exact absurd rfl hdouble
    | exact absurd rfl hsingle
    | (cases hr; done)
    | rfl

/-- A depth that is known under a condition. -/
theorem depth_of_guarded {p : Prop} [Decidable p] {n n' : Nat}
    (h : (if p then some n else none) = some n') : p ∧ n = n' :=
  (Option.ite_none_right_eq_some.mp h).imp_right Option.some.inj

/-- An expression that is repeated leads back to where it began. -/
theorem Expr.depthAfter_more {a : Expr} {n : Nat} (h : a.depthAfter (n + 1) = some (n + 1)) :
    (Expr.more a).depthAfter (n + 1) = some (n + 1) := by
  rw [Expr.depthAfter, if_pos h]

theorem Expr.exists_of_depthAfter {e : Expr} {n n' : Nat} (h : e.depthAfter n = some n') :
    ∃ m, n = m + 1 := by
  cases n with
  | zero =>
    rw [Expr.depthAfter] at h
    cases h
  | succ m => exact ⟨m, rfl⟩

/-- A text that begins the rest of some brackets, whatever follows them, is read inside them. -/
theorem Closing.of_prefix {t v tail : List Char} {k n n' : Nat} (ht : textDepth t n = some n')
    (hv : Closing (k + n) v) (h : t <+: v ++ tail) : ∃ r, v = t ++ r ∧ Closing (k + n') r := by
  induction t generalizing v n with
  | nil =>
    rw [textDepth] at ht
    cases ht
    exact ⟨v, rfl, hv⟩
  | cons c t ih =>
    cases n with
    | zero =>
      rw [textDepth] at ht
      cases ht
    | succ n =>
      -- a bracket is still to be closed, so that the first character is not one of `tail`
      obtain ⟨x, u, rfl⟩ := Closing.exists_cons hv
      obtain ⟨rfl, hprefix⟩ := List.cons_prefix_cons.mp h
      rw [textDepth] at ht
      split_ifs at ht with hopen hclose hplain
      · obtain ⟨r, rfl, hr⟩ := ih ht (hv.of_open hopen) hprefix
        exact ⟨r, rfl, hr⟩
      · obtain ⟨r, rfl, hr⟩ := ih ht (hv.of_close hclose) hprefix
        exact ⟨r, rfl, hr⟩
      · obtain ⟨r, rfl, hr⟩ := ih ht (hv.of_plain hplain) hprefix
        exact ⟨r, rfl, hr⟩

/-- Words do not lead out of brackets. -/
theorem textDepth_of_plain {t : List Char} (ht : ∀ c ∈ t, Plain c) (n : Nat) :
    textDepth t (n + 1) = some (n + 1) := by
  induction t with
  | nil => rfl
  | cons c t ih =>
    obtain ⟨hc, ht⟩ := List.forall_mem_cons.mp ht
    have hopen : c ∉ openBrackets := fun h => hc (by simp [h])
    have hclose : c ∉ closeBrackets := fun h => hc (by simp [h])
    rw [textDepth, if_neg hopen, if_neg hclose, if_pos hc, ih ht]

/-! ### Quoted texts -/

section Quoted

variable {m : Mode} {mark : Char} {s : String} {w : List Char}

/-- Each piece of quoted text is matched. -/
theorem QuotedText.pieces (hs : s.toList = [mark]) (hm : m.skips = false) (hw : QuotedText mark w) :
    ∃ us : List (List Char), w = us.flatMap id ∧
      ∀ u ∈ us, ∀ cs, Matches m (quotedPiece s) (u ++ cs) cs (· = []) := by
  induction hw with
  | nil => exact ⟨[], rfl, by simp⟩
  | escaped c _ ih =>
    obtain ⟨us, rfl, hus⟩ := ih
    refine ⟨['\\', c] :: us, rfl, List.forall_mem_cons.mpr ⟨fun cs => ?_, hus⟩⟩
    -- a backslash is taken with what it escapes
    refine .choice_left (.seq_nil (.text (t := ['\\'])) ?_)
    rw [Mode.next_of_tight hm]
    exact .char rfl
  | @plain c _ hc _ ih =>
    obtain ⟨us, rfl, hus⟩ := ih
    refine ⟨[c] :: us, rfl, List.forall_mem_cons.mpr ⟨fun cs => ?_, hus⟩⟩
    -- any other character fails as an escape, and stops no quoted text
    have hbackslash : ¬ ['\\'] <+: c :: cs := by
      rintro ⟨t, ht⟩
      cases ht
      exact hc (by simp [quoteStops])
    refine .choice_right (.seq_left (.text hbackslash)) (.seq_nil (.absent ?_) ?_)
    · exact quoteStop_refuses hs hc cs
    · rw [Mode.next_of_tight hm]
      exact .char rfl

theorem mark_matches (hs : s.toList = [mark]) (cs : List Char) :
    Matches m (.lit s) (mark :: cs) cs (· = []) := by
  rw [Expr.lit, hs]
  exact .text (t := [mark])

/-- The mark ends quoted text. -/
theorem quotedPiece_refuses (hs : s.toList = [mark]) (hmark : mark ≠ '\\') (cs : List Char) :
    Refuses m (quotedPiece s) (mark :: cs) := by
  refine .choice (.seq_left (.text ?_)) (.seq_left (.absent (.choice_left (mark_matches hs cs))))
  rintro ⟨t, ht⟩
  cases ht
  exact hmark rfl

/-- **Quoted text is matched between its marks**, whatever follows. -/
theorem quotation_matches {r : Rule} (hs : s.toList = [mark]) (hmark : mark ≠ '\\')
    (hr : r.body = quotedBody s) (hflavor : r.flavor = .token) (hm : m.skips = false)
    (hw : QuotedText mark w) (rest : List Char) :
    Matches m (.sequence [.lit s, .rule r, .lit s]) (mark :: (w ++ mark :: rest)) rest
      fun ts => ts.map ParseTree.unplaced = if m.records then [.node r 0 0 w []] else [] := by
  have htoken : ∀ m : Mode, (m.inside r.flavor).skips = false := by
    intro m
    rw [hflavor]
    rfl
  have hbody : Matches (m.inside r.flavor) r.body (w ++ mark :: rest) (mark :: rest) (· = []) := by
    obtain ⟨us, rfl, hus⟩ := hw.pieces hs (htoken m)
    rw [hr]
    exact matches_many (htoken m) hus (quotedPiece_refuses hs hmark rest)
  have hrule : Matches m (.rule r) (w ++ mark :: rest) (mark :: rest)
      fun ts => ts.map ParseTree.unplaced = if m.records then [.node r 0 0 w []] else [] := by
    cases hrecords : m.records with
    | true =>
      -- the body has no parts of its own, so that its node is a leaf
      refine (Matches.rule hrecords hbody).imp ?_
      rintro _ ⟨_, rfl, b, e, text, _, rfl, htext, rfl⟩
      rw [List.append_cancel_right htext, List.map_singleton, ParseTree.unplaced_node]
      rfl
    | false =>
      intro o
      obtain ⟨o', ts, hts, rfl⟩ := hbody o
      exact ⟨o', [], .bare hrecords hts, rfl⟩
  have hseq := (mark_matches hs (w ++ mark :: rest)).seq (by
    rw [Mode.next_of_tight hm]
    exact hrule.seq (by rw [Mode.next_of_tight hm]; exact mark_matches hs rest))
  refine hseq.imp ?_
  rintro _ ⟨_, _, rfl, rfl, ts, _, rfl, hts, rfl⟩
  rwa [List.nil_append, List.append_nil]

end Quoted

/-! ### Reading inside brackets -/

/-- What was read at a place is read there, too, if some text is put behind: nothing, or the same
nodes up to a place that is inside `k` brackets. -/
def Kept (m : Mode) (e : Expr) (cs tail : List Char) (k : Nat) :
    Option (Cursor × List ParseTree) → Prop
  | none => Refuses m e (cs ++ tail)
  | some (c, ts) => Closing k c.rest ∧ Matches m e (cs ++ tail) (c.rest ++ tail)
      fun us => us.map ParseTree.unplaced = ts.map ParseTree.unplaced

/-- A quoted part is read as a whole or not at all. -/
theorem Reads.kept_quoted {m : Mode} {r : Rule} {mark : Char} {s : String} {c : Cursor}
    {o : Option (Cursor × List ParseTree)} {k : Nat} (hs : s.toList = [mark])
    (hmark : mark ∈ quoteMarks) (hr : r.body = quotedBody s) (hflavor : r.flavor = .token)
    (hm : m.skips = false) (h : Reads m (.sequence [.lit s, .rule r, .lit s]) c o)
    (hc : Closing (k + 1) c.rest) (tail : List Char) :
    Kept m (.sequence [.lit s, .rule r, .lit s]) c.rest tail (k + 1) o := by
  obtain ⟨v, offset⟩ := c
  obtain ⟨x, u, rfl⟩ := Closing.exists_cons hc
  by_cases hx : x = mark
  · subst hx
    have hbackslash : x ≠ '\\' := (by decide : ∀ y ∈ quoteMarks, y ≠ '\\') x hmark
    -- a mark inside brackets opens a text that is closed inside them
    obtain ⟨w, v, rfl, hw, hv⟩ := Closing.of_mark hc hmark
    have hmatches := fun rest => quotation_matches hs hbackslash hr hflavor hm hw rest
    obtain ⟨o', ts, hts, hfound⟩ := hmatches v offset
    obtain rfl := h.unique hts
    have htext : x :: (w ++ x :: v) ++ tail = x :: (w ++ x :: (v ++ tail)) := by simp
    refine ⟨hv, ?_⟩
    rw [hfound, htext]
    exact hmatches (v ++ tail)
  · -- without the mark nothing is read, whatever stands behind
    have hrefuses : ∀ cs, Refuses m (.sequence [.lit s, .rule r, .lit s]) (x :: cs) := by
      intro cs
      refine .seq_left (.text ?_)
      rw [hs]
      rintro ⟨t, ht⟩
      cases ht
      exact hx rfl
    obtain rfl := h.unique (hrefuses u offset)
    exact hrefuses (u ++ tail)

section Kept

variable {m : Mode} {c c' : Cursor} {o : Option (Cursor × List ParseTree)} {ts : List ParseTree}
  {k : Nat}

/-- The body of a rule is kept if it is where its depth is known; quoted parts are passed over. -/
theorem Reads.kept_body {r : Rule} (hr : r.enclosed = true)
    (h : Reads (m.inside r.flavor) r.body c o) (hc : Closing (k + 1) c.rest) (tail : List Char)
    (ih : r.body.depthAfter 1 = some 1 → Kept (m.inside r.flavor) r.body c.rest tail (k + 1) o) :
    Kept (m.inside r.flavor) r.body c.rest tail (k + 1) o := by
  by_cases hdouble : r = .doubleQuoted
  · subst hdouble
    have hmark : "\"".toList = ['"'] := rfl
    exact h.kept_quoted hmark (by decide) rfl rfl rfl hc tail
  by_cases hsingle : r = .singleQuoted
  · subst hsingle
    have hmark : "'".toList = ['\''] := rfl
    exact h.kept_quoted hmark (by decide) rfl rfl rfl hc tail
  exact ih (depthAfter_body hr hdouble hsingle)

/-- The node of a rule is kept with its parts. -/
theorem Kept.node {r : Rule} {tail : List Char} (hm : m.records = true)
    (h : Reads (m.inside r.flavor) r.body c (some (c', ts)))
    (hkept : Kept (m.inside r.flavor) r.body c.rest tail k (some (c', ts))) :
    Kept m (.rule r) c.rest tail k (some (c', [c.nodeTo c' r ts])) := by
  obtain ⟨hclosing, hmatches⟩ := hkept
  obtain ⟨w, hw, -⟩ := h.before
  refine ⟨hclosing, (Matches.rule hm hmatches).imp ?_⟩
  rintro _ ⟨_, rfl, b, e, text, us, rfl, htext, hus⟩
  -- the texts of the two nodes end at the same rest
  rw [hw, List.append_assoc] at htext
  rw [← List.append_cancel_right htext, Cursor.nodeTo, Cursor.textTo_eq hw, List.map_singleton,
    List.map_singleton, ParseTree.unplaced_node, ParseTree.unplaced_node, hus]

theorem Kept.bare {r : Rule} {cs tail : List Char} (hm : m.records = false)
    (hkept : Kept (m.inside r.flavor) r.body cs tail k (some (c', ts))) :
    Kept m (.rule r) cs tail k (some (c', ts)) := by
  obtain ⟨hclosing, hmatches⟩ := hkept
  refine ⟨hclosing, fun o => ?_⟩
  obtain ⟨o', us, hus, hfound⟩ := hmatches o
  exact ⟨o', us, .bare hm hus, hfound⟩

/-- Where nothing is read, nothing has to be kept. -/
theorem Kept.nothing {e : Expr} {tail : List Char} (hc : Closing k c.rest)
    (h : Matches m e (c.rest ++ tail) (c.rest ++ tail) (· = [])) :
    Kept m e c.rest tail k (some (c, [])) := by
  refine ⟨hc, h.imp ?_⟩
  rintro _ rfl
  rfl

/-- The nodes of two parts are kept, one part after the other. -/
theorem Kept.append {e : Expr} {cs tail : List Char} {us : List ParseTree} (hc : Closing k c'.rest)
    (h : Matches m e (cs ++ tail) (c'.rest ++ tail) fun xs => ∃ vs ws, xs = vs ++ ws ∧
      vs.map ParseTree.unplaced = ts.map ParseTree.unplaced ∧
      ws.map ParseTree.unplaced = us.map ParseTree.unplaced) :
    Kept m e cs tail k (some (c', ts ++ us)) := by
  refine ⟨hc, h.imp ?_⟩
  rintro _ ⟨vs, ws, rfl, hvs, hws⟩
  rw [List.map_append, List.map_append, hvs, hws]

theorem continues_of_holds {k : CharClass} {x : Char} (hk : k ≠ .any) (hx : k.holds x = true) :
    continues x = true := by
  rw [continues, Char.isAlphanum]
  cases k with
  | any => exact absurd rfl hk
  | digit =>
    have hx : x.isDigit = true := hx
    simp [hx]
  | letter =>
    have hx : x.isAlpha = true := hx
    simp [hx]
  | alphanumeric =>
    have hx : x.isAlphanum = true := hx
    rw [Char.isAlphanum] at hx
    rw [hx]
    rfl

theorem plain_of_holds {k : CharClass} {x : Char} (hk : k ≠ .any) (hx : k.holds x = true) :
    Plain x :=
  plain_of_continues (continues_of_holds hk hx)

/-- Letters in any case are read inside brackets. -/
theorem Reads.kept_anyCase {t : List Char} (h : Reads m (.anyCase t) c o)
    (ht : t.all Char.isAlpha = true) (hc : Closing (k + 1) c.rest) (tail : List Char) :
    Kept m (.anyCase t) c.rest tail (k + 1) o := by
  have hplain : ∀ w : List Char, w.map Char.toLower = t → ∀ x ∈ w, Plain x := by
    intro w hw x hx
    have hx : x.toLower ∈ t := hw ▸ List.mem_map_of_mem hx
    exact plain_of_continues (continues_of_toLower (List.all_eq_true.mp ht _ hx))
  -- a spelling of the word is a plain text, and does not reach over the last bracket
  have hinside : ∀ w : List Char, w.map Char.toLower = t → w <+: c.rest ++ tail →
      ∃ r, c.rest = w ++ r ∧ Closing (k + 1) r := fun w hw hprefix =>
    Closing.of_prefix (textDepth_of_plain (hplain w hw) 0) hc hprefix
  cases h with
  | @anyCase _ _ _ w rest h hw =>
    have htext : c.rest ++ tail = w ++ (rest ++ tail) := by rw [h, List.append_assoc]
    obtain ⟨r, hr, hclosing⟩ := hinside w hw (by rw [htext]; exact List.prefix_append ..)
    obtain rfl : rest = r := List.append_cancel_left (h.symm.trans hr)
    exact ⟨hclosing, fun o => ⟨_, [], .anyCase htext hw, rfl⟩⟩
  | anyCase_fails h =>
    -- a spelling that was read of the longer text would stand in the shorter one, too
    refine fun o => .anyCase_fails fun hw => h ?_
    obtain ⟨r, hr, -⟩ := hinside _ hw (List.take_prefix ..)
    have hlen := congrArg List.length hw
    rw [List.length_map] at hlen
    generalize List.take t.length (c.rest ++ tail) = w at hw hr hlen
    rw [hr, ← hlen, List.take_left, hw]

/-- **What is read inside brackets does not depend on what follows them**: by induction on what is
read. Every part begins at a place where a bracket is still to be closed. -/
theorem Reads.kept {e : Expr} (h : Reads m e c o) {n n' : Nat}
    (he : e.depthAfter (n + 1) = some n') (hc : Closing (k + (n + 1)) c.rest) (tail : List Char) :
    Kept m e c.rest tail (k + n') o := by
  induction h generalizing k n n' with
  | nothing =>
    cases he
    exact .nothing hc Matches.nothing
  | atEnd | atEnd_fails =>
    cases he
  | @text m c t rest h =>
    -- what is read ends before `tail`
    have hprefix : t <+: c.rest ++ tail := by
      rw [h, List.append_assoc]
      exact List.prefix_append ..
    obtain ⟨r, hr, hclosing⟩ := Closing.of_prefix he hc hprefix
    obtain rfl : rest = r := List.append_cancel_left (h.symm.trans hr)
    refine ⟨hclosing, ?_⟩
    rw [h, List.append_assoc]
    exact Matches.text.imp (by rintro _ rfl; rfl)
  | text_fails h =>
    -- a text that reached into `tail` would lead out of the brackets
    refine Refuses.text fun hprefix => h ?_
    obtain ⟨r, hr, -⟩ := Closing.of_prefix he hc hprefix
    exact ⟨r, hr.symm⟩
  | anyCase h hw =>
    obtain ⟨hletters, rfl⟩ := depth_of_guarded he
    exact Reads.kept_anyCase (.anyCase h hw) hletters hc tail
  | anyCase_fails h =>
    obtain ⟨hletters, rfl⟩ := depth_of_guarded he
    exact Reads.kept_anyCase (.anyCase_fails h) hletters hc tail
  | @char m c kind x rest h hx =>
    simp only [Expr.depthAfter, Option.ite_none_left_eq_some] at he
    obtain ⟨hkind, rfl⟩ := he.imp_right Option.some.inj
    rw [h] at hc
    refine ⟨hc.of_plain (plain_of_holds hkind hx), ?_⟩
    rw [h]
    exact (Matches.char hx).imp (by rintro _ rfl; rfl)
  | @char_fails m c kind h =>
    -- the text does not end here, so that the character that is refused is the same
    obtain ⟨x, u, hu⟩ := Closing.exists_cons hc
    rw [hu] at h ⊢
    exact fun _ => .char_fails h
  | node hm h ih =>
    -- a rule leads back to the depth it began at
    obtain ⟨hr, rfl⟩ := depth_of_guarded he
    exact .node hm h (h.kept_body hr hc tail fun hbody => ih hbody hc)
  | bare hm h ih =>
    obtain ⟨hr, rfl⟩ := depth_of_guarded he
    exact .bare hm (h.kept_body hr hc tail fun hbody => ih hbody hc)
  | rule_fails h ih =>
    obtain ⟨hr, rfl⟩ := depth_of_guarded he
    exact Refuses.rule (h.kept_body hr hc tail fun hbody => ih hbody hc)
  | @seq m c c₁ c₂ a b ts us ha hb iha ihb =>
    obtain ⟨n₁, hn₁, hn₂⟩ := Option.bind_eq_some_iff.mp he
    obtain ⟨hc₁, hfirst⟩ := iha hn₁ hc
    -- the second part begins inside a bracket, too
    obtain ⟨j, rfl⟩ := Expr.exists_of_depthAfter hn₂
    obtain ⟨hnext, htail⟩ := Cursor.skip_closing m hc₁ tail
    obtain ⟨hc₂, hsecond⟩ := ihb hn₂ hnext
    exact .append hc₂ (hfirst.seq (htail ▸ hsecond))
  | seq_fails_left ha iha =>
    obtain ⟨n₁, hn₁, -⟩ := Option.bind_eq_some_iff.mp he
    exact Refuses.seq_left (iha hn₁ hc)
  | @seq_fails_right m c c₁ a b ts ha hb iha ihb =>
    -- as far as the first part the two readings agree, and the second one fails in both
    obtain ⟨n₁, hn₁, hn₂⟩ := Option.bind_eq_some_iff.mp he
    obtain ⟨hc₁, hfirst⟩ := iha hn₁ hc
    obtain ⟨j, rfl⟩ := Expr.exists_of_depthAfter hn₂
    obtain ⟨hnext, htail⟩ := Cursor.skip_closing m hc₁ tail
    have hsecond := ihb hn₂ hnext
    exact Refuses.seq_right hfirst (htail ▸ hsecond)
  | choice_left ha iha =>
    obtain ⟨-, he⟩ := Option.ite_none_right_eq_some.mp he
    obtain ⟨hc₁, hfirst⟩ := iha he hc
    exact ⟨hc₁, .choice_left hfirst⟩
  | @choice_right m c a b o ha hb iha ihb =>
    -- the first alternative fails with `tail` as well, and both lead to the same depth
    obtain ⟨hsame, he⟩ := Option.ite_none_right_eq_some.mp he
    have hfirst : Refuses m a (c.rest ++ tail) := iha he hc
    have hsecond := ihb (hsame ▸ he) hc
    cases o with
    | none => exact Refuses.choice hfirst hsecond
    | some p => exact ⟨hsecond.1, .choice_right hfirst hsecond.2⟩
  | optional_some ha iha =>
    -- what may be read any number of times leads back to the depth it began at
    obtain ⟨ha', rfl⟩ := depth_of_guarded he
    obtain ⟨hc₁, hfirst⟩ := iha ha' hc
    exact ⟨hc₁, .optional_some hfirst⟩
  | optional_none ha iha =>
    obtain ⟨ha', rfl⟩ := depth_of_guarded he
    exact .nothing hc (Matches.optional_none (iha ha' hc))
  | many_some ha hmore iha ihmore =>
    obtain ⟨ha', rfl⟩ := depth_of_guarded he
    obtain ⟨hc₁, hfirst⟩ := iha ha' hc
    obtain ⟨hc₂, hothers⟩ := ihmore (Expr.depthAfter_more ha') hc₁
    exact .append hc₂ (Matches.many_some hfirst hothers)
  | many_none ha iha =>
    obtain ⟨ha', rfl⟩ := depth_of_guarded he
    exact .nothing hc (Matches.many_none (iha ha' hc))
  | @more_some m c c₁ c₂ a ts us ha hmore iha ihmore =>
    obtain ⟨ha', rfl⟩ := depth_of_guarded he
    obtain ⟨hnext, htail⟩ := Cursor.skip_closing m hc tail
    obtain ⟨hc₁, hfirst⟩ := iha ha' hnext
    obtain ⟨hc₂, hothers⟩ := ihmore (Expr.depthAfter_more ha') hc₁
    exact .append hc₂ (Matches.more_some (htail ▸ hfirst) hothers)
  | @more_none m c a ha iha =>
    obtain ⟨ha', rfl⟩ := depth_of_guarded he
    obtain ⟨hnext, htail⟩ := Cursor.skip_closing m hc tail
    have hend := iha ha' hnext
    exact .nothing hc (Matches.more_none (htail ▸ hend))
  | absent ha iha =>
    -- what is only looked at may lead to any depth
    obtain ⟨ha', rfl⟩ := depth_of_guarded he
    obtain ⟨j, hj⟩ := Option.isSome_iff_exists.mp ha'
    exact .nothing hc (Matches.absent (iha hj hc))
  | absent_fails ha iha =>
    obtain ⟨ha', -⟩ := depth_of_guarded he
    obtain ⟨j, hj⟩ := Option.isSome_iff_exists.mp ha'
    exact Refuses.absent (iha hj hc).2

end Kept

end CatalogQuery.Grammar
