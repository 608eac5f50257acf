import CatalogQuery.Proofs.Grammar.Shape
import CatalogQuery.Proofs.Source.Zones

/-!
# Reading in step with the source

The normal form is read by rules of its own: where a comment ends, and where a quoted text, is
decided once by normalization and once more by the grammar. A place that reading reaches is `InStep`
with the source if both have come to the same place and the source is in code there. Skipping keeps
in step (`InStep.skip`), and so do tokens, string literals and all that expressions are made of
(`Reads.inStep`), if the comments of the source end with their lines.

So the string literals of a parse tree stand in the source as they stand in the normal form, byte
for byte (`parse_verbatim`, `parse_texts`).
-/

namespace CatalogQuery.Grammar

open Source (codeStops NormalForm Zone byteLength piece?)

/-! ### Places in step -/

namespace Cursor

/-- The place is one of a source, and the source is in code there: perhaps some blanks are left of
characters that have become blanks, or a comment is about to end. -/
inductive InStep (source : List Char) : Cursor → Prop where
  | code {u v ds : List Char} {k d offset : Nat} (hsource : source = u ++ v)
      (hoffset : byteLength u = offset + k) (h : NormalForm (.code d) v ds) :
      InStep source ⟨List.replicate k ' ' ++ ds, offset⟩
  | commentEnd {u v ds : List Char} {d offset : Nat} (hsource : source = u ++ v)
      (hoffset : byteLength u = offset) (hend : ∀ x ∈ ds.head?, x = '\n')
      (h : NormalForm (.comment d) v ds) : InStep source ⟨ds, offset⟩

/-- The place is one of a source, and the source is in a comment there. -/
inductive InComment (source : List Char) : Cursor → Prop where
  | intro {u v ds : List Char} {d offset : Nat} (hsource : source = u ++ v)
      (hoffset : byteLength u = offset) (h : NormalForm (.comment d) v ds) :
      InComment source ⟨ds, offset⟩

variable {source : List Char}

/-- Where neither a blank nor a line break stands, the source goes on in code. -/
theorem InStep.exists_code {x : Char} {cs : List Char} {offset : Nat}
    (h : InStep source ⟨x :: cs, offset⟩) (hblank : x ≠ ' ') (hnewline : x ≠ '\n') :
    ∃ u v d, source = u ++ v ∧ byteLength u = offset ∧ NormalForm (.code d) v (x :: cs) := by
  generalize hn : (x :: cs : List Char) = n at h
  cases h with
  | @code u v ds k d _ hsource hoffset h =>
    cases k with
    | zero =>
      obtain rfl : x :: cs = ds := hn
      exact ⟨u, v, d, hsource, hoffset, h⟩
    | succ k =>
      rw [List.replicate_succ] at hn
      -- inside the blanks that stand for a character there would be a blank
      exact absurd (List.cons.inj hn).1 hblank
  | commentEnd _ _ hend =>
    subst hn
    -- at the end of a comment there would be a line break
    exact absurd (hend x rfl) hnewline

/-- Code may be passed over up to where no word goes on. -/
theorem InStep.pass {c c' : Cursor} {w : List Char} (h : c.InStep source)
    (hrest : c.rest = w ++ c'.rest) (hoffset : c'.offset = c.offset + byteLength w)
    (hw : ∀ x ∈ w, x ∉ codeStops) (hends : Ends c'.rest ∨ ∀ x ∈ w, continues x = false) :
    c'.InStep source := by
  obtain ⟨rest, offset⟩ := c
  obtain ⟨r, offset'⟩ := c'
  obtain rfl : rest = w ++ r := hrest
  obtain rfl : offset' = offset + byteLength w := hoffset
  have hcode : ∀ {u v w : List Char} {d : Nat}, source = u ++ v → (∀ x ∈ w, x ∉ codeStops) →
      (Ends r ∨ ∀ x ∈ w, continues x = false) → NormalForm (.code d) v (w ++ r) →
      InStep source ⟨r, byteLength u + byteLength w⟩ := by
    rintro u _ w d rfl hw hends h
    obtain ⟨v, cs, d', rfl, hlen, h'⟩ := h.pass hw hends
    refine .code (k := 0) (List.append_assoc ..).symm ?_ h'
    rw [Source.byteLength_append, hlen, Nat.add_zero]
  cases w with
  | nil => exact h
  | cons x w =>
    obtain ⟨hx, hw'⟩ := List.forall_mem_cons.mp hw
    by_cases hnewline : x = '\n'
    · subst hnewline
      generalize hn : '\n' :: w ++ r = n at h
      cases h with
      | @code u v ds k d _ hsource hoffset h =>
        cases k with
        | zero =>
          obtain rfl : '\n' :: w ++ r = ds := hn
          rw [Nat.add_zero] at hoffset
          rw [← hoffset]
          exact hcode hsource hw hends h
        | succ k =>
          rw [List.replicate_succ] at hn
          cases (List.cons.inj hn).1
      | @commentEnd u _ _ _ _ hsource hoffset _ h =>
        subst hn
        -- the line feed ends the comment
        obtain ⟨cs, rfl, h', -⟩ := h.of_not_code (by rintro _ ⟨⟩)
        have hsource' : source = (u ++ ['\n']) ++ cs := by rw [hsource, List.append_assoc]; rfl
        have hin := hcode hsource' hw' (hends.imp_right fun h x hx => h x (by simp [hx])) h'
        rwa [Source.byteLength_append, Nat.add_assoc, hoffset] at hin
    · obtain ⟨u, v, d, hsource, rfl, h'⟩ := h.exists_code (by rintro rfl; exact hx (by decide)) hnewline
      exact hcode hsource hw hends h'

/-- A blank of code is passed over, also inside the blanks that stand for one character. -/
theorem InStep.blank {r : List Char} {offset : Nat} (h : InStep source ⟨' ' :: r, offset⟩) :
    InStep source ⟨r, offset + 1⟩ := by
  generalize hn : ' ' :: r = n at h
  cases h with
  | @code u v ds k d _ hsource hoffset h =>
    cases k with
    | zero =>
      obtain rfl : ' ' :: r = ds := hn
      generalize hn : ' ' :: r = n at h
      cases h with
      | nil => cases hn
      | @same _ _ cs _ _ h =>
        -- a blank of the source
        cases hn
        refine .code (u := u ++ [' ']) (k := 0) (by rw [hsource, List.append_assoc]; rfl) ?_ h
        rw [Source.byteLength_append, hoffset]
        rfl
      | @word _ _ l _ _ hl =>
        -- no word begins with a blank
        cases l with
        | nil => exact absurd (Source.two_le_length_of_mem_lowered [] hl) (by decide)
        | cons x l =>
          cases hn
          cases Source.continues_of_mem_lowered _ hl ' ' List.mem_cons_self
      | @blanked _ b cs ds h =>
        -- the first of the blanks that stand for `b`, which are as many as it has bytes
        obtain ⟨n, hsize⟩ := Nat.exists_eq_add_one.mpr b.utf8Size_pos
        rw [hsize, List.replicate_succ] at hn
        obtain rfl : r = List.replicate n ' ' ++ ds := (List.cons.inj hn).2
        refine .code (u := u ++ [b]) (by rw [hsource, List.append_assoc]; rfl) ?_ h
        rw [Source.byteLength_append, hoffset, Source.byteLength_cons, hsize]
        simp only [Source.byteLength_nil]
        omega
    | succ k =>
      -- one more of the blanks of the character before
      rw [List.replicate_succ] at hn
      obtain rfl : r = List.replicate k ' ' ++ ds := (List.cons.inj hn).2
      exact .code hsource (by omega) h
  | commentEnd _ _ hend =>
    subst hn
    cases hend ' ' rfl

/-! ### Skipping -/

theorem InComment.next {x : Char} {r : List Char} {offset : Nat}
    (h : InComment source ⟨x :: r, offset⟩) (hx : x ≠ '\n') :
    InComment source ⟨r, offset + x.utf8Size⟩ ∧ (x = '\r' → ∀ y ∈ r.head?, y = '\n') := by
  generalize hn : x :: r = n at h
  cases h with
  | @intro u v _ d _ hsource hoffset h =>
    subst hn
    obtain ⟨cs, rfl, h', hreturn⟩ := h.of_not_code (by rintro _ ⟨⟩)
    -- a comment of the source goes on up to a line feed
    rw [Zone.next, if_neg hx] at h'
    refine ⟨.intro (u := u ++ [x]) (by rw [hsource, List.append_assoc]; rfl) ?_ h', hreturn d rfl⟩
    rw [Source.byteLength_append, hoffset]
    rfl

theorem InComment.inStep {ds : List Char} {offset : Nat} (h : InComment source ⟨ds, offset⟩)
    (hend : ∀ x ∈ ds.head?, x = '\n') : InStep source ⟨ds, offset⟩ := by
  cases h with
  | intro hsource hoffset h => exact .commentEnd hsource hoffset hend h

/-- **Skipping stays in step**: the comments that are skipped are those of the source. -/
theorem inStep_skipFrom (inComment : Bool) (offset : Nat) (cs : List Char)
    (h : if inComment then InComment source ⟨cs, offset⟩ else InStep source ⟨cs, offset⟩) :
    InStep source ⟨(skipFrom inComment offset cs).1, (skipFrom inComment offset cs).2⟩ := by
  fun_induction skipFrom inComment offset cs with
  | case1 inComment offset =>
    cases inComment with
    | false => exact h
    | true => exact InComment.inStep h (by rintro _ ⟨⟩)
  -- a line feed ends the comment in both texts
  | case2 => exact InComment.inStep h (by rintro _ ⟨⟩; rfl)
  | case3 offset cs _ ih =>
    -- a carriage return ends it for the grammar, and so for the source if comments end their lines
    obtain ⟨h', hreturn⟩ := InComment.next h (by decide)
    exact ih (h'.inStep (hreturn rfl))
  | case4 offset c cs hnewline _ ih => exact ih (InComment.next h hnewline).1
  | case5 inComment offset c cs hcode hblank ih =>
    simp only [hcode] at h
    refine ih ?_
    -- a blank may stand for any character, a tab and a carriage return stand for themselves
    rcases hblank with rfl | rfl | rfl
    · exact InStep.blank h
    · exact InStep.pass (w := ['\t']) h rfl rfl (by decide) (.inr (by decide))
    · exact InStep.pass (w := ['\r']) h rfl rfl (by decide) (.inr (by decide))
  | case6 inComment offset cs hcode _ ih =>
    simp only [hcode] at h
    refine ih ?_
    -- what begins a comment of the text begins one of the source
    obtain ⟨u, v, d, hsource, rfl, h'⟩ := InStep.exists_code h (by decide) (by decide)
    obtain ⟨cs', rfl, hcomment⟩ := h'.of_mark (by decide) rfl
    refine .intro (u := u ++ ['#']) (by rw [hsource, List.append_assoc]; rfl) ?_ hcomment
    rw [Source.byteLength_append]
    rfl
  | case7 inComment offset hcode rest _ _ ih =>
    simp only [hcode] at h
    exact ih (InStep.pass (w := ['\\', '\n']) h rfl rfl (by decide) (.inr (by decide)))
  | case8 inComment offset hcode rest _ _ ih =>
    simp only [hcode] at h
    exact ih (InStep.pass (w := ['\\', '\r', '\n']) h rfl rfl (by decide) (.inr (by decide)))
  | case9 inComment offset hcode rest _ _ _ ih =>
    simp only [hcode] at h
    exact ih (InStep.pass (w := ['\\', '\r']) h rfl rfl (by decide) (.inr (by decide)))
  | case10 inComment offset cs hcode | case11 inComment offset c cs hcode =>
    simp only [hcode] at h
    exact h

/-- What is kept as it is, is the same in the source. -/
theorem InStep.kept {c c' : Cursor} {w : List Char} (h : c.InStep source)
    (hrest : c.rest = w ++ c'.rest) (hoffset : c'.offset = c.offset + byteLength w)
    (hhead : ∃ x u, w = x :: u ∧ x ≠ ' ' ∧ x ≠ '\n')
    (hkept : ∀ {d v}, NormalForm (.code d) v (w ++ c'.rest) →
      ∃ cs, v = w ++ cs ∧ NormalForm (.code d) cs c'.rest) :
    c'.InStep source ∧ piece? c.offset c'.offset source = some w := by
  obtain ⟨rest, offset⟩ := c
  obtain ⟨r, offset'⟩ := c'
  obtain rfl : rest = w ++ r := hrest
  obtain rfl : offset' = offset + byteLength w := hoffset
  obtain ⟨u, v, d, rfl, rfl, hcode⟩ : ∃ u v d, source = u ++ v ∧ byteLength u = offset ∧
      NormalForm (.code d) v (w ++ r) := by
    -- by its first character the text stands in code
    obtain ⟨x, w', rfl, hblank, hnewline⟩ := hhead
    exact h.exists_code hblank hnewline
  obtain ⟨cs, rfl, h'⟩ := hkept hcode
  refine ⟨.code (k := 0) (List.append_assoc ..).symm ?_ h', ?_⟩
  · rw [Source.byteLength_append, Nat.add_zero]
  · exact Source.piece?_eq_some_iff.mpr
      ⟨u, cs, (List.append_assoc ..).symm, rfl, Source.byteLength_append u w⟩

/-- A formatted string is passed over. -/
theorem InStep.formatted {c c' : Cursor} {letters w : List Char} {mark : Char}
    (h : c.InStep source) (hletters : ∀ x ∈ letters, continues x = true)
    (hmark : mark ∈ quoteMarks) (hw : QuotedText mark w)
    (hrest : c.rest = letters ++ (mark :: (w ++ [mark]) ++ c'.rest))
    (hoffset : c'.offset = c.offset + byteLength (letters ++ (mark :: (w ++ [mark])))) :
    c'.InStep source := by
  have hmarks : ∀ x ∈ quoteMarks, continues x = false ∧ x ≠ ' ' ∧ x ≠ '\n' := by decide
  have hstops : ∀ x ∈ codeStops, continues x = false := by decide
  -- the letters are code, and the quoted text behind them is kept
  have hafter : (c.advance letters (mark :: (w ++ [mark]) ++ c'.rest)).InStep source := by
    refine h.pass hrest rfl (fun x hx hstop => ?_) (.inl ?_)
    · have hcontinues := hletters x hx
      rw [hstops x hstop] at hcontinues
      cases hcontinues
    · rintro _ ⟨⟩
      exact (hmarks mark hmark).1
  refine (hafter.kept rfl ?_ ⟨mark, _, rfl, (hmarks mark hmark).2⟩ fun h => h.marked hmark hw).1
  rw [hoffset, Source.byteLength_append, ← Nat.add_assoc]
  rfl

theorem InStep.skip {c : Cursor} (h : c.InStep source) (m : Mode) : (c.skip m).InStep source := by
  unfold Cursor.skip
  split
  · exact inStep_skipFrom false c.offset c.rest h
  · exact h

end Cursor

/-- How far reading has come. -/
theorem Reads.offset_eq {m : Mode} {e : Expr} {c c' : Cursor} {ts : List ParseTree} {w : List Char}
    (h : Reads m e c (some (c', ts))) (hrest : c.rest = w ++ c'.rest) :
    c'.offset = c.offset + byteLength w := by
  obtain ⟨w', hrest', hoffset⟩ := h.before
  obtain rfl : w = w' := List.append_cancel_right (hrest.symm.trans hrest')
  exact hoffset

/-! ### Tokens -/

/-- The expression names no rule, and reads only characters that stay in code. -/
def Expr.plain : Expr → Bool
  | .nothing | .atEnd | .absent _ => true
  | .text t => t.all (· ∉ codeStops)
  | .char k => k != .any
  | .anyCase _ | .rule _ => false
  | .seq a b | .choice a b => a.plain && b.plain
  | .optional a | .many a | .more a => a.plain

/-- The expression reads up to where no word goes on. -/
def Expr.endsWord : Expr → Bool
  | .absent e | .many e => e == identChar
  | .seq _ b => b.endsWord
  | _ => false

section Tokens

variable {source : List Char} {m : Mode} {c c' : Cursor} {ts : List ParseTree}

theorem Reads.ends_of_endsWord {e : Expr} (hm : m.skips = false) (he : e.endsWord = true)
    (h : Reads m e c (some (c', ts))) : Ends c'.rest := by
  induction e generalizing c ts with
  | absent e =>
    obtain rfl : e = identChar := by simpa [Expr.endsWord] using he
    cases h with
    | absent h => exact h.ends_of_identChar
  | many e =>
    -- words are read as far as they go
    obtain rfl : e = identChar := by simpa [Expr.endsWord] using he
    cases h with
    | many_some _ hmore => exact (hmore.more_identChar hm).choose_spec.2.2
    | many_none h => exact h.ends_of_identChar
  | seq a b _ ihb =>
    cases h with
    | seq _ hb => exact ihb he hb
  | _ => cases he

theorem not_mem_codeStops_of_holds {k : CharClass} {x : Char} (hk : k ≠ .any)
    (hx : k.holds x = true) : x ∉ codeStops := by
  intro hmem
  have hall : ∀ x ∈ codeStops, x.isAlphanum = false ∧ x.isAlpha = false ∧ x.isDigit = false := by
    decide
  obtain ⟨halnum, halpha, hdigit⟩ := hall x hmem
  cases k with
  | any => exact hk rfl
  | digit => exact absurd (hdigit.symm.trans hx) (by simp)
  | letter => exact absurd (halpha.symm.trans hx) (by simp)
  | alphanumeric => exact absurd (halnum.symm.trans hx) (by simp)

/-- The second place is reached from the first over characters that leave code as it is. -/
def Cursor.Through (c c' : Cursor) : Prop :=
  ∃ w, c.rest = w ++ c'.rest ∧ c'.offset = c.offset + byteLength w ∧ ∀ x ∈ w, x ∉ codeStops

theorem Cursor.Through.refl (c : Cursor) : c.Through c := ⟨[], rfl, rfl, by simp⟩

theorem Cursor.Through.trans {c₁ c₂ c₃ : Cursor} (h : c₁.Through c₂) (h' : c₂.Through c₃) :
    c₁.Through c₃ := by
  obtain ⟨u, hu, hou, hall⟩ := h
  obtain ⟨v, hv, hov, hall'⟩ := h'
  refine ⟨u ++ v, by rw [hu, hv, List.append_assoc], ?_, List.forall_mem_append.mpr ⟨hall, hall'⟩⟩
  rw [hov, hou, Source.byteLength_append, Nat.add_assoc]

/-- A plain expression passes through code. -/
theorem Reads.through {e : Expr} (hm : m.skips = false) (he : e.plain = true)
    (h : Reads m e c (some (c', ts))) : c.Through c' := by
  generalize ho : some (c', ts) = o at h
  induction h generalizing c' ts with
  | nothing | atEnd | optional_none | many_none | more_none | absent =>
    cases ho
    exact .refl _
  | text h =>
    cases ho
    exact ⟨_, h, rfl, fun x hx => by simpa using List.all_eq_true.mp he x hx⟩
  | @char _ _ k x rest h hx =>
    cases ho
    refine ⟨[x], h, rfl, List.forall_mem_singleton.mpr ?_⟩
    exact not_mem_codeStops_of_holds (by simpa [Expr.plain] using he) hx
  | @seq m c c₁ _ _ _ _ _ _ _ iha ihb =>
    -- nothing is skipped between the parts
    cases ho
    obtain ⟨ha, hb⟩ := Bool.and_eq_true_iff.mp he
    exact (iha hm ha rfl).trans (c₁.skip_of_tight hm ▸ ihb hm hb rfl)
  | choice_left _ iha => exact iha hm (Bool.and_eq_true_iff.mp he).1 ho
  | choice_right _ _ _ ihb => exact ihb hm (Bool.and_eq_true_iff.mp he).2 ho
  | optional_some _ iha => exact iha hm he ho
  | many_some _ _ iha ihmore =>
    cases ho
    exact (iha hm he rfl).trans (ihmore hm he rfl)
  | @more_some m c _ _ _ _ _ _ _ iha ihmore =>
    cases ho
    exact Cursor.Through.trans (c.skip_of_tight hm ▸ iha hm he rfl) (ihmore hm he rfl)
  | anyCase | node | bare => cases he
  | atEnd_fails | text_fails | anyCase_fails | char_fails | rule_fails | seq_fails_left
  | seq_fails_right | absent_fails => cases ho

/-- **Tokens are read in step.** -/
theorem Reads.token_inStep {r : Rule} (hflavor : r.flavor = .token) (hplain : r.body.plain = true)
    (hends : r.body.endsWord = true)
    (h : Reads (m.inside r.flavor) r.body c (some (c', ts))) (hc : c.InStep source) :
    c'.InStep source := by
  have hm : (m.inside r.flavor).skips = false := by rw [hflavor]; rfl
  obtain ⟨w, hrest, hoffset, hw⟩ := h.through hm hplain
  exact hc.pass hrest hoffset hw (.inl (h.ends_of_endsWord hm hends))

end Tokens

/-! ### Expressions -/

/-- The rules that an expression is read by: no statements but expressions, and no parts of string
literals. -/
def Rule.inExpression : Rule → Bool
  | .program | .importStmt | .assignStmt | .assignOp | .stringMark | .doubleQuoted | .singleQuoted
  | .doubleBody | .singleBody => false
  | _ => true

/-- The expression reads marks of code, and rules for parts of expressions. -/
def Expr.marks : Expr → Bool
  | .nothing | .atEnd | .absent _ => true
  | .text t => t.all fun x => x ∉ codeStops ∧ continues x = false
  | .anyCase _ | .char _ => false
  | .rule r => r.inExpression
  | .seq a b | .choice a b => a.marks && b.marks
  | .optional a | .many a | .more a => a.marks

/-- A rule is read as a token, as a quoted text or part by part. -/
theorem inExpression_cases {r : Rule} (hr : r.inExpression = true) :
    (r.flavor = .token ∧ r.body.plain = true ∧ r.body.endsWord = true) ∨
      r = .string ∨ r = .formatted ∨ (r.flavor = .spaced ∧ r.body.marks = true) := by
  cases r <;> first | (cases hr; done) | decide

/-- The node is no string literal, or its text stands at its place in a source. -/
def ParseTree.Verbatim (source : List Char) (t : ParseTree) : Prop :=
  t.rule = .string → piece? t.start t.stop source = some t.text

/-- The rules of the parts of string literals. -/
def quoteRules : List Rule :=
  [.stringMark, .doubleQuoted, .singleQuoted, .doubleBody, .singleBody]

/-- The parts of string literals have no other parts. -/
theorem ParseTree.Branches.mem_quoteRules {r : Rule} {ts : List ParseTree} (h : Branches r ts)
    (hr : r ∈ .string :: .formatted :: quoteRules) : ∀ t ∈ ts, t.rule ∈ quoteRules := by
  simp only [quoteRules, List.mem_cons, List.not_mem_nil, or_false] at hr
  -- by rule: the two literals, the mark before a quotation, the quotations and their bodies
  rcases hr with rfl | rfl | rfl | rfl | rfl | rfl | rfl
  · obtain ⟨us, vs, rfl, hus, hvs⟩ := h.finds (by decide)
    refine List.forall_mem_append.mpr ⟨?_, ?_⟩
    · rcases hus with rfl | ⟨t, rfl, ht⟩ <;> simp [*, quoteRules]
    · rcases hvs with ⟨t, rfl, ht⟩ | ⟨t, rfl, ht⟩ <;> simp [ht, quoteRules]
  · obtain ⟨us, vs, rfl, hus, hvs⟩ := h.finds (by decide)
    refine List.forall_mem_append.mpr ⟨?_, ?_⟩
    · rcases hus with rfl | rfl | rfl <;> simp
    · rcases hvs with ⟨t, rfl, ht⟩ | ⟨t, rfl, ht⟩ <;> simp [ht, quoteRules]
  · rcases h.finds (by decide) with rfl | rfl <;> simp
  · obtain ⟨_, _, rfl, rfl, _, _, rfl, ⟨t, rfl, ht⟩, rfl⟩ := h.finds (by decide)
    simp [ht, quoteRules]
  · obtain ⟨_, _, rfl, rfl, _, _, rfl, ⟨t, rfl, ht⟩, rfl⟩ := h.finds (by decide)
    simp [ht, quoteRules]
  · rw [h.leaf rfl]
    simp
  · rw [h.leaf rfl]
    simp

theorem mem_of_tight {r : Rule} (h : r.flavor = .tight) : r ∈ .string :: .formatted :: quoteRules := by
  cases r <;> first | (cases h; done) | decide

/-- Below a part of a string literal there are such parts only. -/
theorem ParseTree.Grown.everywhere_quoteRules {t : ParseTree} (ht : t.Grown) :
    t.rule ∈ quoteRules → t.Everywhere (·.rule ∈ quoteRules) := by
  refine Grown.induct ?_ ht
  intro r b e text ts hgrown ih hr
  have hmem : r ∈ .string :: .formatted :: quoteRules :=
    List.mem_cons_of_mem _ (List.mem_cons_of_mem _ hr)
  exact .node hr fun t ht => ih t ht (hgrown.branches.mem_quoteRules hmem t ht)

theorem ParseTree.Grown.ne_of_mem_quoteRules {r : Rule} (hr : r ∉ quoteRules) {t : ParseTree}
    (ht : t.Grown) (h : t.rule ∈ quoteRules) : t.Everywhere (·.rule ≠ r) :=
  (ht.everywhere_quoteRules h).imp fun _ hu hrule => hr (hrule ▸ hu)

/-- No string literal is part of another. -/
theorem ParseTree.Grown.verbatim_of_mem_quoteRules {source : List Char} {t : ParseTree}
    (ht : t.Grown) (hr : t.rule ∈ quoteRules) : t.Everywhere (·.Verbatim source) :=
  (ht.ne_of_mem_quoteRules (r := .string) (by decide) hr).imp fun _ hne hstring =>
    absurd hstring hne

section Expressions

variable {source : List Char} {m : Mode} {c c' : Cursor} {ts : List ParseTree}

/-- A rule of expressions is read in step if its parts are. -/
theorem Reads.rule_inStep {r : Rule} (hm : m = .spaced) (hr : r.inExpression = true)
    (h : Reads (m.inside r.flavor) r.body c (some (c', ts)))
    (ih : r.flavor = .spaced → r.body.marks = true →
      c'.InStep source ∧ ∀ t ∈ ts, t.Everywhere (·.Verbatim source))
    (hc : c.InStep source) :
    c'.InStep source ∧ (c.nodeTo c' r ts).Everywhere (·.Verbatim source) := by
  subst hm
  have hparts : r.flavor = .tight → r ∈ .string :: .formatted :: quoteRules →
      ∀ t ∈ ts, t.Everywhere (·.Verbatim source) := by
    intro hflavor hr t ht
    have hrecords : (Mode.spaced.inside r.flavor).records = true := by rw [hflavor]; rfl
    have hgrown := h.grown hrecords
    have hbranches : ParseTree.Branches r ts :=
      ⟨hgrown, by simp [hflavor], fun _ => h.finds hrecords⟩
    exact (hgrown t ht).verbatim_of_mem_quoteRules (hbranches.mem_quoteRules hr t ht)
  rcases inExpression_cases hr with ⟨hflavor, hplain, hends⟩ | rfl | rfl | ⟨hflavor, hmarks⟩
  · refine ⟨h.token_inStep hflavor hplain hends hc, .node ?_ ?_⟩
    · rintro rfl
      cases hflavor
    · rw [h.eq_nil (by rw [hflavor]; rfl)]
      simp
  · -- a string literal is read as a whole
    obtain ⟨w, hrest, hw⟩ := Reads.of_string (m := .spaced) rfl h
    obtain ⟨hc', hpiece⟩ := hc.kept hrest (h.offset_eq hrest) hw.head fun h => h.quotation hw
    refine ⟨hc', .node (fun _ => ?_) (hparts rfl (by decide))⟩
    show piece? c.offset c'.offset source = some (c.textTo c')
    rw [Cursor.textTo_eq hrest]
    exact hpiece
  · obtain ⟨letters, mark, w, hletters, hmark, hw, hrest⟩ := Reads.of_formatted (m := .spaced) rfl h
    have hoffset := h.offset_eq (w := letters ++ (mark :: (w ++ [mark]))) (by
      rw [hrest, List.append_assoc])
    exact ⟨hc.formatted hletters hmark hw hrest hoffset,
      .node (by rintro ⟨⟩) (hparts rfl (by decide))⟩
  · obtain ⟨hc', hts⟩ := ih hflavor hmarks
    refine ⟨hc', .node ?_ hts⟩
    rintro rfl
    cases hflavor

/-- **Expressions are read in step**, and their string literals are the same in the source. -/
theorem Reads.inStep {e : Expr} (hm : m = .spaced) (he : e.marks = true)
    (h : Reads m e c (some (c', ts))) (hc : c.InStep source) :
    c'.InStep source ∧ ∀ t ∈ ts, t.Everywhere (·.Verbatim source) := by
  generalize ho : some (c', ts) = o at h
  induction h generalizing c' ts with
  | nothing | atEnd | optional_none | many_none | more_none | absent =>
    cases ho
    exact ⟨hc, by simp⟩
  | text h =>
    -- signs neither leave the code nor go on with a word
    cases ho
    have hall : ∀ x ∈ _, x ∉ codeStops ∧ continues x = false := fun x hx => by
      simpa using List.all_eq_true.mp he x hx
    exact ⟨hc.pass h rfl (fun x hx => (hall x hx).1) (.inr fun x hx => (hall x hx).2), by simp⟩
  | @node m c c' r ts hrecords h ih =>
    -- the parts of a spaced rule are in step; of the others `rule_inStep` says what they read
    cases ho
    have hbody : r.flavor = .spaced → r.body.marks = true →
        c'.InStep source ∧ ∀ t ∈ ts, t.Everywhere (·.Verbatim source) := by
      intro hflavor hmarks
      exact ih (by rw [hflavor]; exact hm) hmarks hc rfl
    obtain ⟨hc', hnode⟩ := h.rule_inStep hm he hbody hc
    exact ⟨hc', List.forall_mem_singleton.mpr hnode⟩
  | bare hrecords =>
    rw [hm] at hrecords
    cases hrecords
  | @seq m c c₁ _ _ _ _ _ _ _ iha ihb =>
    -- the reading stays in step over what is skipped between the parts
    cases ho
    obtain ⟨ha, hb⟩ := Bool.and_eq_true_iff.mp he
    obtain ⟨hc₁, hts⟩ := iha hm ha hc rfl
    obtain ⟨hc₂, hus⟩ := ihb hm hb (hc₁.skip m) rfl
    exact ⟨hc₂, List.forall_mem_append.mpr ⟨hts, hus⟩⟩
  | choice_left _ iha => exact iha hm (Bool.and_eq_true_iff.mp he).1 hc ho
  | choice_right _ _ _ ihb => exact ihb hm (Bool.and_eq_true_iff.mp he).2 hc ho
  | optional_some _ iha => exact iha hm he hc ho
  | many_some _ _ iha ihmore =>
    cases ho
    obtain ⟨hc₁, hts⟩ := iha hm he hc rfl
    obtain ⟨hc₂, hus⟩ := ihmore hm he hc₁ rfl
    exact ⟨hc₂, List.forall_mem_append.mpr ⟨hts, hus⟩⟩
  | @more_some m c _ _ _ _ _ _ _ iha ihmore =>
    cases ho
    obtain ⟨hc₁, hts⟩ := iha hm he (hc.skip m) rfl
    obtain ⟨hc₂, hus⟩ := ihmore hm he hc₁ rfl
    exact ⟨hc₂, List.forall_mem_append.mpr ⟨hts, hus⟩⟩
  | anyCase | char => cases he
  | atEnd_fails | text_fails | anyCase_fails | char_fails | rule_fails | seq_fails_left
  | seq_fails_right | absent_fails => cases ho

end Expressions

/-! ### Whole sources -/

/-- What stands between two places is a piece of the text. -/
theorem Cursor.Before.piece {cs : List Char} {c c' : Cursor} (h : Before ⟨cs, 0⟩ c)
    (h' : c.Before c') : piece? c.offset c'.offset cs = some (c.textTo c') := by
  obtain ⟨u, hu, hoffset⟩ := h
  obtain ⟨w, hw, hoffset'⟩ := h'
  rw [Cursor.textTo_eq hw, hoffset', hoffset]
  refine Source.piece?_eq_some_iff.mpr ⟨u, c'.rest, ?_, (Nat.zero_add _).symm, ?_⟩
  · rw [List.append_assoc, ← hw]
    exact hu
  · rw [Source.byteLength_append, Nat.zero_add]

/-- **The text of a node** is the piece of the text at its place. -/
theorem Reads.texts {cs : List Char} {m : Mode} {e : Expr} {c c' : Cursor} {ts : List ParseTree}
    (h : Reads m e c (some (c', ts))) (hc : Cursor.Before ⟨cs, 0⟩ c) :
    ∀ t ∈ ts, t.Everywhere fun t => piece? t.start t.stop cs = some t.text := by
  generalize ho : some (c', ts) = o at h
  induction h generalizing c' ts with
  | nothing | atEnd | text | anyCase | char | optional_none | many_none | more_none | absent =>
    cases ho
    simp
  | node _ h ih =>
    -- the text of a node is what its body has passed over
    cases ho
    exact List.forall_mem_singleton.mpr (.node (hc.piece h.before) (ih hc rfl))
  | bare _ _ ih => exact ih hc ho
  | @seq m c c₁ _ _ _ _ _ ha _ iha ihb =>
    cases ho
    have hc₁ := (hc.trans ha.before).trans (c₁.before_skip m)
    exact List.forall_mem_append.mpr ⟨iha hc rfl, ihb hc₁ rfl⟩
  | choice_left _ iha | optional_some _ iha => exact iha hc ho
  | choice_right _ _ _ ihb => exact ihb hc ho
  | many_some ha _ iha ihmore =>
    cases ho
    exact List.forall_mem_append.mpr ⟨iha hc rfl, ihmore (hc.trans ha.before) rfl⟩
  | @more_some m c _ _ _ _ _ ha _ iha ihmore =>
    cases ho
    have hskip := hc.trans (c.before_skip m)
    exact List.forall_mem_append.mpr ⟨iha hskip rfl, ihmore (hskip.trans ha.before) rfl⟩
  | atEnd_fails | text_fails | anyCase_fails | char_fails | rule_fails | seq_fails_left
  | seq_fails_right | absent_fails => cases ho

theorem parse_texts {cs : List Char} {tree : ParseTree} (h : parse cs = .ok tree) :
    tree.Everywhere fun t => piece? t.start t.stop cs = some t.text := by
  obtain ⟨c, hc⟩ := parse_eq_ok_iff.mp h
  exact hc.texts (.refl _) tree (List.mem_singleton_self tree)

/-- **The string literals of a statement** are the same in the source, if the comments of the source
end with their lines. -/
theorem parse_verbatim {source : List Char} {tree t : ParseTree}
    (hends : Source.commentsEndLines (.code 0) source = true)
    (h : parse (Source.normalizeChars source) = .ok tree)
    (hfilter : tree.children.filter (·.rule != .endOfInput) = [t]) (ht : t.rule = .exprStmt) :
    tree.Everywhere (·.Verbatim source) := by
  -- the source begins in code
  have hnormal : NormalForm (.code 0) source (Source.normalizeChars source) :=
    Source.normalizeFrom_normalForm hends (.inl rfl) (by simp)
  have hstart : Cursor.InStep source ⟨Source.normalizeChars source, 0⟩ :=
    .code (u := []) (k := 0) rfl rfl hnormal
  obtain ⟨c, hc⟩ := parse_eq_ok_iff.mp h
  cases hc with
  | bare hm => cases hm
  | node _ hbody =>
    obtain ⟨c₁, c₂, hc₁, hreads⟩ := Reads.program_statement (I := (·.InStep source))
      (fun c hc => hc.skip .spaced) (fun c c' us h hc => (h.inStep rfl (by decide) hc).1) hbody
      hstart hfilter ht
    have hstatement := (hreads.inStep rfl (by decide) hc₁).2 t (List.mem_singleton_self t)
    refine ParseTree.Everywhere.of_statement h hfilter (fun u hu hstring => ?_) hstatement
    rw [hstring] at hu
    rcases hu with hu | hu <;> cases hu

end CatalogQuery.Grammar
