import CatalogQuery.Proofs.Grammar.Totality

/-!
# Matching known texts

To show that a known text is matched, its offsets do not matter. `Matches m e cs cs' P` says that
`e` matches at the beginning of `cs`, wherever that is, leaves `cs'`, and finds nodes with the
property `P`; `Refuses m e cs` says that it matches nothing there. Each operator of expressions has
a lemma about each.

Most refusals are seen from the first character: `Expr.begins` computes whether a match may begin
with a character, and `refuses_of_head` is the general refusal.
-/

namespace CatalogQuery.Grammar

/-! ### What is skipped -/

/-- What is left after skipping does not depend on the offset. -/
theorem skipFrom_rest (inComment : Bool) (o o' : Nat) (cs : List Char) :
    (skipFrom inComment o cs).1 = (skipFrom inComment o' cs).1 := by
  fun_induction skipFrom inComment o cs generalizing o' with
  | case1 => rfl
  | case2 => conv_rhs => unfold skipFrom
             simp
  | case3 _ _ h ih => conv_rhs => unfold skipFrom
                      simp [ih (o' + 1)]
  | case4 _ c _ h h' ih => conv_rhs => unfold skipFrom
                           simp [h, h', ih (o' + c.utf8Size)]
  | case5 _ _ _ _ h h' ih => conv_rhs => unfold skipFrom
                             simp_all [ih (o' + 1)]
  | case6 _ _ _ h h' ih => conv_rhs => unfold skipFrom
                           simp [h, ih (o' + 1)]
  | case7 _ _ h rest h' h'' ih => conv_rhs => unfold skipFrom
                                  simp [h, ih (o' + 2)]
  | case8 _ _ h rest h' h'' ih => conv_rhs => unfold skipFrom
                                  simp [h, ih (o' + 3)]
  | case9 _ _ h rest hne h' h'' ih =>
    conv_rhs => unfold skipFrom
    rw [if_neg h, if_neg h', if_neg h'', if_pos rfl]
    split <;> simp_all
    exact ih _
  | case10 => conv_rhs => unfold skipFrom
              simp_all
  | case11 => conv_rhs => unfold skipFrom
              simp_all

/-- A text without the blanks and comments in front. -/
def skipped (cs : List Char) : List Char := (skipFrom false 0 cs).1

/-- Where the next part of a sequence begins. -/
def Mode.next (m : Mode) (cs : List Char) : List Char := if m.skips then skipped cs else cs

theorem Cursor.skip_rest (c : Cursor) (m : Mode) : (c.skip m).rest = m.next c.rest := by
  unfold Cursor.skip Mode.next
  split
  · exact skipFrom_rest false c.offset 0 c.rest
  · rfl

/-- A character that is not skipped. -/
def Solid (c : Char) : Prop := c ∉ [' ', '\t', '\r', '#', '\\']

instance (c : Char) : Decidable (Solid c) := inferInstanceAs (Decidable (c ∉ _))

theorem skipFrom_solid {c : Char} (hc : Solid c) (o : Nat) (cs : List Char) :
    skipFrom false o (c :: cs) = (c :: cs, o) := by
  simp only [Solid, List.mem_cons, List.not_mem_nil, or_false, not_or] at hc
  unfold skipFrom
  simp [hc]

theorem skipped_cons {c : Char} (hc : Solid c) (cs : List Char) : skipped (c :: cs) = c :: cs := by
  rw [skipped, skipFrom_solid hc]

@[simp] theorem skipped_blank (cs : List Char) : skipped (' ' :: cs) = skipped cs := by
  unfold skipped
  conv_lhs => unfold skipFrom
  exact skipFrom_rest false 1 0 cs

/-- Behind a backslash a line break is skipped. -/
theorem skipped_feed (cs : List Char) : skipped ('\\' :: '\n' :: cs) = skipped cs := by
  unfold skipped
  conv_lhs => unfold skipFrom
  exact skipFrom_rest false 2 0 cs

theorem Mode.next_of_solid (m : Mode) {cs : List Char} (h : ∀ c ∈ cs.head?, Solid c) :
    m.next cs = cs := by
  unfold next
  split
  · cases cs with
    | nil => rfl
    | cons c cs => exact skipped_cons (h c rfl) cs
  · rfl

theorem Mode.next_of_tight {m : Mode} (hm : m.skips = false) (cs : List Char) : m.next cs = cs := by
  rw [next, hm]
  rfl

/-! ### Matching -/

/-- An expression matches at the beginning of a text wherever it stands, leaves the rest `cs'`, and
finds nodes with the property `P`. -/
def Matches (m : Mode) (e : Expr) (cs cs' : List Char) (P : List ParseTree → Prop) : Prop :=
  ∀ o, ∃ o' ts, Reads m e ⟨cs, o⟩ (some (⟨cs', o'⟩, ts)) ∧ P ts

/-- An expression does not match at the beginning of a text wherever it stands. -/
def Refuses (m : Mode) (e : Expr) (cs : List Char) : Prop := ∀ o, Reads m e ⟨cs, o⟩ none

/-- There is one node, with the property `P`. -/
def Found (P : ParseTree → Prop) (ts : List ParseTree) : Prop := ∃ t, ts = [t] ∧ P t

section Matches

variable {m : Mode} {a b : Expr} {cs cs₁ cs₂ : List Char} {P Q : List ParseTree → Prop}

theorem Cursor.skip_mk (cs : List Char) (o : Nat) (m : Mode) :
    ∃ o', Cursor.skip ⟨cs, o⟩ m = ⟨m.next cs, o'⟩ :=
  ⟨(Cursor.skip ⟨cs, o⟩ m).offset, by rw [← Cursor.skip_rest ⟨cs, o⟩ m]⟩

namespace Matches

theorem imp (h : Matches m a cs cs₁ P) (hPQ : ∀ ts, P ts → Q ts) : Matches m a cs cs₁ Q := by
  intro o
  obtain ⟨o', ts, hts, hP⟩ := h o
  exact ⟨o', ts, hts, hPQ ts hP⟩

theorem nothing : Matches m .nothing cs cs (· = []) := fun _ => ⟨_, [], .nothing, rfl⟩

theorem atEnd : Matches m .atEnd [] [] (· = []) := fun _ => ⟨_, [], .atEnd rfl, rfl⟩

theorem text {t : List Char} : Matches m (.text t) (t ++ cs) cs (· = []) :=
  fun _ => ⟨_, [], .text rfl, rfl⟩

theorem char {k : CharClass} {c : Char} (hc : k.holds c = true) :
    Matches m (.char k) (c :: cs) cs (· = []) :=
  fun _ => ⟨_, [], .char rfl hc, rfl⟩

/-- The node of a rule has the text that was matched. -/
theorem rule {r : Rule} (hm : m.records = true) (h : Matches (m.inside r.flavor) r.body cs cs₁ P) :
    Matches m (.rule r) cs cs₁
      (Found fun t => ∃ b e text ts, t = .node r b e text ts ∧ cs = text ++ cs₁ ∧ P ts) := by
  intro o
  obtain ⟨o', ts, hts, hP⟩ := h o
  obtain ⟨w, hw, -⟩ := hts.before
  refine ⟨o', _, .node hm hts, _, rfl, _, _, _, ts, rfl, ?_, hP⟩
  show cs = List.take (cs.length - cs₁.length) cs ++ cs₁
  obtain rfl : cs = w ++ cs₁ := hw
  simp

theorem seq (ha : Matches m a cs cs₁ P) (hb : Matches m b (m.next cs₁) cs₂ Q) :
    Matches m (.seq a b) cs cs₂ fun ts => ∃ us vs, ts = us ++ vs ∧ P us ∧ Q vs := by
  intro o
  obtain ⟨o₁, us, hus, hP⟩ := ha o
  obtain ⟨o₁', ho₁⟩ := Cursor.skip_mk cs₁ o₁ m
  obtain ⟨o₂, vs, hvs, hQ⟩ := hb o₁'
  exact ⟨o₂, us ++ vs, .seq hus (ho₁ ▸ hvs), us, vs, rfl, hP, hQ⟩

theorem choice_left (ha : Matches m a cs cs₁ P) : Matches m (.choice a b) cs cs₁ P := by
  intro o
  obtain ⟨o', ts, hts, hP⟩ := ha o
  exact ⟨o', ts, .choice_left hts, hP⟩

theorem choice_right (ha : Refuses m a cs) (hb : Matches m b cs cs₁ P) :
    Matches m (.choice a b) cs cs₁ P := by
  intro o
  obtain ⟨o', ts, hts, hP⟩ := hb o
  exact ⟨o', ts, .choice_right (ha o) hts, hP⟩

theorem optional_some (ha : Matches m a cs cs₁ P) : Matches m (.optional a) cs cs₁ P := by
  intro o
  obtain ⟨o', ts, hts, hP⟩ := ha o
  exact ⟨o', ts, .optional_some hts, hP⟩

theorem optional_none (ha : Refuses m a cs) : Matches m (.optional a) cs cs (· = []) :=
  fun o => ⟨o, [], .optional_none (ha o), rfl⟩

theorem many_none (ha : Refuses m a cs) : Matches m (.many a) cs cs (· = []) :=
  fun o => ⟨o, [], .many_none (ha o), rfl⟩

theorem more_none (ha : Refuses m a (m.next cs)) : Matches m (.more a) cs cs (· = []) := by
  intro o
  obtain ⟨o', ho'⟩ := Cursor.skip_mk cs o m
  exact ⟨o, [], .more_none (ho' ▸ ha o'), rfl⟩

theorem many_some (ha : Matches m a cs cs₁ P) (hmore : Matches m (.more a) cs₁ cs₂ Q) :
    Matches m (.many a) cs cs₂ fun ts => ∃ us vs, ts = us ++ vs ∧ P us ∧ Q vs := by
  intro o
  obtain ⟨o₁, us, hus, hP⟩ := ha o
  obtain ⟨o₂, vs, hvs, hQ⟩ := hmore o₁
  exact ⟨o₂, us ++ vs, .many_some hus hvs, us, vs, rfl, hP, hQ⟩

theorem more_some (ha : Matches m a (m.next cs) cs₁ P) (hmore : Matches m (.more a) cs₁ cs₂ Q) :
    Matches m (.more a) cs cs₂ fun ts => ∃ us vs, ts = us ++ vs ∧ P us ∧ Q vs := by
  intro o
  obtain ⟨o', ho'⟩ := Cursor.skip_mk cs o m
  obtain ⟨o₁, us, hus, hP⟩ := ha o'
  obtain ⟨o₂, vs, hvs, hQ⟩ := hmore o₁
  exact ⟨o₂, us ++ vs, .more_some (ho' ▸ hus) hvs, us, vs, rfl, hP, hQ⟩

theorem absent (ha : Refuses { m with records := false } a cs) :
    Matches m (.absent a) cs cs (· = []) :=
  fun o => ⟨o, [], .absent (ha o), rfl⟩

end Matches

/-- The end of the input becomes a node. -/
theorem endOfInput_matches :
    Matches .spaced (.rule .endOfInput) [] [] (Found fun t => t.rule = .endOfInput) := by
  refine (Matches.rule rfl .atEnd).imp ?_
  rintro _ ⟨_, rfl, b, e, text, ts, rfl, -⟩
  exact ⟨_, rfl, rfl⟩

/-! ### Refusing -/

namespace Refuses

theorem text {t : List Char} (h : ¬ t <+: cs) : Refuses m (.text t) cs := fun _ => .text_fails h

theorem rule {r : Rule} (h : Refuses (m.inside r.flavor) r.body cs) : Refuses m (.rule r) cs :=
  fun o => .rule_fails (h o)

theorem seq_left (ha : Refuses m a cs) : Refuses m (.seq a b) cs := fun o => .seq_fails_left (ha o)

theorem seq_right (ha : Matches m a cs cs₁ P) (hb : Refuses m b (m.next cs₁)) :
    Refuses m (.seq a b) cs := by
  intro o
  obtain ⟨o₁, us, hus, -⟩ := ha o
  obtain ⟨o₁', ho₁⟩ := Cursor.skip_mk cs₁ o₁ m
  exact .seq_fails_right hus (ho₁ ▸ hb o₁')

theorem choice (ha : Refuses m a cs) (hb : Refuses m b cs) : Refuses m (.choice a b) cs :=
  fun o => .choice_right (ha o) (hb o)

theorem absent (ha : Matches { m with records := false } a cs cs₁ P) :
    Refuses m (.absent a) cs := by
  intro o
  obtain ⟨o₁, us, hus, -⟩ := ha o
  exact .absent_fails hus

end Refuses

end Matches

/-! ### The first character -/

/-- Whether a match may begin with a character, given which rules may. -/
def Expr.beginsBy (rules : Rule → Char → Bool) : Expr → Char → Bool
  | .nothing, _ | .atEnd, _ | .absent _, _ => false
  | .text t, c => t.head? == some c
  | .anyCase t, c => t.head? == some c.toLower
  | .char k, c => k.holds c
  | .rule r, c => rules r c
  | .seq a b, c => a.beginsBy rules c || (a.nullable && b.beginsBy rules c)
  | .choice a b, c => a.beginsBy rules c || b.beginsBy rules c
  | .optional a, c | .many a, c | .more a, c => a.beginsBy rules c

/-- Whether a match of a rule may begin with a character, as far as `n` rules inside each other
tell. -/
def Rule.begins : (n : Nat) → Rule → Char → Bool
  | 0, _, _ => true
  | n + 1, r, c => r.body.beginsBy (begins n) c

/-- Whether a match may begin with a character, as far as `n` rules inside each other tell. -/
def Expr.begins (n : Nat) (e : Expr) (c : Char) : Bool := e.beginsBy (Rule.begins n) c

/-- Nothing is skipped at a character that is not skipped, nor where parts follow at once. -/
theorem Cursor.skip_eq {c : Cursor} {m : Mode} {x : Char} {cs : List Char} (hc : c.rest = x :: cs)
    (hx : m.skips = true → Solid x) : c.skip m = c := by
  unfold skip
  split
  · rename_i hm
    rw [hc, skipFrom_solid (hx hm), ← hc]
  · rfl

theorem Mode.skips_of_inside {m : Mode} {f : Flavor} (h : (m.inside f).skips = true) :
    m.skips = true := by
  cases f with
  | spaced => exact h
  | tight | token => cases h

/-- A match at a character that is not skipped stays there or begins with the character. -/
theorem Reads.stays_or_begins {m : Mode} {e : Expr} {c c' : Cursor} {ts : List ParseTree}
    {x : Char} {cs : List Char} (h : Reads m e c (some (c', ts))) (hc : c.rest = x :: cs)
    (hx : m.skips = true → Solid x) (n : Nat) : c' = c ∨ e.begins n x = true := by
  generalize ho : some (c', ts) = o at h
  induction h generalizing c' ts n with
  | nothing | atEnd | optional_none | many_none | more_none | absent => cases ho; exact .inl rfl
  | @text _ _ t rest h =>
    cases t with
    | nil => cases ho; exact .inl (by rw [Cursor.advance, ← List.nil_append rest, ← h]; rfl)
    | cons y t =>
      right
      rw [hc, List.cons_append, List.cons.injEq] at h
      simp [Expr.begins, Expr.beginsBy, h.1]
  | @anyCase _ _ t w rest h hw =>
    cases w with
    | nil => cases ho; exact .inl (by rw [Cursor.advance, ← List.nil_append rest, ← h]; rfl)
    | cons y w =>
      right
      rw [hc, List.cons_append, List.cons.injEq] at h
      simp [Expr.begins, Expr.beginsBy, h.1, ← hw]
  | char h ha =>
    right
    rw [hc, List.cons.injEq] at h
    rw [h.1]
    exact ha
  | node _ _ ih | bare _ _ ih =>
    cases ho
    cases n with
    | zero => exact .inr rfl
    | succ n => exact ih hc (fun h => hx (Mode.skips_of_inside h)) n rfl
  | @seq _ c c₁ c₂ a b _ _ ha hb iha ihb =>
    cases ho
    rcases iha hc hx n rfl with rfl | ha'
    · rw [Cursor.skip_eq hc hx] at ihb
      rcases ihb hc hx n rfl with rfl | hb'
      · exact .inl rfl
      · right
        -- the first part stayed, so it is one that may match nothing
        have hnull : a.nullable = true := by
          by_contra hnull
          exact absurd (ha.progress (by simpa using hnull)) (Nat.lt_irrefl _)
        exact Bool.or_eq_true_iff.mpr (.inr (Bool.and_eq_true_iff.mpr ⟨hnull, hb'⟩))
    · exact .inr (Bool.or_eq_true_iff.mpr (.inl ha'))
  | choice_left _ iha =>
    rcases iha hc hx n ho with h | h
    · exact .inl h
    · exact .inr (Bool.or_eq_true_iff.mpr (.inl h))
  | choice_right _ _ _ ihb =>
    rcases ihb hc hx n ho with h | h
    · exact .inl h
    · exact .inr (Bool.or_eq_true_iff.mpr (.inr h))
  | optional_some _ iha => exact iha hc hx n ho
  | many_some ha hmore iha ihmore =>
    cases ho
    rcases iha hc hx n rfl with rfl | ha'
    · exact ihmore hc hx n rfl
    · exact .inr ha'
  | more_some ha hmore iha ihmore =>
    cases ho
    rw [Cursor.skip_eq hc hx] at iha
    rcases iha hc hx n rfl with rfl | ha'
    · exact ihmore hc hx n rfl
    · exact .inr ha'
  | atEnd_fails | text_fails | anyCase_fails | char_fails | rule_fails | seq_fails_left
  | seq_fails_right | absent_fails => cases ho

/-- Every expression reads something or nothing at every place. -/
theorem Reads.total {e : Expr} (he : e.steady = true) (m : Mode) (c : Cursor) :
    ∃ o, Reads m e c o := by
  have hends := run_ends _ e m ⟨c.rest, c.offset, [], .start⟩ he (Nat.le_refl _)
  have hshow := run_shows (e.height + stride * c.rest.length) e m ⟨c.rest, c.offset, [], .start⟩
  cases hrun : run (e.height + stride * c.rest.length) e m ⟨c.rest, c.offset, [], .start⟩ with
  | matched after =>
    rw [hrun] at hshow
    obtain ⟨ts, hts, -⟩ := hshow
    exact ⟨_, hts⟩
  | failed f => rw [hrun] at hshow; exact ⟨_, hshow⟩
  | outOfFuel => exact absurd hrun hends

/-- **A refusal that is seen from the first character.** -/
theorem refuses_of_head {m : Mode} {e : Expr} {cs : List Char} (n : Nat)
    (hsteady : e.steady = true) (he : e.nullable = false)
    (h : ∀ c ∈ cs.head?, (m.skips = true → Solid c) ∧ e.begins n c = false) : Refuses m e cs := by
  intro o
  obtain ⟨out, hout⟩ := Reads.total hsteady m ⟨cs, o⟩
  cases out with
  | none => exact hout
  | some p =>
    obtain ⟨c', ts⟩ := p
    -- a match would consume something, and so begin with the first character
    have hlt := hout.progress he
    cases cs with
    | nil => simp at hlt
    | cons c cs =>
      obtain ⟨hsolid, hbegins⟩ := h c rfl
      rcases hout.stays_or_begins rfl hsolid n with rfl | h'
      · exact absurd hlt (Nat.lt_irrefl _)
      · rw [hbegins] at h'
        cases h'

end CatalogQuery.Grammar
