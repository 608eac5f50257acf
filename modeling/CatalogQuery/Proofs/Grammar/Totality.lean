import CatalogQuery.Proofs.Grammar.Reads

/-!
# Matching ends

The fuel of `parse` is enough for every text (`run_ends`), so that `parse` answers exactly what the
rule `program` reads (`parse_eq_ok_iff`).

Fuel bounds how deep steps nest. Two facts bound that depth. An expression that is not `nullable`
consumes a character whenever it matches (`Reads.progress`), and between two characters the rules
entered have falling ranks: `Expr.height` counts the steps down to the first character, and for the
body of a rule it is at most the rank of the rule (`height_body_le_rank`), so there is no left
recursion. What stands behind a character may be as high as it likes below `stride`, the fuel that
a character pays for.
-/

namespace CatalogQuery.Grammar

/-! ### What is consumed -/

/-- The second place is reached from the first by passing over a piece of the text. -/
def Cursor.Before (c c' : Cursor) : Prop :=
  ∃ w, c.rest = w ++ c'.rest ∧ c'.offset = c.offset + Source.byteLength w

namespace Cursor

theorem Before.refl (c : Cursor) : c.Before c := ⟨[], rfl, rfl⟩

theorem Before.trans {c₁ c₂ c₃ : Cursor} (h : c₁.Before c₂) (h' : c₂.Before c₃) : c₁.Before c₃ := by
  obtain ⟨u, hu, hou⟩ := h
  obtain ⟨v, hv, hov⟩ := h'
  refine ⟨u ++ v, by rw [hu, hv, List.append_assoc], ?_⟩
  rw [hov, hou, Source.byteLength, Source.byteLength, Source.byteLength, List.map_append,
    List.sum_append, Nat.add_assoc]

theorem before_advance {c : Cursor} {w rest : List Char} (h : c.rest = w ++ rest) :
    c.Before (c.advance w rest) := ⟨w, h, rfl⟩

theorem Before.length_le {c c' : Cursor} (h : c.Before c') : c'.rest.length ≤ c.rest.length := by
  obtain ⟨w, hw, -⟩ := h
  simp [hw]

/-- Skipping passes over a piece of the text. -/
theorem before_skipFrom (inComment : Bool) (offset : Nat) (cs : List Char) :
    Before ⟨cs, offset⟩ ⟨(skipFrom inComment offset cs).1, (skipFrom inComment offset cs).2⟩ := by
  fun_induction skipFrom inComment offset cs with
  | case1 | case2 | case10 | case11 => exact .refl _
  -- inside a comment, up to its end
  | case3 offset cs _ ih => exact .trans (before_advance (w := ['\r']) rfl) ih
  | case4 offset c cs _ _ ih => exact .trans (before_advance (w := [c]) rfl) ih
  -- outside one: blanks, the beginning of a comment, and three ways to continue a line
  | case5 _ offset c cs _ hc ih =>
    refine .trans (before_advance (w := [c]) rfl) ?_
    rcases hc with rfl | rfl | rfl <;> exact ih
  | case6 _ offset cs _ _ ih => exact .trans (before_advance (w := ['#']) rfl) ih
  | case7 _ offset _ rest _ _ ih => exact .trans (before_advance (w := ['\\', '\n']) rfl) ih
  | case8 _ offset _ rest _ _ ih => exact .trans (before_advance (w := ['\\', '\r', '\n']) rfl) ih
  | case9 _ offset _ rest _ _ _ ih => exact .trans (before_advance (w := ['\\', '\r']) rfl) ih

theorem before_skip (c : Cursor) (m : Mode) : c.Before (c.skip m) := by
  unfold skip
  split
  · exact before_skipFrom false c.offset c.rest
  · exact .refl c

end Cursor

/-- A match passes over a piece of the text. -/
theorem Reads.before {m : Mode} {e : Expr} {c c' : Cursor} {ts : List ParseTree}
    (h : Reads m e c (some (c', ts))) : c.Before c' := by
  generalize ho : some (c', ts) = o at h
  induction h generalizing c' ts with
  | nothing | atEnd => cases ho; exact .refl _
  | text h => cases ho; exact Cursor.before_advance h
  | anyCase h => cases ho; exact Cursor.before_advance h
  | char h => cases ho; exact Cursor.before_advance h
  | node _ _ ih | bare _ _ ih => cases ho; exact ih rfl
  | seq _ _ iha ihb =>
    -- the first part, what is skipped, and the second part
    cases ho
    exact (iha rfl).trans ((Cursor.before_skip _ _).trans (ihb rfl))
  | choice_left _ iha | optional_some _ iha => exact iha ho
  | choice_right _ _ _ ihb => exact ihb ho
  | optional_none | many_none | more_none | absent => cases ho; exact .refl _
  | many_some _ _ iha ihmore => cases ho; exact (iha rfl).trans (ihmore rfl)
  | more_some _ _ iha ihmore =>
    cases ho
    exact ((Cursor.before_skip _ _).trans (iha rfl)).trans (ihmore rfl)
  | atEnd_fails | text_fails | anyCase_fails | char_fails | rule_fails | seq_fails_left
  | seq_fails_right | absent_fails => cases ho

/-! ### Progress -/

/-- The rules that may match without consuming anything. -/
def Rule.nullable : Rule → Bool
  | .endOfInput | .program | .doubleBody | .singleBody => true
  | _ => false

/-- Whether an expression may match without consuming anything. -/
def Expr.nullable : Expr → Bool
  | .nothing | .atEnd | .optional _ | .many _ | .more _ | .absent _ => true
  | .text t | .anyCase t => t.isEmpty
  | .char _ => false
  | .rule r => r.nullable
  | .seq a b => a.nullable && b.nullable
  | .choice a b => a.nullable || b.nullable

theorem nullable_body (r : Rule) (h : r.nullable = false) : r.body.nullable = false := by
  revert h
  cases r <;> decide

/-- An expression that is not nullable consumes something when it matches. -/
theorem Reads.progress {m : Mode} {e : Expr} {c c' : Cursor} {ts : List ParseTree}
    (h : Reads m e c (some (c', ts))) (he : e.nullable = false) :
    c'.rest.length < c.rest.length := by
  generalize ho : some (c', ts) = o at h
  induction h generalizing c' ts with
  | text h =>
    cases ho
    simp only [Expr.nullable, List.isEmpty_eq_false_iff] at he
    have := List.length_pos_iff.mpr he
    simp only [h, Cursor.advance, List.length_append]
    omega
  | anyCase h hw =>
    cases ho
    simp only [Expr.nullable, List.isEmpty_eq_false_iff] at he
    have := List.length_pos_iff.mpr he
    simp only [h, ← hw, Cursor.advance, List.length_append, List.length_map] at this ⊢
    omega
  | char h => cases ho; simp [h, Cursor.advance]
  | node _ _ ih | bare _ _ ih => cases ho; exact ih (nullable_body _ he) rfl
  | @seq m c c₁ c₂ a b _ _ ha hb iha ihb =>
    cases ho
    have hskip := (c₁.before_skip m).length_le
    rw [Expr.nullable, Bool.and_eq_false_iff] at he
    -- one of the two parts consumes something, and the other gives nothing back
    rcases he with he | he
    · have := iha he rfl
      have := hb.before.length_le
      omega
    · have := ihb he rfl
      have := ha.before.length_le
      omega
  | choice_left _ iha =>
    rw [Expr.nullable, Bool.or_eq_false_iff] at he
    exact iha he.1 ho
  | choice_right _ _ _ ihb =>
    rw [Expr.nullable, Bool.or_eq_false_iff] at he
    exact ihb he.2 ho
  -- these may match nothing
  | nothing | atEnd | optional_some | optional_none | many_some | many_none | more_some | more_none
  | absent => cases he
  | atEnd_fails | text_fails | anyCase_fails | char_fails | rule_fails | seq_fails_left
  | seq_fails_right | absent_fails => cases ho

/-! ### Ranks -/

/-- The rank of a rule: no rule is entered from a rule of the same or a lower rank before a
character is consumed. -/
def Rule.rank : Rule → Nat
  | .program => 53
  | .assignStmt | .dictItem => 45
  | .exprStmt => 44
  | .expr => 43
  | .conditional => 41
  | .disjunction => 39
  | .conjunction => 37
  | .negation => 35
  | .comparison => 33
  | .sum => 31
  | .product => 29
  | .signed => 27
  | .power => 25
  | .primary => 23
  | .keywordArg => 19
  | .ident => 17
  | .comparator => 12
  | .assignOp | .doubleBody | .singleBody => 9
  | .float => 6
  | .importStmt | .productOp | .string => 5
  | .lambda | .comprehension | .formatted => 4
  | .sign | .starArg | .int => 3
  | .endOfInput | .comma => 1
  | _ => 2

/-- How many steps are nested below an expression before a character is consumed, at most. -/
def Expr.height : Expr → Nat
  | .nothing | .atEnd | .text _ | .anyCase _ | .char _ => 1
  | .rule r => r.rank + 1
  | .seq a b => max a.height (if a.nullable then b.height else 0) + 1
  | .choice a b => max a.height b.height + 1
  | .optional a | .many a | .more a | .absent a => a.height + 1

/-- The fuel that pays for the steps after a character. -/
def stride : Nat := 400

/-- Every part that stands behind a character is below the stride, and what is repeated consumes a
character each time. -/
def Expr.steady : Expr → Bool
  | .nothing | .atEnd | .text _ | .anyCase _ | .char _ | .rule _ => true
  | .seq a b => a.steady && b.steady && decide (b.height ≤ stride)
  | .choice a b => a.steady && b.steady
  | .optional a | .absent a => a.steady
  | .many a | .more a => a.steady && !a.nullable

/-- **No left recursion.** What a rule enters before it consumes a character has a lower rank. -/
theorem height_body_le_rank (r : Rule) : r.body.height ≤ r.rank := by
  cases r <;> decide

theorem steady_body (r : Rule) : r.body.steady = true := by
  cases r <;> decide

/-! ### Enough fuel -/

/-- What a run matched was read, so it stands behind its beginning, and further behind if the
expression is not nullable. -/
theorem run_matched {n : Nat} {e : Expr} {m : Mode} {s after : State}
    (h : run n e m s = .matched after) :
    after.rest.length ≤ s.rest.length ∧
      (e.nullable = false → after.rest.length < s.rest.length) := by
  have hshow := run_shows n e m s
  rw [h] at hshow
  obtain ⟨ts, hts, -⟩ := hshow
  exact ⟨hts.before.length_le, hts.progress⟩

theorem length_skip_le (s : State) (m : Mode) : (s.skip m).rest.length ≤ s.rest.length := by
  have h := (s.cursor.before_skip m).length_le
  rwa [← State.cursor_skip] at h

/-- A character that was consumed pays for one stride. -/
theorem stride_le {i j : Nat} (h : i < j) : stride * i + stride ≤ stride * j :=
  Nat.mul_le_mul_left stride h

/-- **Enough fuel.** A run ends if its fuel covers the height of its expression and a stride for
each character that is left. By induction on the fuel: a part that begins where the whole does is
lower, and any other part has a stride to spare. -/
theorem run_ends : ∀ (n : Nat) (e : Expr) (m : Mode) (s : State), e.steady = true →
    e.height + stride * s.rest.length ≤ n → run n e m s ≠ .outOfFuel := by
  intro n
  induction n with
  | zero =>
    intro e m s _ hn
    have : 0 < e.height := by cases e <;> simp [Expr.height]
    omega
  | succ n ih =>
    intro e m s he hn
    cases e with
    | nothing => rw [run]; simp
    | atEnd => rw [run]; split <;> simp
    | text t => rw [run, State.consume]; split <;> simp
    | anyCase t => rw [run, State.consume]; split <;> simp
    | char k =>
      rw [run]
      split
      · split <;> simp
      · simp
    | rule r =>
      have hbody := height_body_le_rank r
      simp only [Expr.height] at hn
      have h := fun s' (hs' : s'.rest = s.rest) =>
        ih r.body (m.inside r.flavor) s' (steady_body r) (by rw [hs']; omega)
      rw [run]
      split
      · split
        · simp
        · simp
        · rename_i hrun; exact absurd hrun (h _ rfl)
      · exact h s rfl
    | seq a b =>
      simp only [Expr.steady, Bool.and_eq_true, decide_eq_true_eq] at he
      simp only [Expr.height] at hn
      rw [run]
      split
      · rename_i after hrun
        obtain ⟨hle, hlt⟩ := run_matched hrun
        have hskip := length_skip_le after m
        apply ih b m _ he.1.2
        have := Nat.mul_le_mul_left stride (Nat.le_trans hskip hle)
        -- the second part counts in the height unless the first has consumed a character
        cases ha : a.nullable with
        | true => simp only [ha, if_true] at hn; omega
        | false =>
          have := stride_le (Nat.lt_of_le_of_lt hskip (hlt ha))
          simp only [ha] at hn
          omega
      · simp
      · rename_i hrun
        exact absurd hrun (ih a m s he.1.1 (by omega))
    | choice a b =>
      simp only [Expr.steady, Bool.and_eq_true] at he
      simp only [Expr.height] at hn
      rw [run]
      split
      · simp
      · exact ih b m _ he.2 (by show _ + stride * s.rest.length ≤ n; omega)
      · rename_i hrun
        exact absurd hrun (ih a m s he.1 (by omega))
    | optional a =>
      simp only [Expr.steady, Expr.height] at he hn
      rw [run]
      split
      · simp
      · simp
      · rename_i hrun
        exact absurd hrun (ih a m s he (by omega))
    | many a =>
      have he' := he
      simp only [Expr.steady, Bool.and_eq_true, Bool.not_eq_true'] at he'
      simp only [Expr.height] at hn
      rw [run]
      split
      · rename_i after hrun
        have := stride_le ((run_matched hrun).2 he'.2)
        refine ih (.more a) m after he ?_
        simp only [Expr.height, stride] at this hn ⊢
        omega
      · simp
      · rename_i hrun
        exact absurd hrun (ih a m s he'.1 (by omega))
    | more a =>
      have he' := he
      simp only [Expr.steady, Bool.and_eq_true, Bool.not_eq_true'] at he'
      simp only [Expr.height] at hn
      have hskip := length_skip_le s m
      rw [run]
      split
      · rename_i after hrun
        have := stride_le (Nat.lt_of_lt_of_le ((run_matched hrun).2 he'.2) hskip)
        refine ih (.more a) m after he ?_
        simp only [Expr.height, stride] at this hn ⊢
        omega
      · simp
      · rename_i hrun
        have := Nat.mul_le_mul_left stride hskip
        exact absurd hrun (ih a m _ he'.1 (by omega))
    | absent a =>
      simp only [Expr.steady, Expr.height] at he hn
      rw [run]
      split
      · simp
      · simp
      · rename_i hrun
        exact absurd hrun (ih a _ s he (by omega))

/-! ### Whole sources -/

/-- The mode in which a source is read. -/
abbrev Mode.spaced : Mode := ⟨true, true⟩

/-- A source has the parse tree that the rule `program` reads at its beginning, and none other. -/
theorem parse_eq_ok_iff {cs : List Char} {tree : ParseTree} :
    parse cs = .ok tree ↔ ∃ c, Reads .spaced (.rule .program) ⟨cs, 0⟩ (some (c, [tree])) := by
  -- the fuel is enough, so that there is an answer
  have hends : run (fuelFor cs) (.rule .program) ⟨true, true⟩ ⟨cs, 0, [], .start⟩ ≠ .outOfFuel := by
    refine run_ends _ _ _ _ (by decide) ?_
    show 54 + 400 * cs.length ≤ 400 * (cs.length + 1)
    omega
  have hshow := run_shows (fuelFor cs) (.rule .program) ⟨true, true⟩ ⟨cs, 0, [], .start⟩
  unfold parse
  cases hrun : run (fuelFor cs) (.rule .program) ⟨true, true⟩ ⟨cs, 0, [], .start⟩ with
  | matched after =>
    rw [hrun] at hshow
    obtain ⟨ts, hts, hfound⟩ := hshow
    obtain ⟨rest, offset, found, furthest⟩ := after
    replace hfound : found = ts.reverse ++ [] := hfound
    change Reads _ _ _ (some (⟨rest, offset⟩, ts)) at hts
    cases hts with
    | node hm h =>
      subst hfound
      constructor
      · rintro ⟨⟩
        exact ⟨_, .node hm h⟩
      · rintro ⟨c, h'⟩
        -- a place is read in one way only
        cases (Reads.node hm h).unique h'
        rfl
    | bare hm => cases hm
  | failed f =>
    rw [hrun] at hshow
    constructor
    · rintro ⟨⟩
    · rintro ⟨c, h'⟩
      -- what fails cannot be read as well
      cases Reads.unique hshow h'
  | outOfFuel => exact absurd hrun hends

end CatalogQuery.Grammar
