import CatalogQuery.Proofs.Basic
import CatalogQuery.Proofs.Grammar.Matches

/-!
# Matching words

Names and keywords are matched as whole words: `word s` matches the word `s` and refuses every other
word, also one that `s` begins (`word_refuses`), and the rule `ident` matches every word that is not
reserved (`ident_matches`). Conversely, what that rule reads is such a word (`Reads.of_ident`).
-/

namespace CatalogQuery.Grammar

/-! ### Words -/

/-- A character that may continue a name. -/
def continues (c : Char) : Bool := c.isAlphanum || c == '_'

/-- No word goes on into the text. -/
def Ends (rest : List Char) : Prop := ∀ c ∈ rest.head?, continues c = false

/-- A letter or an underscore, and any number of characters that continue a name. -/
structure IsWord (w : List Char) : Prop where
  head : ∃ c cs, w = c :: cs ∧ (c.isAlpha || c == '_') = true
  all : ∀ c ∈ w, continues c = true

/-- Two words that stand in front of the same text are the same if they end there. -/
theorem word_unique {v w rest rest' : List Char} (hv : ∀ c ∈ v, continues c = true)
    (hw : ∀ c ∈ w, continues c = true) (hrest : Ends rest) (hrest' : Ends rest')
    (h : v ++ rest = w ++ rest') : v = w := by
  have hcut : ∀ u t : List Char, (∀ c ∈ u, continues c = true) → Ends t →
      (u ++ t).takeWhile continues = u := by
    intro u t hu ht
    rw [List.takeWhile_append_of_pos hu]
    cases t with
    | nil => simp
    | cons c t => rw [List.takeWhile_cons_of_neg (by simp [ht c rfl]), List.append_nil]
  rw [← hcut v rest hv hrest, h, hcut w rest' hw hrest']

/-! ### Rows -/

section Rows

variable {m : Mode} {α : Type} {e : Expr} {f : α → List Char} {xs : List α} {rest : List Char}

/-- A repetition matches a row of pieces that its part matches one by one, if nothing is skipped
between them. -/
theorem matches_row {P : α → List ParseTree → Prop}
    (hnext : ∀ ys : List α, m.next (ys.flatMap f ++ rest) = ys.flatMap f ++ rest)
    (hf : ∀ x ∈ xs, ∀ ys : List α,
      Matches m e (f x ++ (ys.flatMap f ++ rest)) (ys.flatMap f ++ rest) (P x))
    (hrest : Refuses m e rest) : Matches m (.many e) (xs.flatMap f ++ rest) rest
      fun ts => ∃ parts, ts = List.flatten parts ∧ List.Forall₂ P xs parts := by
  -- first for the repetitions behind the first one
  have hmore : ∀ ys : List α, (∀ y ∈ ys, y ∈ xs) → Matches m (.more e) (ys.flatMap f ++ rest) rest
      fun ts => ∃ parts, ts = List.flatten parts ∧ List.Forall₂ P ys parts := by
    intro ys hys
    induction ys with
    | nil =>
      refine (Matches.more_none ?_).imp ?_
      · have h := hnext []
        rw [List.flatMap_nil, List.nil_append] at h ⊢
        rw [h]
        exact hrest
      · rintro _ rfl
        exact ⟨[], rfl, .nil⟩
    | cons y ys ih =>
      obtain ⟨hy, hys⟩ := List.forall_mem_cons.mp hys
      have hfirst : Matches m e (m.next ((y :: ys).flatMap f ++ rest)) (ys.flatMap f ++ rest) (P y)
          := by
        -- nothing is skipped in front of a piece
        rw [hnext, List.flatMap_cons, List.append_assoc]
        exact hf y hy ys
      refine (Matches.more_some hfirst (ih hys)).imp ?_
      rintro _ ⟨us, _, rfl, hus, parts, rfl, hparts⟩
      exact ⟨us :: parts, rfl, .cons hus hparts⟩
  cases xs with
  | nil =>
    refine (Matches.many_none hrest).imp ?_
    rintro _ rfl
    exact ⟨[], rfl, .nil⟩
  | cons x xs =>
    rw [List.flatMap_cons, List.append_assoc]
    refine (Matches.many_some (hf x List.mem_cons_self xs) (hmore xs fun y hy => ?_)).imp ?_
    · exact List.mem_cons_of_mem x hy
    · rintro _ ⟨us, _, rfl, hus, parts, rfl, hparts⟩
      exact ⟨us :: parts, rfl, .cons hus hparts⟩

/-- A row of pieces without nodes, where parts follow each other at once. -/
theorem matches_many (hm : m.skips = false)
    (hf : ∀ x ∈ xs, ∀ cs, Matches m e (f x ++ cs) cs (· = [])) (hrest : Refuses m e rest) :
    Matches m (.many e) (xs.flatMap f ++ rest) rest (· = []) := by
  refine (matches_row (P := fun _ ts => ts = []) (fun _ => Mode.next_of_tight hm _) (fun x hx _ => hf x hx _)
    hrest).imp ?_
  rintro _ ⟨parts, rfl, hparts⟩
  rw [List.flatten_eq_nil_iff]
  intro us hus
  obtain ⟨_, -, rfl⟩ := exists_of_forall₂ hparts hus
  rfl

/-- A sequence of two parts without nodes. -/
theorem Matches.seq_nil {a b : Expr} {cs cs₁ cs₂ : List Char} (ha : Matches m a cs cs₁ (· = []))
    (hb : Matches m b (m.next cs₁) cs₂ (· = [])) : Matches m (.seq a b) cs cs₂ (· = []) := by
  refine (ha.seq hb).imp ?_
  rintro _ ⟨_, _, rfl, rfl, rfl⟩
  rfl

end Rows

/-! ### Keywords -/

section Keywords

variable {m : Mode} {w rest : List Char}

theorem identChar_matches {c : Char} (hc : continues c = true) (cs : List Char) :
    Matches m identChar (c :: cs) cs (· = []) := by
  by_cases halnum : c.isAlphanum = true
  · exact .choice_left (.char halnum)
  · have hunderscore : c = '_' := by simpa [continues, halnum] using hc
    subst hunderscore
    exact .choice_right (fun _ => .char_fails (by rintro _ ⟨⟩; rfl)) (.text (t := ['_']))

theorem identChar_refuses (hrest : Ends rest) : Refuses m identChar rest := by
  refine .choice (fun o => .char_fails fun c hc => ?_) (.text ?_)
  · have := hrest c hc
    simp only [continues, Bool.or_eq_false_iff] at this
    exact this.1
  · rintro ⟨t, ht⟩
    have := hrest '_' (by rw [← ht]; rfl)
    cases this

theorem word_matches {s : String} (hm : m.skips = false) (hrest : Ends rest) :
    Matches m (word s) (s.toList ++ rest) rest (· = []) := by
  refine .seq_nil .text ?_
  rw [Mode.next_of_tight hm]
  exact .absent (identChar_refuses hrest)

/-- A word in front of a word and what ends it is in front of the word. -/
theorem prefix_of_ends {s : List Char} (hs : ∀ c ∈ s, continues c = true) (hrest : Ends rest)
    (h : s <+: w ++ rest) : s <+: w := by
  rcases List.prefix_or_prefix_of_prefix h (List.prefix_append w rest) with h' | ⟨u, rfl⟩
  · exact h'
  · cases u with
    | nil => simp
    | cons c u =>
      obtain ⟨t, ht⟩ := (List.prefix_append_right_inj w).mp h
      have hc := hrest c (by rw [← ht]; rfl)
      rw [hs c (by simp)] at hc
      cases hc

/-- What follows the beginning of a longer word continues it. -/
theorem continues_after {s w t rest : List Char} (hs : ∀ c ∈ s, continues c = true)
    (hw : ∀ c ∈ w, continues c = true) (hrest : Ends rest) (hne : w ≠ s)
    (h : s ++ t = w ++ rest) : ∃ c cs, t = c :: cs ∧ continues c = true := by
  cases t with
  | nil => exact absurd (word_unique hw hs hrest (fun c hc => by cases hc) h.symm) hne
  | cons c cs =>
    refine ⟨c, cs, rfl, ?_⟩
    by_contra hc
    refine hne (word_unique hw hs hrest (fun d hd => ?_) h.symm)
    cases hd
    simpa using hc

/-- **A keyword refuses every other word**, also one that it begins. -/
theorem word_refuses {s : String} (hm : m.skips = false)
    (hs : ∀ c ∈ s.toList, continues c = true) (hw : ∀ c ∈ w, continues c = true)
    (hrest : Ends rest) (hne : w ≠ s.toList) : Refuses m (word s) (w ++ rest) := by
  by_cases hprefix : s.toList <+: w ++ rest
  · obtain ⟨t, ht⟩ := hprefix
    obtain ⟨c, cs, rfl, hc⟩ := continues_after hs hw hrest hne ht
    rw [← ht]
    refine .seq_right .text ?_
    rw [Mode.next_of_tight hm]
    exact .absent (identChar_matches hc cs)
  · exact .seq_left (.text hprefix)

/-- The words that cannot be names. -/
def reservedWords : List (List Char) :=
  ["and".toList, "or".toList, "not".toList, "in".toList, "is".toList, "if".toList, "else".toList,
    "for".toList, "lambda".toList, "import".toList, "from".toList, "True".toList, "False".toList,
    "None".toList]

theorem continues_reservedWords : ∀ s ∈ reservedWords, ∀ c ∈ s, continues c = true := by decide

/-- One of several texts is matched, or none of them begins the text. -/
theorem oneOf_text_cases (ws : List (List Char)) (cs : List Char) :
    (Refuses m (Expr.oneOf (ws.map .text)) cs ∧ ∀ s ∈ ws, ¬ s <+: cs) ∨
      ∃ s ∈ ws, ∃ t, cs = s ++ t ∧ Matches m (Expr.oneOf (ws.map .text)) cs t (· = []) := by
  induction ws with
  | nil => exact .inl ⟨.absent .nothing, by simp⟩
  | cons s ws ih =>
    by_cases hs : s <+: cs
    · obtain ⟨t, rfl⟩ := hs
      refine .inr ⟨s, List.mem_cons_self, t, rfl, ?_⟩
      -- the last text stands without a choice
      cases ws with
      | nil => exact .text
      -- the first one that begins the text is taken
      | cons s' ws => exact .choice_left .text
    · cases ws with
      | nil => exact .inl ⟨.text hs, by simpa using hs⟩
      | cons s' ws =>
        rcases ih with ⟨hrefuses, hnone⟩ | ⟨s'', hs'', t, ht, hmatches⟩
        · exact .inl ⟨.choice (.text hs) hrefuses, List.forall_mem_cons.mpr ⟨hs, hnone⟩⟩
        · exact .inr ⟨s'', List.mem_cons_of_mem s hs'', t, ht,
            .choice_right (.text hs) hmatches⟩

/-- A word that is not reserved is not taken for one that is. -/
theorem reserved_refuses (hm : m.skips = false) (hw : ∀ c ∈ w, continues c = true)
    (hrest : Ends rest) (hne : w ∉ reservedWords) : Refuses m reserved (w ++ rest) := by
  rcases oneOf_text_cases (m := m) reservedWords (w ++ rest) with
    ⟨hrefuses, -⟩ | ⟨s, hs, t, ht, hmatches⟩
  · exact .seq_left hrefuses
  · have hws : w ≠ s := fun h => hne (h ▸ hs)
    obtain ⟨c, cs, rfl, hc⟩ :=
      continues_after (continues_reservedWords s hs) hw hrest hws ht.symm
    refine .seq_right hmatches ?_
    rw [Mode.next_of_tight hm]
    exact .absent (identChar_matches hc cs)

/-- No reserved word begins another. -/
theorem reserved_eq_of_begins : ∀ s ∈ reservedWords, ∀ w ∈ reservedWords, s <+: w → s = w := by
  decide

theorem reserved_matches (hm : m.skips = false) (hrest : Ends rest) (hw : w ∈ reservedWords) :
    Matches m reserved (w ++ rest) rest (· = []) := by
  rcases oneOf_text_cases (m := m) reservedWords (w ++ rest) with
    ⟨-, hnone⟩ | ⟨s, hs, t, ht, hmatches⟩
  · exact absurd (List.prefix_append w rest) (hnone w hw)
  · have hprefix := prefix_of_ends (continues_reservedWords s hs) hrest ⟨t, ht.symm⟩
    obtain rfl : s = w := reserved_eq_of_begins s hs w hw hprefix
    obtain rfl : rest = t := List.append_cancel_left ht
    refine .seq_nil hmatches ?_
    rw [Mode.next_of_tight hm]
    exact .absent (identChar_refuses hrest)

end Keywords

/-! ### Names -/

/-- The text of a name. -/
structure IsName (n : String) : Prop where
  word : IsWord n.toList
  free : n.toList ∉ reservedWords

section Names

variable {m : Mode} {w rest : List Char}

/-- **The rule for names matches every word that is not reserved.** -/
theorem ident_matches (hm : m.records = true) (hw : IsWord w) (hne : w ∉ reservedWords)
    (hrest : Ends rest) : Matches m (.rule .ident) (w ++ rest) rest
      (Found fun t => ∃ b e, t = .node .ident b e w []) := by
  -- the word is not one of those that cannot be names
  have hreserved : Refuses ⟨false, false⟩ reserved (w ++ rest) :=
    reserved_refuses rfl hw.all hrest hne
  obtain ⟨c, cs, rfl, hc⟩ := hw.head
  -- its first character is a letter or an underscore, the others continue it
  have hfirst : Matches ⟨false, false⟩ (Expr.oneOf [.char .letter, .lit "_"]) (c :: (cs ++ rest))
      (cs ++ rest) (· = []) := by
    by_cases hletter : c.isAlpha = true
    · exact .choice_left (.char hletter)
    · have hunderscore : c = '_' := by simpa [hletter] using hc
      subst hunderscore
      exact .choice_right (fun _ => .char_fails (by rintro _ ⟨⟩; rfl)) (.text (t := ['_']))
  have hothers : Matches ⟨false, false⟩ (.many identChar) (cs ++ rest) rest (· = []) := by
    have h := matches_many (m := ⟨false, false⟩) (f := fun c => [c]) rfl
      (fun d hd => identChar_matches (hw.all d (List.mem_cons_of_mem c hd)))
      (identChar_refuses hrest)
    rwa [List.flatMap_singleton'] at h
  have hbody := (Matches.absent hreserved).seq_nil (.seq_nil hfirst hothers)
  refine (Matches.rule (r := .ident) hm hbody).imp ?_
  rintro _ ⟨_, rfl, b, e, text, _, rfl, htext, rfl⟩
  have htext : (c :: cs) ++ rest = text ++ rest := htext
  exact ⟨_, rfl, b, e, by rw [List.append_cancel_right htext]⟩

/-- Reserved words are not names. -/
theorem ident_refuses (hw : w ∈ reservedWords) (hrest : Ends rest) :
    Refuses m (.rule .ident) (w ++ rest) :=
  .rule (.seq_left (.absent (reserved_matches rfl hrest hw)))

/-- A rule that is a keyword finds a node with the keyword. -/
theorem keyword_matches {r : Rule} {s : String} (hm : m.records = true) (hr : r.body = word s)
    (hflavor : r.flavor = .token) (hrest : Ends rest) :
    Matches m (.rule r) (s.toList ++ rest) rest
      (Found fun t => ∃ b e, t = .node r b e s.toList []) := by
  refine (Matches.rule hm (P := (· = [])) ?_).imp ?_
  · rw [hr, hflavor]
    exact word_matches rfl hrest
  · rintro _ ⟨_, rfl, b, e, text, _, rfl, htext, rfl⟩
    exact ⟨_, rfl, b, e, by rw [List.append_cancel_right htext]⟩

/-- A rule that is a keyword refuses every other word. -/
theorem keyword_refuses {r : Rule} {s : String} (hr : r.body = word s)
    (hflavor : r.flavor = .token) (hs : ∀ c ∈ s.toList, continues c = true)
    (hw : ∀ c ∈ w, continues c = true) (hrest : Ends rest) (hne : w ≠ s.toList) :
    Refuses m (.rule r) (w ++ rest) := by
  refine .rule ?_
  rw [hr, hflavor]
  exact word_refuses rfl hs hw hrest hne

end Names

/-! ### What was read -/

section Inversion

variable {m : Mode} {c c' : Cursor} {ts : List ParseTree}

theorem Reads.of_identChar (h : Reads m identChar c (some (c', ts))) :
    ∃ x, c.rest = x :: c'.rest ∧ continues x = true := by
  cases h with
  | choice_left h =>
    cases h with
    | @char _ _ _ x rest h hx =>
      have hx : x.isAlphanum = true := hx
      exact ⟨x, h, by simp [continues, hx]⟩
  | choice_right _ h =>
    cases h with
    | text h => exact ⟨'_', h, rfl⟩

/-- Where no character continues a name, no name goes on. -/
theorem Reads.ends_of_identChar (h : Reads m identChar c none) : Ends c.rest := by
  intro x hx
  by_contra hx'
  cases hrest : c.rest with
  | nil => rw [hrest] at hx; cases hx
  | cons y cs =>
    rw [hrest] at hx
    cases hx
    obtain ⟨rest, offset⟩ := c
    obtain rfl : rest = x :: cs := hrest
    -- a character that continues a name would have been read
    obtain ⟨o, us, hreads, -⟩ := identChar_matches (m := m) (by simpa using hx') cs offset
    cases h.unique hreads

/-- All characters that continue a name are read. -/
theorem Reads.more_identChar (hm : m.skips = false)
    (h : Reads m (.more identChar) c (some (c', ts))) :
    ∃ u, c.rest = u ++ c'.rest ∧ (∀ x ∈ u, continues x = true) ∧ Ends c'.rest := by
  generalize he : Expr.more identChar = e at h
  generalize ho : some (c', ts) = o at h
  -- nothing is skipped between the characters, so that they follow each other in the text
  induction h generalizing c' ts with
  | more_some ha hmore _ ih =>
    cases he
    cases ho
    rw [Cursor.skip_of_tight _ hm] at ha
    obtain ⟨x, hx, hcontinues⟩ := ha.of_identChar
    obtain ⟨u, hu, hall, hends⟩ := ih hm rfl rfl
    refine ⟨x :: u, by rw [hx, hu]; rfl, List.forall_mem_cons.mpr ⟨hcontinues, hall⟩, hends⟩
  | more_none ha =>
    cases he
    cases ho
    rw [Cursor.skip_of_tight _ hm] at ha
    exact ⟨[], rfl, by simp, ha.ends_of_identChar⟩
  | _ => cases he

/-- **What the rule for names reads is a word that is not reserved**, and it ends there. -/
theorem Reads.of_ident (h : Reads (m.inside .token) Rule.ident.body c (some (c', ts))) :
    ∃ w, c.rest = w ++ c'.rest ∧ IsWord w ∧ w ∉ reservedWords := by
  have hm : (m.inside .token).skips = false := rfl
  cases h with
  | @seq _ _ c₁ _ _ _ _ _ habsent h =>
    cases habsent with
    | absent hreserved =>
      rw [Cursor.skip_of_tight _ hm] at h
      cases h with
      | @seq _ _ c₂ _ _ _ _ _ hfirst hothers =>
        rw [Cursor.skip_of_tight _ hm] at hothers
        obtain ⟨x, hx, hhead⟩ : ∃ x, c.rest = x :: c₂.rest ∧ (x.isAlpha || x == '_') = true := by
          cases hfirst with
          | choice_left h =>
            cases h with
            | @char _ _ _ x rest h hx =>
              have hx : x.isAlpha = true := hx
              exact ⟨x, h, by simp [hx]⟩
          | choice_right _ h =>
            cases h with
            | text h => exact ⟨'_', h, rfl⟩
        have hcontinues : continues x = true := by
          rw [continues, Char.isAlphanum]
          rcases Bool.or_eq_true_iff.mp hhead with hx | hx <;> simp [hx]
        obtain ⟨u, hu, hall, hends⟩ : ∃ u, c₂.rest = u ++ c'.rest ∧
            (∀ x ∈ u, continues x = true) ∧ Ends c'.rest := by
          cases hothers with
          | many_some ha hmore =>
            obtain ⟨y, hy, hcontinues⟩ := ha.of_identChar
            obtain ⟨u, hu, hall, hends⟩ := hmore.more_identChar hm
            exact ⟨y :: u, by rw [hy, hu]; rfl, List.forall_mem_cons.mpr ⟨hcontinues, hall⟩, hends⟩
          | many_none ha => exact ⟨[], rfl, by simp, ha.ends_of_identChar⟩
        have htext : c.rest = (x :: u) ++ c'.rest := by rw [hx, hu]; rfl
        refine ⟨x :: u, htext, ⟨⟨x, u, rfl, hhead⟩, List.forall_mem_cons.mpr ⟨hcontinues, hall⟩⟩, ?_⟩
        -- a reserved word would have been seen before
        intro hmem
        obtain ⟨rest, offset⟩ := c
        obtain rfl : rest = (x :: u) ++ c'.rest := htext
        obtain ⟨o, us, hreads, -⟩ := reserved_matches (m := ⟨false, false⟩) rfl hends hmem offset
        cases hreserved.unique hreads

/-- What the rule for a word reads is the word. -/
theorem Reads.of_word {s : String} (hm : m.skips = false)
    (h : Reads m (word s) c (some (c', ts))) : c.rest = s.toList ++ c'.rest := by
  cases h with
  | seq htext habsent =>
    cases htext with
    | text h =>
      rw [Cursor.skip_of_tight _ hm] at habsent
      cases habsent with
      | absent => exact h

end Inversion

end CatalogQuery.Grammar
