import CatalogQuery.Proofs.Draft.Digits
import CatalogQuery.Proofs.Grammar.Quotes

/-!
# What escapes denote

The body of a string literal is read piece by piece, from left to right (`Piece`). A character other
than a backslash denotes itself. A backslash takes some of what is behind it (`StandsFor`): a single
character, up to three octal digits, a letter with its hexadecimal digits, or a character that
belongs to no escape and is kept. A body is refused if its pieces lead to a letter that is not
followed by digits that name a character (`Broken`).

What names a character is a parameter of all this. Hexadecimal digits should (`HexCode`), but a plus
sign is read in place of the first of them too (`SignedHexCode`). `unescape_exact` tells what is
read of every body that may stand between quotation marks, and which bodies are not read as they
should be.
-/

namespace CatalogQuery.Escape

/-! ### The characters behind a backslash -/

/-- The characters that stand for a text by themselves. -/
def singles : List (Char × List Char) :=
  [('n', ['\n']), ('t', ['\t']), ('r', ['\r']), ('a', ['\x07']), ('b', ['\x08']), ('f', ['\x0c']),
    ('v', ['\x0b']), ('\\', ['\\']), ('\'', ['\'']), ('"', ['"']), ('\n', [])]

/-- The letters that hexadecimal digits follow, and how many. -/
def hexWidths : List (Char × Nat) := [('x', 2), ('u', 4), ('U', 8)]

/-- The character belongs to no escape. -/
structure Kept (c : Char) : Prop where
  single : ∀ out, (c, out) ∉ singles
  hex : ∀ width, (c, width) ∉ hexWidths
  octal : ∀ d, ¬ IsDigit 8 c d

theorem simple?_eq_some_iff {c : Char} {out : List Char} :
    simple? c = some out ↔ (c, out) ∈ singles := by
  have hmem : ∀ p ∈ singles, simple? p.1 = some p.2 := by decide
  refine ⟨fun h => ?_, hmem (c, out)⟩
  unfold simple? at h
  split at h <;> cases h <;> decide

theorem hexWidth?_eq_some_iff {c : Char} {width : Nat} :
    hexWidth? c = some width ↔ (c, width) ∈ hexWidths := by
  have hmem : ∀ p ∈ hexWidths, hexWidth? p.1 = some p.2 := by decide
  refine ⟨fun h => ?_, hmem (c, width)⟩
  unfold hexWidth? at h
  split at h <;> cases h <;> decide

theorem simple?_eq_none_iff {c : Char} : simple? c = none ↔ ∀ out, (c, out) ∉ singles := by
  simp only [Option.eq_none_iff_forall_ne_some, ne_eq, simple?_eq_some_iff]

theorem hexWidth?_eq_none_iff {c : Char} :
    hexWidth? c = none ↔ ∀ width, (c, width) ∉ hexWidths := by
  simp only [Option.eq_none_iff_forall_ne_some, ne_eq, hexWidth?_eq_some_iff]

theorem simple?_of_hexWidths {c : Char} {width : Nat} (h : (c, width) ∈ hexWidths) :
    simple? c = none := by
  have hmem : ∀ p ∈ hexWidths, simple? p.1 = none := by decide
  exact hmem _ h

theorem simple?_of_isDigit {c : Char} {d : Nat} (h : IsDigit 8 c d) :
    simple? c = none ∧ hexWidth? c = none := by
  have hsingle : ∀ p ∈ singles, digitValue? 8 p.1 = none := by decide +kernel
  have hhex : ∀ p ∈ hexWidths, digitValue? 8 p.1 = none := by decide +kernel
  have hdigit : digitValue? 8 c = some d := (digitValue?_eq_some_iff (by decide)).mpr h
  constructor
  · rw [simple?_eq_none_iff]
    intro out hout
    cases (hsingle _ hout).symm.trans hdigit
  · rw [hexWidth?_eq_none_iff]
    intro width hwidth
    cases (hhex _ hwidth).symm.trans hdigit

/-! ### Pieces of a body -/

section Pieces

variable (code : List Char → Char → Prop)

/-- The characters behind a backslash stand for a text if this rest follows. -/
inductive StandsFor : List Char → List Char → List Char → Prop where
  | single {c : Char} {out rest : List Char} (h : (c, out) ∈ singles) : StandsFor [c] out rest
  | octal {digits rest : List Char} {d : Char} (h : OctalRun 3 digits rest) (hne : digits ≠ [])
      (hd : Number 8 digits d.toNat) : StandsFor digits [d] rest
  | hex {c : Char} {digits rest : List Char} {d : Char} (h : (c, digits.length) ∈ hexWidths)
      (hd : code digits d) : StandsFor (c :: digits) [d] rest
  | kept {c : Char} {rest : List Char} (h : Kept c) : StandsFor [c] ['\\', c] rest

/-- A piece of a body, the text that it denotes and the rest that follows. -/
inductive Piece : List Char → List Char → List Char → Prop where
  | plain {c : Char} {rest : List Char} (h : c ≠ '\\') : Piece [c] [c] rest
  | escape {u out rest : List Char} (h : StandsFor code u out rest) : Piece ('\\' :: u) out rest

/-- The body denotes the text, piece by piece from left to right. -/
inductive Denotes : List Char → List Char → Prop where
  | nil : Denotes [] []
  | piece {u out rest text : List Char} (h : Piece code u out rest) (hrest : Denotes rest text) :
      Denotes (u ++ rest) (out ++ text)

/-- Pieces lead to a place of the body at which something holds of the rest. -/
inductive Reaches (P : List Char → Prop) : List Char → Prop where
  | here {body : List Char} (h : P body) : Reaches P body
  | piece {u out rest : List Char} (h : Piece code u out rest) (hrest : Reaches P rest) :
      Reaches P (u ++ rest)

/-- The escape in front has no digits that name a character, or too few. -/
def Broken (body : List Char) : Prop :=
  ∃ c width rest, body = '\\' :: c :: rest ∧ (c, width) ∈ hexWidths ∧
    ∀ digits d, digits <+: rest → digits.length = width → ¬ code digits d

end Pieces

variable {code : List Char → Char → Prop} {u out rest body text : List Char}

/-! ### Pieces are read -/

/-- What stands behind a backslash is read as the text that it stands for. -/
theorem StandsFor.read (h : StandsFor SignedHexCode u out rest) :
    read (u ++ rest) = some (out, u.length) := by
  cases h with
  | single h =>
    rw [List.cons_append, Escape.read, simple?_eq_some_iff.mpr h]
    rfl
  | octal h hne hd =>
    cases u with
    | nil => exact absurd rfl hne
    | cons c digits =>
      obtain ⟨n, hn⟩ := h.octal c (List.mem_cons_self ..)
      -- a digit is no letter of another escape
      obtain ⟨hsimple, hhex⟩ := simple?_of_isDigit hn
      have hdigits := h.octalDigits
      rw [List.cons_append] at hdigits ⊢
      rw [Escape.read, hsimple, hhex]
      simp only [hdigits, (readDigits?_bind_eq_some_iff (by decide)).mpr hd]
      rfl
  | hex h hd =>
    rw [List.cons_append, Escape.read, simple?_of_hexWidths h, hexWidth?_eq_some_iff.mpr h]
    simp only [(hexChar?_append rest).mpr hd]
    rfl
  | @kept c _ h =>
    -- no digit begins the rest, so that the backslash is kept
    have hdigits : octalDigits 3 (c :: rest) = [] := by
      rw [octalDigits, if_neg]
      rw [isOctal_iff]
      rintro ⟨d, hd⟩
      exact h.octal d hd
    rw [List.cons_append, Escape.read, simple?_eq_none_iff.mpr h.single,
      hexWidth?_eq_none_iff.mpr h.hex, List.nil_append, hdigits]
    rfl

theorem unescapeFrom_length (u rest : List Char) :
    unescapeFrom u.length (u ++ rest) = unescapeFrom 0 rest := by
  induction u with
  | nil => rfl
  | cons c u ih => exact ih

theorem Piece.unescape (h : Piece SignedHexCode u out rest) :
    unescape (u ++ rest) = (unescape rest).map (out ++ ·) := by
  cases h with
  | plain h =>
    rw [List.singleton_append, Escape.unescape, unescapeFrom, if_neg h]
    rfl
  | @escape u _ _ h =>
    rw [List.cons_append, Escape.unescape, unescapeFrom, if_pos rfl, h.read]
    simp only [unescapeFrom_length]
    rfl

theorem Broken.unescape (h : Broken SignedHexCode body) : unescape body = none := by
  obtain ⟨c, width, rest, rfl, hc, hnone⟩ := h
  have hchar : hexChar? width rest = none := by
    rw [Option.eq_none_iff_forall_ne_some]
    intro d hd
    obtain ⟨digits, rest, rfl, hlen, hcode⟩ := hexChar?_eq_some_iff.mp hd
    exact hnone digits d (List.prefix_append _ _) hlen hcode
  rw [Escape.unescape, unescapeFrom, if_pos rfl, read, simple?_of_hexWidths hc,
    hexWidth?_eq_some_iff.mpr hc]
  simp only [hchar]
  rfl

theorem Denotes.unescape (h : Denotes SignedHexCode body text) : unescape body = some text := by
  induction h with
  | nil => rfl
  | piece h _ ih =>
    rw [h.unescape, ih]
    rfl

theorem Reaches.unescape (h : Reaches SignedHexCode (Broken SignedHexCode) body) :
    unescape body = none := by
  induction h with
  | here h => exact h.unescape
  | piece h _ ih =>
    rw [h.unescape, ih]
    rfl

/-! ### Bodies between quotation marks -/

/-- Only the first character behind a backslash can be another backslash. -/
theorem StandsFor.tail_ne (hcode : ∀ digits d, code digits d → ∀ c ∈ digits, c ≠ '\\')
    (h : StandsFor code u out rest) : ∃ c digits, u = c :: digits ∧ ∀ x ∈ digits, x ≠ '\\' := by
  cases h with
  | single => exact ⟨_, [], rfl, by simp⟩
  | octal h hne =>
    cases u with
    | nil => exact absurd rfl hne
    | cons c digits =>
      refine ⟨c, digits, rfl, ?_⟩
      rintro x hx rfl
      -- a backslash is no digit
      obtain ⟨d, hd⟩ := h.octal _ (List.mem_cons_of_mem _ hx)
      exact not_isDigit _ (by decide) 8 (by decide) d hd
  | hex _ hd => exact ⟨_, _, rfl, hcode _ _ hd⟩
  | kept => exact ⟨_, [], rfl, by simp⟩

/-- What follows a piece stands between marks too. -/
theorem Piece.quotedText (hcode : ∀ digits d, code digits d → ∀ c ∈ digits, c ≠ '\\')
    {mark : Char} (h : Piece code u out rest) (hbody : Grammar.QuotedText mark (u ++ rest)) :
    Grammar.QuotedText mark rest := by
  cases h with
  | plain h => exact Grammar.QuotedText.of_append (by simpa using h) hbody
  | escape h =>
    obtain ⟨c, digits, rfl, hdigits⟩ := h.tail_ne hcode
    rw [List.cons_append, List.cons_append] at hbody
    cases hbody with
    | escaped _ h => exact Grammar.QuotedText.of_append hdigits h
    | plain hc => exact absurd (by simp [Grammar.quoteStops]) hc

/-- A character behind a backslash begins an escape, or one that is broken. -/
theorem standsFor_or_broken (code : List Char → Char → Prop) (c : Char) (cs : List Char) :
    (∃ u out rest, c :: cs = u ++ rest ∧ StandsFor code u out rest) ∨
      Broken code ('\\' :: c :: cs) := by
  by_cases hsingle : ∃ out, (c, out) ∈ singles
  · obtain ⟨out, h⟩ := hsingle
    exact .inl ⟨[c], out, cs, rfl, .single h⟩
  by_cases hhex : ∃ width, (c, width) ∈ hexWidths
  · -- the digits that the letter asks for are there, or the escape is broken
    obtain ⟨width, hc⟩ := hhex
    by_cases h : ∃ digits d, digits <+: cs ∧ digits.length = width ∧ code digits d
    · obtain ⟨digits, d, ⟨rest, rfl⟩, rfl, hd⟩ := h
      exact .inl ⟨c :: digits, [d], rest, rfl, .hex hc hd⟩
    · exact .inr ⟨c, width, cs, rfl, hc, fun digits d hp hlen hd => h ⟨digits, d, hp, hlen, hd⟩⟩
  by_cases hoctal : ∃ n, IsDigit 8 c n
  · -- as many digits as there are, three at most
    obtain ⟨digits, rest, hcs, hrun⟩ := exists_octalRun 3 (c :: cs)
    obtain ⟨d, hd⟩ := hrun.exists_number
    refine .inl ⟨digits, [d], rest, hcs, .octal hrun ?_ hd⟩
    rintro rfl
    obtain rfl : c :: cs = rest := hcs
    obtain ⟨n, hn⟩ := hoctal
    exact hrun.greedy (by decide) c rfl n hn
  · exact .inl ⟨[c], ['\\', c], cs, rfl,
      .kept ⟨fun out h => hsingle ⟨out, h⟩, fun width h => hhex ⟨width, h⟩,
        fun n h => hoctal ⟨n, h⟩⟩⟩

/-- Every body denotes a text, or its pieces lead to an escape that is broken. -/
theorem denotes_or_reaches (hcode : ∀ digits d, code digits d → ∀ c ∈ digits, c ≠ '\\')
    {mark : Char} (hbody : Grammar.QuotedText mark body) :
    (∃ text, Denotes code body text) ∨ Reaches code (Broken code) body := by
  induction hlen : body.length using Nat.strong_induction_on generalizing body with
  | _ n ih =>
    -- A piece is not empty, so that what follows it is shorter.
    have hstep : ∀ {u out rest}, Piece code u out rest → u ≠ [] → body = u ++ rest →
        (∃ text, Denotes code body text) ∨ Reaches code (Broken code) body := by
      rintro u out rest h hne rfl
      have hlt : rest.length < n := by
        rw [← hlen, List.length_append]
        exact Nat.lt_add_of_pos_left (List.length_pos_iff.mpr hne)
      obtain ⟨text, hrest⟩ | hrest := ih _ hlt (h.quotedText hcode hbody) rfl
      · exact .inl ⟨out ++ text, .piece h hrest⟩
      · exact .inr (.piece h hrest)
    cases hbody with
    | nil => exact .inl ⟨[], .nil⟩
    | @escaped c w _ =>
      obtain ⟨u, out, rest, hu, h⟩ | h := standsFor_or_broken code c w
      · exact hstep (.escape h) (List.cons_ne_nil _ _) (congrArg (List.cons '\\') hu)
      · exact .inr (.here h)
    | @plain c w hc _ =>
      have hne : c ≠ '\\' := by
        rintro rfl
        exact hc (by simp [Grammar.quoteStops])
      exact hstep (.plain hne) (List.cons_ne_nil _ _) rfl

/-! ### Plus signs in place of digits -/

/-- The escape in front has a plus sign in place of the first digit. -/
def Signed (body : List Char) : Prop :=
  ∃ c digits d rest, body = '\\' :: c :: '+' :: (digits ++ rest) ∧
    (c, digits.length + 1) ∈ hexWidths ∧ HexCode digits d

theorem Signed.broken (h : Signed body) : Broken HexCode body := by
  obtain ⟨c, ds, d, rest, rfl, hc, -⟩ := h
  refine ⟨c, ds.length + 1, _, rfl, hc, ?_⟩
  rintro digits d' ⟨t, ht⟩ hlen hd
  cases digits with
  | nil => cases hlen
  | cons x digits =>
    obtain rfl : x = '+' := (List.cons.inj ht).1
    exact hd.ne (x := '+') (by decide) '+' (List.mem_cons_self ..) rfl

theorem SignedHexCode.ne {digits : List Char} {d : Char} (h : SignedHexCode digits d) :
    ∀ c ∈ digits, c ≠ '\\' := by
  rcases h with h | ⟨rest, rfl, h⟩
  · exact h.ne (by decide)
  · intro c hc
    rcases List.mem_cons.mp hc with rfl | hc
    · decide
    · exact h.ne (by decide) c hc

theorem Broken.mono {code' : List Char → Char → Prop}
    (h : ∀ digits d, code' digits d → code digits d) (hbroken : Broken code body) : Broken code' body := by
  obtain ⟨c, width, rest, rfl, hc, hnone⟩ := hbroken
  exact ⟨c, width, rest, rfl, hc, fun digits d hp hlen hd => hnone digits d hp hlen (h _ _ hd)⟩

theorem Piece.mono {code' : List Char → Char → Prop}
    (h : ∀ digits d, code digits d → code' digits d) (hpiece : Piece code u out rest) : Piece code' u out rest := by
  cases hpiece with
  | plain hc => exact .plain hc
  | escape hpiece =>
    refine .escape ?_
    cases hpiece with
    | single hc => exact .single hc
    | octal hrun hne hd => exact .octal hrun hne hd
    | hex hc hd => exact .hex hc (h _ _ hd)
    | kept hc => exact .kept hc

/-- A piece has no sign in place of a digit, or it has one and stands there. -/
theorem Piece.unsigned_or_signed (h : Piece SignedHexCode u out rest) :
    Piece HexCode u out rest ∨ Signed (u ++ rest) := by
  cases h with
  | plain hc => exact .inl (.plain hc)
  | escape h =>
    cases h with
    | single hc => exact .inl (.escape (.single hc))
    | octal hrun hne hd => exact .inl (.escape (.octal hrun hne hd))
    | hex hc hd =>
      rcases hd with hd | ⟨digits, rfl, hd⟩
      · exact .inl (.escape (.hex hc hd))
      · -- the sign stands where the piece begins
        exact .inr ⟨_, digits, _, rest, rfl, hc, hd⟩
    | kept hc => exact .inl (.escape (.kept hc))

theorem Denotes.signed (h : Denotes HexCode body text) : Denotes SignedHexCode body text := by
  induction h with
  | nil => exact .nil
  | piece h _ ih => exact .piece (h.mono fun _ _ => .inl) ih

theorem Denotes.unsigned_or_signed (h : Denotes SignedHexCode body text) :
    Denotes HexCode body text ∨ Reaches HexCode Signed body := by
  induction h with
  | nil => exact .inl .nil
  | piece h _ ih =>
    obtain h | h := h.unsigned_or_signed
    · exact ih.imp (.piece h) (.piece h)
    · exact .inr (.here h)

theorem Reaches.imp {P Q : List Char → Prop} (hPQ : ∀ body, P body → Q body)
    (h : Reaches code P body) : Reaches code Q body := by
  induction h with
  | here h => exact .here (hPQ _ h)
  | piece h _ ih => exact .piece h ih

theorem Reaches.unsigned (h : Reaches SignedHexCode (Broken SignedHexCode) body) :
    Reaches HexCode (Broken HexCode) body := by
  induction h with
  | here h => exact .here (h.mono fun _ _ => .inl)
  | piece h _ ih =>
    obtain h | h := h.unsigned_or_signed
    · exact .piece h ih
    · exact .here h.broken

/-- An escape without enough digits has a sign in place of one, or is refused. -/
theorem Broken.signed_or_broken (h : Broken HexCode body) :
    Signed body ∨ Broken SignedHexCode body := by
  obtain ⟨c, width, rest, rfl, hc, hnone⟩ := h
  by_cases hsigned : ∃ digits d, '+' :: digits <+: rest ∧ digits.length + 1 = width ∧
      HexCode digits d
  · obtain ⟨digits, d, ⟨rest, rfl⟩, rfl, hd⟩ := hsigned
    exact .inl ⟨c, digits, d, rest, rfl, hc, hd⟩
  · refine .inr ⟨c, width, rest, rfl, hc, ?_⟩
    rintro digits d hp hlen (hd | ⟨digits, rfl, hd⟩)
    · exact hnone digits d hp hlen hd
    · exact hsigned ⟨digits, d, hp, hlen, hd⟩

theorem Reaches.signed_or_broken (h : Reaches HexCode (Broken HexCode) body) :
    Reaches HexCode Signed body ∨ Reaches SignedHexCode (Broken SignedHexCode) body := by
  induction h with
  | here h => exact h.signed_or_broken.imp .here .here
  | piece h _ ih => exact ih.imp (.piece h) (.piece (h.mono fun _ _ => .inl))

/-- A body without plus signs has none in place of a digit. -/
theorem Reaches.plus_mem (h : Reaches code Signed body) : '+' ∈ body := by
  induction h with
  | here h =>
    obtain ⟨c, digits, d, rest, rfl, -⟩ := h
    simp
  | piece _ _ ih => exact List.mem_append_right _ ih

/-! ### The bodies of literals -/

/-- One of the rules for what stands between marks reads the whole text. -/
def Admitted (body : List Char) : Prop :=
  ∃ r ∈ [Grammar.Rule.doubleBody, Grammar.Rule.singleBody], ∃ fuel after,
    Grammar.run fuel r.body ⟨false, false⟩ ⟨body, 0, [], .start⟩ = .matched after ∧
      after.rest = []

theorem Admitted.quotedText (h : Admitted body) : ∃ mark, Grammar.QuotedText mark body := by
  obtain ⟨r, hr, fuel, after, hrun, hrest⟩ := h
  have hreads := Grammar.run_shows fuel r.body ⟨false, false⟩ ⟨body, 0, [], .start⟩
  rw [hrun] at hreads
  obtain ⟨ts, hreads, -⟩ := hreads
  -- what was read is a quoted text, and it is all of the body
  have hquoted : ∀ (mark : Char) (s : String), s.toList = [mark] → r.body = Grammar.quotedBody s →
      ∃ mark, Grammar.QuotedText mark body := by
    intro mark s hs hbody
    rw [hbody] at hreads
    obtain ⟨w, hw, hquoted, -⟩ := hreads.of_quotedBody hs rfl
    refine ⟨mark, ?_⟩
    have hw : body = w ++ after.rest := hw
    rwa [hw, hrest, List.append_nil]
  rcases List.mem_pair.mp hr with rfl | rfl
  · exact hquoted '"' _ rfl rfl
  · exact hquoted '\'' _ rfl rfl

/-- The body is read piece by piece, and refused exactly if that leads to a letter that is not
followed by digits that name a character. -/
def Conforms (body : List Char) : Prop :=
  (∀ text, unescape body = some text ↔ Denotes HexCode body text) ∧
    (unescape body = none ↔ Reaches HexCode (Broken HexCode) body)

theorem Admitted.denotes_or_reaches (h : Admitted body) :
    (∃ text, Denotes SignedHexCode body text) ∨
      Reaches SignedHexCode (Broken SignedHexCode) body := by
  obtain ⟨mark, hquoted⟩ := h.quotedText
  exact Escape.denotes_or_reaches (fun _ _ => SignedHexCode.ne) hquoted

theorem unescape_eq_some_iff (h : Admitted body) :
    unescape body = some text ↔ Denotes SignedHexCode body text := by
  refine ⟨fun hsome => ?_, Denotes.unescape⟩
  obtain ⟨text', htext⟩ | hbroken := h.denotes_or_reaches
  · rw [htext.unescape] at hsome
    cases hsome
    exact htext
  · cases hsome.symm.trans hbroken.unescape

theorem unescape_eq_none_iff (h : Admitted body) :
    unescape body = none ↔ Reaches SignedHexCode (Broken SignedHexCode) body := by
  refine ⟨fun hnone => ?_, Reaches.unescape⟩
  obtain ⟨text, htext⟩ | hbroken := h.denotes_or_reaches
  · cases hnone.symm.trans htext.unescape
  · exact hbroken

theorem conforms_iff (h : Admitted body) :
    Conforms body ↔ (Reaches HexCode Signed body → unescape body = none) := by
  constructor
  · rintro ⟨-, hnone⟩ hsigned
    exact hnone.mpr (hsigned.imp fun _ => Signed.broken)
  · intro hrefused
    -- Where no sign is reached, both readings are the same, and where one is, there is no text.
    refine ⟨fun text => ⟨fun hsome => ?_, fun htext => htext.signed.unescape⟩, ?_, ?_⟩
    · refine ((unescape_eq_some_iff h).mp hsome).unsigned_or_signed.resolve_right fun hsigned => ?_
      cases hsome.symm.trans (hrefused hsigned)
    · exact fun hnone => ((unescape_eq_none_iff h).mp hnone).unsigned
    · exact fun hbroken => hbroken.signed_or_broken.elim hrefused Reaches.unescape

/-- **Bodies are read piece by piece**, where a plus sign may stand in place of the first of some
hexadecimal digits. So the bodies that are not read as they should be are those that have such a
sign and are accepted. -/
theorem unescape_exact (h : Admitted body) :
    (∀ text, unescape body = some text ↔ Denotes SignedHexCode body text) ∧
      (unescape body = none ↔ Reaches SignedHexCode (Broken SignedHexCode) body) ∧
        (Conforms body ↔ (Reaches HexCode Signed body → unescape body = none)) :=
  ⟨fun _ => unescape_eq_some_iff h, unescape_eq_none_iff h, conforms_iff h⟩

/-- All kinds of pieces in one body, which is read as it should be. -/
theorem unescape_exact_pieces :
    Admitted "\\x41\\1019\\q\\'\\\n".toList ∧
      Denotes SignedHexCode "\\x41\\1019\\q\\'\\\n".toList "AA9\\q'".toList ∧
        Conforms "\\x41\\1019\\q\\'\\\n".toList := by
  have hadmitted : Admitted "\\x41\\1019\\q\\'\\\n".toList :=
    ⟨.singleBody, by decide, 20, _, rfl, rfl⟩
  obtain ⟨hsome, -, hconforms⟩ := unescape_exact hadmitted
  refine ⟨hadmitted, (hsome _).mp (by decide +kernel), hconforms.mpr fun hsigned => ?_⟩
  exact absurd hsigned.plus_mem (by decide)

/-- **Some body is accepted though it lacks a digit**: a plus sign stands in its place. -/
theorem not_unescape_exact : ¬ ∀ body, Admitted body → Conforms body := by
  intro hall
  have hadmitted : Admitted ['\\', 'x', '+', '5'] := ⟨.singleBody, by decide, 20, _, rfl, rfl⟩
  have hsigned : Signed ['\\', 'x', '+', '5'] :=
    ⟨'x', ['5'], '\x05', [], rfl, by decide, (readDigits?_eq_some_iff (by decide)).mp (by decide)⟩
  have hsome : unescape ['\\', 'x', '+', '5'] = some ['\x05'] := by decide +kernel
  have hnone := (conforms_iff hadmitted).mp (hall _ hadmitted) (.here hsigned)
  cases hsome.symm.trans hnone

end CatalogQuery.Escape
