import CatalogQuery.Source.Normalize
import CatalogQuery.Source.Snippet
import Mathlib.Data.List.Basic
import Mathlib.Tactic.Common

/-!
# Byte offsets

`cut?_eq_some_iff` and `piece?_eq_some_iff` say what it means that a text can be cut at byte
offsets.

The normal form of a source is written over the source in place (`InPlace`): each character of the
source becomes one of as many bytes, or as many blanks as it has bytes. So an offset between two
characters of the normal form is one between two characters of the source, unless it lies inside
such a run of blanks. Two facts say when it does not: no blank stands after the offset
(`InPlace.split`), or none stands before it (`InPlace.pass`).
-/

namespace CatalogQuery.Source

/-! ### Lengths and cuts -/

@[simp] theorem byteLength_nil : byteLength [] = 0 := rfl

@[simp] theorem byteLength_cons (c : Char) (cs : List Char) :
    byteLength (c :: cs) = c.utf8Size + byteLength cs := rfl

@[simp] theorem byteLength_append (cs ds : List Char) :
    byteLength (cs ++ ds) = byteLength cs + byteLength ds := by
  rw [byteLength, byteLength, byteLength, List.map_append, List.sum_append]

theorem byteLength_replicate_blank (n : Nat) : byteLength (List.replicate n ' ') = n := by
  induction n with
  | zero => rfl
  | succ n ih =>
    rw [List.replicate_succ, byteLength_cons, ih, show ' '.utf8Size = 1 from rfl, Nat.add_comm]

/-- A text is cut where the part before the cut ends. -/
theorem cut?_eq_some_iff {n : Nat} {cs before after : List Char} :
    cut? n cs = some (before, after) ↔ cs = before ++ after ∧ byteLength before = n := by
  induction cs generalizing n before with
  | nil =>
    cases n with
    | zero =>
      rw [cut?, Option.some.injEq, Prod.mk.injEq]
      constructor
      · rintro ⟨rfl, rfl⟩
        exact ⟨rfl, rfl⟩
      · rintro ⟨h, -⟩
        obtain ⟨rfl, rfl⟩ := List.append_eq_nil_iff.mp h.symm
        exact ⟨rfl, rfl⟩
    | succ n =>
      rw [cut?]
      constructor
      · intro h
        cases h
      · rintro ⟨h, hlen⟩
        obtain ⟨rfl, rfl⟩ := List.append_eq_nil_iff.mp h.symm
        cases hlen
  | cons c cs ih =>
    have hsize : 0 < c.utf8Size := c.utf8Size_pos
    cases n with
    | zero =>
      rw [cut?, Option.some.injEq, Prod.mk.injEq]
      constructor
      · rintro ⟨rfl, rfl⟩
        exact ⟨rfl, rfl⟩
      · rintro ⟨h, hlen⟩
        cases before with
        | nil => exact ⟨rfl, h⟩
        | cons b before =>
          have := b.utf8Size_pos
          rw [byteLength_cons] at hlen
          omega
    | succ n =>
      rw [cut?]
      constructor
      · intro h
        -- the first character is no longer than what is left to cut
        split_ifs at h with hle
        obtain ⟨⟨u, v⟩, huv, heq⟩ := Option.map_eq_some_iff.mp h
        obtain ⟨rfl, rfl⟩ := Prod.mk.inj heq
        obtain ⟨rfl, hlen⟩ := ih.mp huv
        refine ⟨rfl, ?_⟩
        rw [byteLength_cons, hlen]
        omega
      · rintro ⟨h, hlen⟩
        cases before with
        | nil => cases hlen
        | cons b before =>
          obtain ⟨rfl, rfl⟩ := List.cons.inj h
          rw [byteLength_cons] at hlen
          rw [if_pos (by omega), ih.mpr ⟨rfl, by omega⟩]
          rfl

/-- The bytes of a string are those of its characters. -/
theorem utf8ByteSize_ofList (cs : List Char) : (String.ofList cs).utf8ByteSize = byteLength cs := by
  induction cs with
  | nil => rfl
  | cons c cs ih =>
    rw [String.ofList_cons, String.utf8ByteSize_append, String.utf8ByteSize_singleton, ih,
      byteLength_cons]

theorem utf8ByteSize_eq (s : String) : s.utf8ByteSize = byteLength s.toList := by
  rw [← utf8ByteSize_ofList, String.ofList_toList]

/-- A position of a string is valid where the string can be cut. -/
theorem isValid_iff {s : String} {p : String.Pos.Raw} :
    p.IsValid s ↔ ∃ before after, s.toList = before ++ after ∧ byteLength before = p.byteIdx := by
  rw [String.Pos.Raw.isValid_iff_exists_append]
  constructor
  · rintro ⟨u, v, rfl, rfl⟩
    exact ⟨u.toList, v.toList, String.toList_append, (utf8ByteSize_eq u).symm⟩
  · rintro ⟨before, after, hs, hlength⟩
    refine ⟨String.ofList before, String.ofList after, ?_, String.Pos.Raw.ext ?_⟩
    · rw [← String.ofList_append, ← hs, String.ofList_toList]
    · rw [← hlength, ← utf8ByteSize_ofList]
      rfl

/-- The piece between two offsets is what stands between a text of the first length and one that
the piece makes as long as the second. -/
theorem piece?_eq_some_iff {start stop : Nat} {cs w : List Char} :
    piece? start stop cs = some w ↔
      ∃ before after, cs = before ++ w ++ after ∧ byteLength before = start ∧
        byteLength (before ++ w) = stop := by
  unfold piece?
  constructor
  · -- a piece is cut off twice, at its start and at its length
    intro h
    split_ifs at h with hle
    obtain ⟨⟨before, rest⟩, hbefore, h⟩ := Option.bind_eq_some_iff.mp h
    obtain ⟨⟨u, after⟩, hpiece, rfl⟩ := Option.map_eq_some_iff.mp h
    obtain ⟨rfl, hstart⟩ := cut?_eq_some_iff.mp hbefore
    obtain ⟨rfl, hlen⟩ := cut?_eq_some_iff.mp hpiece
    refine ⟨before, after, (List.append_assoc ..).symm, hstart, ?_⟩
    rw [byteLength_append, hstart, hlen]
    omega
  · -- what stands around the piece is what the two cuts leave
    rintro ⟨before, after, rfl, rfl, rfl⟩
    rw [byteLength_append, if_pos (Nat.le_add_right _ _), Nat.add_sub_cancel_left,
      cut?_eq_some_iff.mpr ⟨List.append_assoc .., rfl⟩]
    show (cut? (byteLength w) (w ++ after)).map Prod.fst = some w
    rw [cut?_eq_some_iff.mpr ⟨rfl, rfl⟩]
    rfl

/-! ### Writing in place -/

/-- The second text is written over the first: each character has become one of as many bytes, or
as many blanks. -/
inductive InPlace : List Char → List Char → Prop where
  | nil : InPlace [] []
  | char {c d : Char} {cs ds : List Char} (hsize : d.utf8Size = c.utf8Size) (h : InPlace cs ds) :
      InPlace (c :: cs) (d :: ds)
  | blanked (c : Char) {cs ds : List Char} (h : InPlace cs ds) :
      InPlace (c :: cs) (List.replicate c.utf8Size ' ' ++ ds)

namespace InPlace

variable {cs ds cs' ds' w rest : List Char}

theorem append (h : InPlace cs ds) (h' : InPlace cs' ds') : InPlace (cs ++ cs') (ds ++ ds') := by
  induction h with
  | nil => exact h'
  | char hsize _ ih => exact .char hsize ih
  | blanked c _ ih =>
    rw [List.append_assoc]
    exact .blanked c ih

theorem refl (cs : List Char) : InPlace cs cs := by
  induction cs with
  | nil => exact .nil
  | cons c cs ih => exact .char rfl ih

/-- A text that is changed character by character. -/
theorem map {f : Char → Char} (hf : ∀ c, (f c).utf8Size = c.utf8Size) (cs : List Char) :
    InPlace cs (cs.map f) := by
  induction cs with
  | nil => exact .nil
  | cons c cs ih => exact .char (hf c) ih

/-- Nothing becomes longer or shorter. -/
theorem byteLength_eq (h : InPlace cs ds) : byteLength ds = byteLength cs := by
  induction h with
  | nil => rfl
  | char hsize _ ih => rw [byteLength_cons, byteLength_cons, hsize, ih]
  | blanked c _ ih => rw [byteLength_append, byteLength_cons, byteLength_replicate_blank, ih]

/-- The first text is cut, too, where no blank follows in the second. -/
theorem split (h : InPlace cs (w ++ rest)) (hrest : rest.head? ≠ some ' ') :
    ∃ u v, cs = u ++ v ∧ byteLength u = byteLength w ∧ InPlace v rest := by
  generalize hds : w ++ rest = ds at h
  induction h generalizing w with
  | nil =>
    obtain ⟨rfl, rfl⟩ := List.append_eq_nil_iff.mp hds
    exact ⟨[], [], rfl, rfl, .nil⟩
  | @char c d cs ds hsize h ih =>
    cases w with
    | nil =>
      obtain rfl : rest = d :: ds := hds
      exact ⟨[], c :: cs, rfl, rfl, .char hsize h⟩
    | cons x w =>
      obtain ⟨rfl, rfl⟩ := List.cons.inj hds
      obtain ⟨u, v, rfl, hlen, hv⟩ := ih rfl
      exact ⟨c :: u, v, rfl, by rw [byteLength_cons, byteLength_cons, hlen, hsize], hv⟩
  | @blanked c cs ds _ ih =>
    rcases List.append_eq_append_iff.mp hds with ⟨t, hblanks, rfl⟩ | ⟨t, rfl, rfl⟩
    · -- a cut inside the blanks would leave a blank in front
      cases t with
      | nil =>
        obtain ⟨u, v, rfl, hlen, hv⟩ := ih (w := []) rfl
        rw [List.append_nil] at hblanks
        refine ⟨c :: u, v, rfl, ?_, hv⟩
        rw [byteLength_cons, hlen, ← hblanks, byteLength_replicate_blank, byteLength_nil,
          Nat.add_zero]
      | cons x t =>
        have hx : x ∈ List.replicate c.utf8Size ' ' := by
          rw [hblanks]
          exact List.mem_append_right w List.mem_cons_self
        rw [List.eq_of_mem_replicate hx] at hrest
        exact absurd rfl hrest
    · obtain ⟨u, v, rfl, hlen, hv⟩ := ih rfl
      refine ⟨c :: u, v, rfl, ?_, hv⟩
      rw [byteLength_cons, hlen, byteLength_append, byteLength_replicate_blank]

/-- What is passed over without a blank has not been blanked. -/
theorem pass (h : InPlace cs (w ++ rest)) (hw : ∀ c ∈ w, c ≠ ' ') :
    ∃ u v, cs = u ++ v ∧ byteLength u = byteLength w ∧ InPlace v rest := by
  induction w generalizing cs with
  | nil => exact ⟨[], cs, rfl, rfl, h⟩
  | cons x w ih =>
    obtain ⟨hx, hw⟩ := List.forall_mem_cons.mp hw
    generalize hds : x :: w ++ rest = ds at h
    cases h with
    | nil => cases hds
    | @char c d cs ds hsize h =>
      obtain ⟨rfl, rfl⟩ := List.cons.inj hds
      obtain ⟨u, v, rfl, hlen, hv⟩ := ih h hw
      exact ⟨c :: u, v, rfl, by rw [byteLength_cons, byteLength_cons, hlen, hsize], hv⟩
    | blanked c h =>
      -- blanks for a character would begin with a blank
      obtain ⟨n, hn⟩ := Nat.exists_eq_add_one.mpr c.utf8Size_pos
      rw [hn, List.replicate_succ] at hds
      exact absurd (List.cons.inj hds).1 hx

end InPlace

/-! ### The normal form -/

/-- Lowering a character is a matter of ASCII. -/
theorem utf8Size_toLower (c : Char) : c.toLower.utf8Size = c.utf8Size := by
  unfold Char.toLower
  split
  · -- a capital is at most `Z`, so it and its small letter take one byte
    rename_i hupper
    have hle : c.val.toNat ≤ 90 := hupper.2
    have hsmall : c.val ≤ 127 := by
      rw [UInt32.le_iff_toNat_le]
      show c.val.toNat ≤ 127
      omega
    have hlower : c.val + 32 ≤ 127 := by
      rw [UInt32.le_iff_toNat_le, UInt32.toNat_add]
      show (c.val.toNat + 32) % 4294967296 ≤ 127
      omega
    rw [Char.utf8Size_eq_one_iff.mpr hsmall, Char.utf8Size_eq_one_iff]
    exact hlower
  · rfl

theorem settle_inPlace (word : List Char) : InPlace word (settle word) := by
  unfold settle
  dsimp only
  split
  · exact .map utf8Size_toLower word
  · exact .refl word

theorem joined_utf8Size (depth : Nat) : (joined depth).utf8Size = '\n'.utf8Size := by
  unfold joined
  split <;> rfl

theorem faded_inPlace (depth : Nat) (c : Char) {cs ds : List Char} (h : InPlace cs ds) :
    InPlace (c :: cs) (faded depth c ++ ds) := by
  unfold faded
  split
  · exact .blanked c h
  · exact .char rfl h

theorem settleChar_inPlace (depth : Nat) (c : Char) {cs ds : List Char} (h : InPlace cs ds) :
    InPlace (c :: cs) (settleChar depth c ++ ds) := by
  unfold settleChar
  split_ifs with hnewline
  · rw [hnewline]
    exact .char (joined_utf8Size depth) h
  · exact faded_inPlace depth c h
  · exact .char rfl h

/-- **The normal form is written in place.** A word is only begun in code. -/
theorem normalizeFrom_inPlace (zone : Zone) (word cs : List Char)
    (hword : word = [] ∨ ∃ depth, zone = .code depth) :
    InPlace (word ++ cs) (normalizeFrom zone word cs) := by
  fun_induction normalizeFrom zone word cs with
  | case1 zone word =>
    rw [List.append_nil]
    exact settle_inPlace word
  | case2 mark escaped depth word c cs ih =>
    -- in a quote
    obtain rfl : word = [] := by simpa using hword
    exact .char rfl (ih (.inl rfl))
  | case3 depth word cs ih =>
    -- the end of a comment
    obtain rfl : word = [] := by simpa using hword
    exact .char (joined_utf8Size depth) (ih (.inl rfl))
  | case4 depth word c cs _ ih =>
    -- in a comment
    obtain rfl : word = [] := by simpa using hword
    exact faded_inPlace depth c (ih (.inl rfl))
  | case5 depth word c cs _ ih =>
    -- a letter makes the word longer
    rw [List.append_cons]
    exact ih (.inr ⟨depth, rfl⟩)
  | case6 depth word c cs _ ih =>
    -- anything else in code settles the word
    rw [List.append_assoc]
    exact (settle_inPlace word).append (settleChar_inPlace depth c (ih (.inl rfl)))

theorem normalizeChars_inPlace (cs : List Char) : InPlace cs (normalizeChars cs) :=
  normalizeFrom_inPlace (.code 0) [] cs (.inl rfl)

end CatalogQuery.Source
