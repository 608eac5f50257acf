import CatalogQuery.Text.Lowercase
import Mathlib.Data.List.Infix

/-!
# Lower case inside a larger text

The lower case of a text is made character by character, but a capital sigma looks at what stands
around it. So the lower case of a part depends on the texts before and behind the part
(`Text.lowercaseWithin`), and only through its capital sigmas.

`Text.steady` says of a text that each of its capital sigmas finds what it looks for inside the
text. This is exactly when the lower case of the text is found in the lower case of every larger text
(`steady_iff_infix`): a letter before or behind the text is enough to change any other sigma.
-/

namespace CatalogQuery.Text

/-! ### What a capital sigma looks at -/

/-- The lower case of a capital sigma between two texts, of which the first is given backwards. -/
def lowercaseSigma (before after : List Char) : Char :=
  if casedNext before && !casedNext after then 'ς' else 'σ'

/-- Some character of the text is not passed over. -/
def decides (cs : List Char) : Bool := cs.any fun c => !isCaseIgnorable c

/-- What comes next is found in the first text, if it is found there at all. -/
theorem casedNext_append (cs ds : List Char) :
    casedNext (cs ++ ds) = if decides cs then casedNext cs else casedNext ds := by
  induction cs with
  | nil => rfl
  | cons c cs ih =>
    have hcons : decides (c :: cs) = (!isCaseIgnorable c || decides cs) := rfl
    rw [hcons]
    cases hc : isCaseIgnorable c with
    | true =>
      -- the character is passed over
      have hskip : ∀ es, casedNext (c :: es) = casedNext es := fun es => by
        rw [casedNext, List.dropWhile_cons_of_pos hc, ← casedNext]
      rw [List.cons_append, hskip, hskip, ih]
      rfl
    | false =>
      -- the character is the one that is found
      have hfound : ∀ es, casedNext (c :: es) = isCased c := fun es => by
        rw [casedNext, List.dropWhile_cons_of_neg (by simp [hc])]
      rw [List.cons_append, hfound, hfound]
      rfl

/-- A text in which nothing is found decides nothing. -/
theorem decides_of_casedNext {cs : List Char} (h : casedNext cs = true) : decides cs = true := by
  by_contra hcs
  have := casedNext_append cs []
  rw [List.append_nil, if_neg hcs, h] at this
  cases this

/-- The lower case of a capital sigma between these texts is the same in every larger text: a cased
character follows, or none precedes, or both sides are decided. -/
def settles (before after : List Char) : Bool :=
  casedNext after || (decides before && (!casedNext before || decides after))

theorem lowercaseSigma_append {before after : List Char} (h : settles before after = true)
    (outer outer' : List Char) :
    lowercaseSigma (before ++ outer) (after ++ outer') = lowercaseSigma before after := by
  simp only [settles, Bool.or_eq_true, Bool.and_eq_true, Bool.not_eq_true'] at h
  rw [lowercaseSigma, lowercaseSigma, casedNext_append, casedNext_append]
  rcases h with hafter | ⟨hbefore, hnone | hafter⟩
  · rw [if_pos (decides_of_casedNext hafter), hafter]
    simp
  · rw [if_pos hbefore, hnone]
    rfl
  · rw [if_pos hbefore, if_pos hafter]

/-- A capital sigma that is not settled is changed by any letter before the text, or by any letter
behind it. -/
theorem lowercaseSigma_of_not_settles {before after : List Char}
    (h : settles before after = false) :
    (∀ x, casedNext [x] = true →
      lowercaseSigma (before ++ [x]) after ≠ lowercaseSigma before after) ∨
    ∀ x, casedNext [x] = true →
      lowercaseSigma before (after ++ [x]) ≠ lowercaseSigma before after := by
  simp only [settles, Bool.or_eq_false_iff, Bool.and_eq_false_iff, Bool.not_eq_false'] at h
  obtain ⟨hafter, hbefore | ⟨hcased, hopen⟩⟩ := h
  · -- nothing cased stands before it, and a letter there makes it a final one
    left
    intro x hx
    have hnone : casedNext before = false := by
      by_contra hcased
      rw [decides_of_casedNext (by simpa using hcased)] at hbefore
      cases hbefore
    simp [lowercaseSigma, casedNext_append, hbefore, hafter, hnone, hx]
  · -- a cased letter stands before it, and one behind it makes it no final one
    right
    intro x hx
    simp [lowercaseSigma, casedNext_append, hopen, hafter, hcased, hx]

/-! ### Parts of a text -/

/-- The lower case that a text has between two others, of which the first is given backwards. -/
def lowercaseWithin (before : List Char) : List Char → List Char → List Char
  | [], _ => []
  | c :: rest, after =>
    (if c = 'Σ' then [lowercaseSigma before (rest ++ after)] else lowercaseChar c)
      ++ lowercaseWithin (c :: before) rest after

theorem lowercaseWithin_append (before cs ds after : List Char) :
    lowercaseWithin before (cs ++ ds) after
      = lowercaseWithin before cs (ds ++ after)
        ++ lowercaseWithin (cs.reverse ++ before) ds after := by
  induction cs generalizing before with
  | nil => rfl
  | cons c cs ih =>
    rw [List.cons_append, lowercaseWithin, lowercaseWithin, ih, List.append_assoc,
      List.append_assoc, List.reverse_cons, List.append_assoc, List.singleton_append]

theorem lowercaseFrom_eq (before cs : List Char) :
    lowercaseFrom before cs = lowercaseWithin before cs [] := by
  induction cs generalizing before with
  | nil => rfl
  | cons c cs ih => rw [lowercaseFrom, lowercaseWithin, ih, List.append_nil, lowercaseSigma]

theorem toLowercase_eq (cs : List Char) : toLowercase cs = lowercaseWithin [] cs [] :=
  lowercaseFrom_eq [] cs

/-- The lower case of a text is that of its parts, each between the others. -/
theorem toLowercase_append₃ (as cs bs : List Char) :
    toLowercase (as ++ cs ++ bs)
      = lowercaseWithin [] as (cs ++ bs) ++ lowercaseWithin as.reverse cs bs
        ++ lowercaseWithin ((as ++ cs).reverse) bs [] := by
  rw [toLowercase_eq, lowercaseWithin_append, lowercaseWithin_append, List.append_nil,
    List.append_nil, List.append_nil]

theorem lowercaseChar_ne_nil (c : Char) : lowercaseChar c ≠ [] := by
  unfold lowercaseChar
  split_ifs
  · exact List.cons_ne_nil _ _
  · exact List.cons_ne_nil _ _
  · split <;> exact List.cons_ne_nil _ _

theorem lowercaseWithin_ne_nil {cs : List Char} (h : cs ≠ []) (before after : List Char) :
    lowercaseWithin before cs after ≠ [] := by
  obtain ⟨c, cs, rfl⟩ := List.exists_cons_of_ne_nil h
  rw [lowercaseWithin]
  split_ifs
  · exact List.cons_ne_nil _ _
  · exact List.append_ne_nil_of_left_ne_nil (lowercaseChar_ne_nil c) _

/-- What stands around a text does not change the length of its lower case. -/
theorem length_lowercaseWithin (before before' cs after after' : List Char) :
    (lowercaseWithin before cs after).length = (lowercaseWithin before' cs after').length := by
  induction cs generalizing before before' with
  | nil => rfl
  | cons c cs ih =>
    rw [lowercaseWithin, lowercaseWithin, List.length_append, List.length_append, ih]
    split_ifs <;> rfl

/-! ### Steady texts -/

/-- Every capital sigma of a text is settled between the text before it and the rest. -/
def steadyFrom (before : List Char) : List Char → Bool
  | [] => true
  | c :: rest => (c != 'Σ' || settles before rest) && steadyFrom (c :: before) rest

/-- Every capital sigma of the text has the same lower case in every larger text. -/
def steady (cs : List Char) : Bool := steadyFrom [] cs

theorem lowercaseWithin_of_steadyFrom {before cs : List Char} (h : steadyFrom before cs = true)
    (outer after : List Char) :
    lowercaseWithin (before ++ outer) cs after = lowercaseWithin before cs [] := by
  induction cs generalizing before with
  | nil => rfl
  | cons c cs ih =>
    obtain ⟨hc, hrest⟩ := Bool.and_eq_true_iff.mp h
    rw [lowercaseWithin, lowercaseWithin, ← List.cons_append, ih hrest, List.append_nil]
    congr 1
    -- only a capital sigma looks at what is around it
    by_cases hsigma : c = 'Σ'
    · have hsettles : settles before cs = true := by simpa [hsigma] using hc
      rw [if_pos hsigma, if_pos hsigma, lowercaseSigma_append hsettles]
    · rw [if_neg hsigma, if_neg hsigma]

/-- A text that is not steady has a capital sigma that is not settled. -/
theorem exists_of_steadyFrom_eq_false {before cs : List Char} (h : steadyFrom before cs = false) :
    ∃ ds es, cs = ds ++ 'Σ' :: es ∧ settles (ds.reverse ++ before) es = false := by
  induction cs generalizing before with
  | nil => cases h
  | cons c cs ih =>
    rcases Bool.and_eq_false_iff.mp h with hc | hrest
    · obtain ⟨hsigma, hsettles⟩ := Bool.or_eq_false_iff.mp hc
      obtain rfl : c = 'Σ' := by simpa using hsigma
      exact ⟨[], cs, rfl, hsettles⟩
    · obtain ⟨ds, es, rfl, hsettles⟩ := ih hrest
      exact ⟨c :: ds, es, rfl, by simpa using hsettles⟩

/-- The lower cases of a text between other texts agree at each of its capital sigmas. -/
theorem lowercaseSigma_of_lowercaseWithin_eq {ds es outer outer' after after' : List Char}
    (h : lowercaseWithin outer (ds ++ 'Σ' :: es) after
      = lowercaseWithin outer' (ds ++ 'Σ' :: es) after') :
    lowercaseSigma (ds.reverse ++ outer) (es ++ after)
      = lowercaseSigma (ds.reverse ++ outer') (es ++ after') := by
  rw [lowercaseWithin_append, lowercaseWithin_append] at h
  have hrest := (List.append_inj h (length_lowercaseWithin _ _ ds _ _)).2
  rw [lowercaseWithin, lowercaseWithin, if_pos rfl, if_pos rfl] at hrest
  exact (List.cons.inj hrest).1

/-! ### Lower case found in lower case -/

/-- A list of the same length is not found behind a new head, unless it is the list itself. -/
theorem eq_of_infix_cons {x : Char} {cs ds : List Char} (hlength : cs.length = ds.length)
    (hne : cs ≠ []) (hhead : cs.head? ≠ some x) (h : cs <:+: x :: ds) : cs = ds := by
  rcases List.infix_cons_iff.mp h with hstart | hinfix
  · obtain ⟨c, cs, rfl⟩ := List.exists_cons_of_ne_nil hne
    obtain ⟨rest, hrest⟩ := hstart
    cases hrest
    exact absurd rfl hhead
  · exact hinfix.eq_of_length hlength

/-- Nor is it found before a new last element. -/
theorem eq_of_infix_concat {x : Char} {cs ds : List Char} (hlength : cs.length = ds.length)
    (hne : cs ≠ []) (hlast : cs.getLast? ≠ some x) (h : cs <:+: ds ++ [x]) : cs = ds := by
  have hreverse : cs.reverse <:+: x :: ds.reverse := by
    have := List.reverse_infix.mpr h
    rwa [List.reverse_append, List.reverse_singleton, List.singleton_append] at this
  have hhead : cs.reverse.head? ≠ some x := by rwa [List.head?_reverse]
  have := eq_of_infix_cons (by simpa using hlength) (by simpa using hne) hhead hreverse
  exact List.reverse_inj.mp this

/-- Some small letter is not the one given. -/
theorem exists_letter (o : Option Char) :
    ∃ x, o ≠ some x ∧ casedNext [x] = true ∧ ∀ before after, lowercaseWithin before [x] after = [x] := by
  by_cases ho : o = some 'a'
  · exact ⟨'b', by simp [ho], by decide +kernel, fun _ _ => rfl⟩
  · exact ⟨'a', ho, by decide +kernel, fun _ _ => rfl⟩

/-- **A text is steady** exactly if its lower case is found in that of every larger text. -/
theorem steady_iff_infix {cs : List Char} (hcs : cs ≠ []) :
    steady cs = true ↔ ∀ as bs, toLowercase cs <:+: toLowercase (as ++ cs ++ bs) := by
  constructor
  · -- the lower case of the middle does not depend on what is around it
    intro h as bs
    have hwithin : lowercaseWithin as.reverse cs bs = toLowercase cs := by
      rw [toLowercase_eq, ← lowercaseWithin_of_steadyFrom h as.reverse bs, List.nil_append]
    rw [toLowercase_append₃, hwithin]
    exact ⟨_, _, rfl⟩
  · intro hall
    by_contra hsteady
    -- an unsettled sigma, and a letter around the text that changes it
    obtain ⟨ds, es, rfl, hsettles⟩ := exists_of_steadyFrom_eq_false (Bool.not_eq_true _ ▸ hsteady)
    have hlength (before after : List Char) :
        (lowercaseWithin [] (ds ++ 'Σ' :: es) []).length
          = (lowercaseWithin before (ds ++ 'Σ' :: es) after).length := length_lowercaseWithin ..
    have hne := lowercaseWithin_ne_nil hcs [] []
    rw [toLowercase_eq] at hall
    -- at that end the text has another character, so its lower case can only stand in its old place
    rcases lowercaseSigma_of_not_settles hsettles with hbefore | hafter
    · obtain ⟨x, hhead, hcased, hx⟩ := exists_letter
        (lowercaseWithin [] (ds ++ 'Σ' :: es) []).head?
      have hinfix := hall [x] []
      rw [toLowercase_append₃, hx, lowercaseWithin, List.append_nil, List.singleton_append] at hinfix
      have heq := eq_of_infix_cons (hlength _ _) hne hhead hinfix
      exact hbefore x hcased (by simpa using (lowercaseSigma_of_lowercaseWithin_eq heq).symm)
    · obtain ⟨x, hlast, hcased, hx⟩ := exists_letter
        (lowercaseWithin [] (ds ++ 'Σ' :: es) []).getLast?
      have hinfix := hall [] [x]
      rw [toLowercase_append₃, hx, lowercaseWithin, List.nil_append] at hinfix
      have heq := eq_of_infix_concat (hlength _ _) hne hlast hinfix
      exact hafter x hcased (by simpa using (lowercaseSigma_of_lowercaseWithin_eq heq).symm)

end CatalogQuery.Text
