import CatalogQuery.Proofs.Agent.Fences

/-!
# Queries in code blocks

A response may put a query in a code block (`Response.block`): a fence, behind it on the same line
perhaps the name of a language, the lines of the query, and a fence on a line of its own.

What is trimmed off a text is known from what is left (`Text.trim_eq_iff`): blanks were around it,
and it has none at its own ends. So blanks around a block or at the ends of its body are of no
account, and whatever else the body holds, fences too, is taken out of the block as it is
(`Response.clean_block`).
-/

namespace CatalogQuery

/-! ### What trimming leaves -/

namespace Text

/-- The second text is what is left of the first one without the blanks at its ends. -/
structure Trimmed (cs t : List Char) : Prop where
  around : ∃ u v, cs = u ++ t ++ v ∧ (∀ c ∈ u, isBlank c = true) ∧ ∀ c ∈ v, isBlank c = true
  head : ∀ c ∈ t.head?, isBlank c = false
  last : ∀ c ∈ t.getLast?, isBlank c = false

theorem trimEnd_append_blanks {cs v : List Char} (hv : ∀ c ∈ v, isBlank c = true) :
    trimEnd (cs ++ v) = trimEnd cs := by
  rw [trimEnd, List.reverse_append,
    List.dropWhile_append_of_pos fun c hc => hv c (List.mem_reverse.mp hc), ← trimEnd]

/-- At either end there may be blanks. -/
theorem Trimmed.trim_eq {cs t : List Char} (h : Trimmed cs t) : trim cs = t := by
  obtain ⟨⟨u, v, rfl, hu, hv⟩, hhead, hlast⟩ := h
  rw [trim, trimStart, List.append_assoc, List.dropWhile_append_of_pos hu]
  cases t with
  | nil => rw [List.nil_append, List.dropWhile_eq_nil_iff.mpr hv]; rfl
  | cons c t =>
    have hc : isBlank c = false := hhead c rfl
    rw [List.cons_append, List.dropWhile_cons_of_neg (by simp [hc]), ← List.cons_append,
      trimEnd_append_blanks hv]
    calc trimEnd (c :: t) = trim (c :: t) := by
          rw [trim, trimStart, List.dropWhile_cons_of_neg (by simp [hc])]
      _ = c :: t := trim_eq_self hhead hlast

/-- What is left at the start begins with no blank. -/
theorem head?_dropWhile_isBlank (cs : List Char) :
    ∀ c ∈ (cs.dropWhile isBlank).head?, isBlank c = false := by
  intro c hc
  have hnot := List.head?_dropWhile_not isBlank cs
  rw [Option.mem_def.mp hc] at hnot
  exact hnot

theorem trimmed_trim (cs : List Char) : Trimmed cs (trim cs) := by
  have hstart : cs = cs.takeWhile isBlank ++ trimStart cs := List.takeWhile_append_dropWhile.symm
  have hend : trimStart cs = trim cs ++ ((trimStart cs).reverse.takeWhile isBlank).reverse := by
    rw [trim, trimEnd, ← List.reverse_append, List.takeWhile_append_dropWhile, List.reverse_reverse]
  refine ⟨⟨_, _, by rw [List.append_assoc, ← hend]; exact hstart, ?_, ?_⟩, ?_, ?_⟩
  · intro c hc
    exact List.mem_takeWhile_imp hc
  · intro c hc
    exact List.mem_takeWhile_imp (List.mem_reverse.mp hc)
  · intro c hc
    refine head?_dropWhile_isBlank cs c ?_
    -- what is left at the end begins where what is left at the start does
    change c ∈ (trimStart cs).head?
    rw [hend, List.head?_append, Option.mem_def.mp hc]
    rfl
  · intro c hc
    rw [trim, trimEnd, List.getLast?_reverse] at hc
    exact head?_dropWhile_isBlank (trimStart cs).reverse c hc

/-- **What trimming leaves**, told without the way it is done. -/
theorem trim_eq_iff {cs t : List Char} : trim cs = t ↔ Trimmed cs t :=
  ⟨fun h => h ▸ trimmed_trim cs, Trimmed.trim_eq⟩

theorem trim_append_blanks (cs : List Char) {v : List Char} (hv : ∀ c ∈ v, isBlank c = true) :
    trim (cs ++ v) = trim cs := by
  obtain ⟨⟨u, w, hcs, hu, hw⟩, hhead, hlast⟩ := trimmed_trim cs
  refine trim_eq_iff.mpr ⟨⟨u, w ++ v, ?_, hu, List.forall_mem_append.mpr ⟨hw, hv⟩⟩, hhead, hlast⟩
  rw [← List.append_assoc, ← hcs]

end Text

/-! ### What is taken out of a block -/

namespace Response

/-- A code block: a fence, the rest of its line, the lines of the body, and a fence on a line of its
own. -/
def block (language body : String) : String := "```" ++ language ++ "\n" ++ body ++ "\n```"

theorem toList_block (language body : String) :
    (block language body).toList
      = fence ++ (language.toList ++ '\n' :: (body.toList ++ ['\n'] ++ fence)) := by
  simp [block, fence, String.toList_append]

/-- A fence at the beginning opens a block: the rest of its line is dropped, and a fence at the end
closes it. -/
theorem cleanChars_block {before language body after : List Char}
    (hbefore : ∀ c ∈ before, Text.isBlank c = true) (hafter : ∀ c ∈ after, Text.isBlank c = true)
    (hline : '\n' ∉ language) :
    cleanChars (before ++ (fence ++ (language ++ '\n' :: (body ++ ['\n'] ++ fence))) ++ after)
      = Text.trim body := by
  -- fences are no blanks, so that the block is all that is left
  have htrim : Text.trim
      (before ++ (fence ++ (language ++ '\n' :: (body ++ ['\n'] ++ fence))) ++ after)
        = fence ++ (language ++ '\n' :: (body ++ ['\n'] ++ fence)) := by
    refine Text.trim_eq_iff.mpr ⟨⟨before, after, rfl, hbefore, hafter⟩, ?_, ?_⟩
    · rintro _ ⟨⟩
      decide
    · have hends : fence ++ (language ++ '\n' :: (body ++ ['\n'] ++ fence))
          = fence ++ (language ++ '\n' :: (body ++ ['\n'])) ++ fence := by simp
      rw [hends, List.getLast?_append]
      rintro _ ⟨⟩
      decide
  rw [cleanChars, htrim, stripStart?_append]
  dsimp only
  rw [afterFirstLine_append hline, stripEnd_append]
  exact Text.trim_append_blanks body (by decide)

/-- A text without a fence at its beginning is only trimmed. -/
theorem cleanChars_of_not_fence {cs : List Char} (h : ¬ fence <+: Text.trim cs) :
    cleanChars cs = Text.trim cs := by
  rw [cleanChars, stripStart?, if_neg fun hp => h (List.isPrefixOf_iff_prefix.mp hp)]

/-- **What is taken out of a code block** is its body, trimmed, whatever the body holds and whatever
stands behind the opening fence or around the block. A response that begins with no fence is
trimmed, and nothing else is taken off. -/
theorem clean_block :
    (∀ before language body after : String,
      (∀ c ∈ before.toList, Text.isBlank c = true) → (∀ c ∈ after.toList, Text.isBlank c = true) →
      '\n' ∉ language.toList →
      clean (before ++ block language body ++ after) = String.ofList (Text.trim body.toList)) ∧
    ∀ response : String, ¬ fence <+: Text.trim response.toList →
      clean response = String.ofList (Text.trim response.toList) := by
  constructor
  · intro before language body after hbefore hafter hline
    rw [clean, String.toList_append, String.toList_append, toList_block,
      cleanChars_block hbefore hafter hline]
  · intro response h
    rw [clean, cleanChars_of_not_fence h]

/-- The body of a block is a block itself, behind a line that holds a fence and ends in a carriage
return; and a query has fences, but none at its beginning. -/
theorem clean_block_nested :
    clean ("\u3000\n" ++ block "py``` \r" ("\n" ++ block "" "f(1)" ++ "\r") ++ "\r\n ")
        = block "" "f(1)" ∧
      clean " f('```')``` " = "f('```')```" := by
  have hbody : String.ofList (Text.trim ("\n" ++ block "" "f(1)" ++ "\r").toList)
      = block "" "f(1)" := by decide +kernel
  have hquery : String.ofList (Text.trim " f('```')``` ".toList) = "f('```')```" := by
    decide +kernel
  constructor
  · rw [← hbody]
    exact clean_block.1 _ _ _ _ (by decide +kernel) (by decide +kernel) (by decide +kernel)
  · rw [← hquery]
    exact clean_block.2 _ (by decide +kernel)

end Response

end CatalogQuery
