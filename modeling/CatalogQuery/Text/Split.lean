/-!
# Cutting a text at a separator
-/

namespace CatalogQuery.Text

/-- The pieces of a text between separators, one more than there are separators. -/
def split (separator : Char) : List Char → List (List Char)
  | [] => [[]]
  | c :: cs =>
    if c = separator then [] :: split separator cs
    else match split separator cs with
      | [] => [[c]]
      | piece :: pieces => (c :: piece) :: pieces

theorem split_ne_nil (separator : Char) (cs : List Char) : split separator cs ≠ [] := by
  cases cs with
  | nil => simp [split]
  | cons c cs =>
    unfold split
    split
    · simp
    · split <;> simp

/-- Nothing is lost but the separators. -/
theorem intercalate_split (separator : Char) (cs : List Char) :
    [separator].intercalate (split separator cs) = cs := by
  induction cs with
  | nil => rfl
  | cons c cs ih =>
    obtain ⟨piece, pieces, h⟩ := List.exists_cons_of_ne_nil (split_ne_nil separator cs)
    rw [h] at ih
    by_cases hc : c = separator
    · simp [split, hc, h, List.intercalate] at ih ⊢
      exact ih
    · cases pieces <;> simp_all [split, List.intercalate]

end CatalogQuery.Text
