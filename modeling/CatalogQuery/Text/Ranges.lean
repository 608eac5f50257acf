/-!
# Sets of characters as ranges

A property of characters that a standard lists is a table of ranges of code points, both ends
included and in increasing order. `Ranges.contains` looks a character up.
-/

namespace CatalogQuery.Text

/-- A set of characters, as ranges of code points with both ends included. -/
abbrev Ranges := List (Nat × Nat)

/-- Whether a character lies in one of the ranges. -/
def Ranges.contains (table : Ranges) (c : Char) : Bool :=
  table.any fun (first, last) => first ≤ c.toNat && c.toNat ≤ last

end CatalogQuery.Text
