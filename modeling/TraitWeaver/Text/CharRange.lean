/-!
# Ranges of characters

A property of characters as the list of its ranges.
-/

namespace TraitWeaver.Text

/-- The character lies in one of the ranges, both ends of which belong to it. -/
def inRanges (ranges : List (Nat × Nat)) (c : Char) : Bool :=
  ranges.any fun (first, last) => first ≤ c.toNat && c.toNat ≤ last

end TraitWeaver.Text
