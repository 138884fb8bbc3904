/-!
Sets of characters as ranges of code points.
-/

namespace CrossAsm.Text

/-- The first and the last code point of each range, in ascending order. -/
abbrev Ranges := List (Nat × Nat)

def Ranges.holds (ranges : Ranges) (c : Char) : Bool :=
  ranges.any fun (first, last) => first ≤ c.toNat && c.toNat ≤ last

end CrossAsm.Text
