/-!
# Ranges of code points

A set of characters, written down as ranges of their code points.
-/

namespace TextMacro

/-- A set of code points: ranges in ascending order, with both ends included. -/
abbrev Ranges := Array (Nat × Nat)

/-- Whether the code point of a character is in one of the ranges. -/
def Ranges.contains (ranges : Ranges) (c : Char) : Bool :=
  ranges.any fun (first, last) => first ≤ c.toNat && c.toNat ≤ last

end TextMacro
