/-!
# Sets of code points

The sets of characters that a rule about text speaks of are given as ranges of code points.

## Main definitions

* `Text.Ranges`: a set of code points.
* `Text.Ranges.has`: whether a character is in such a set.
-/

namespace RatCalc

namespace Text

/-- A set of code points, as ranges in ascending order with both ends included. -/
abbrev Ranges := List (Nat × Nat)

/-- Whether the code point of a character lies in one of the ranges. -/
def Ranges.has (ranges : Ranges) (c : Char) : Bool :=
  ranges.any fun (first, last) => first ≤ c.toNat && c.toNat ≤ last

end Text

end RatCalc
