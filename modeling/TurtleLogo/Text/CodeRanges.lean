/-!
# Sets of code points

A property of characters is given as a list of closed ranges of code points, in ascending order and apart from each other.
-/

namespace TurtleLogo
namespace Text

/-- Closed ranges of code points. -/
abbrev CodeRanges := List (Nat × Nat)

/-- Whether a character lies in one of the ranges. -/
def CodeRanges.has (ranges : CodeRanges) (c : Char) : Bool :=
  ranges.any fun range => range.1 ≤ c.toNat && c.toNat ≤ range.2

end Text
end TurtleLogo
