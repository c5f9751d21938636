/-!
# Sets of characters as ranges

A property of characters beyond ASCII is a table of closed ranges of code points, in ascending
order. Membership is a search of the table.
-/

namespace IslandScript.Text

/-- A set of code points: closed ranges, each `(first, last)`. -/
abbrev CharRanges := Array (Nat × Nat)

/-- Whether a code point lies in one of the ranges. -/
def CharRanges.contains (ranges : CharRanges) (code : Nat) : Bool :=
  ranges.any fun range => range.1 ≤ code && code ≤ range.2

end IslandScript.Text
