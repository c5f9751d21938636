/-!
# Powers of two and of ten

The two bases of number representations: floats are scaled by powers of two, decimals by powers
of ten. Both are natural numbers of any size.
-/

namespace IslandScript.Number

/-- The power of two with a natural exponent. -/
def twoPow (n : Nat) : Nat := Nat.pow 2 n

/-- The power of ten with a natural exponent. -/
def tenPow (n : Nat) : Nat := Nat.pow 10 n

end IslandScript.Number
