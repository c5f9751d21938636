/-!
# Repeating a text

A text some number of times, built by doubling, so that long results take few steps.
-/

namespace IslandScript.Text

/-- A text `n` times, where `n` has at most `bits` binary digits. -/
def timesWithin (s : String) : Nat → Nat → String
  | 0, _ => ""
  | bits + 1, n =>
    if n == 0 then ""
    else
      let half := timesWithin s bits (n / 2)
      if n % 2 == 0 then half ++ half else half ++ half ++ s

/-- A text `n` times. -/
def times (s : String) (n : Nat) : String :=
  if s.isEmpty then "" else timesWithin s (n.log2 + 1) n

end IslandScript.Text
