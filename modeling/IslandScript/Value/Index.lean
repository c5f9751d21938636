import IslandScript.Number.Binary
import IslandScript.Number.Power
import IslandScript.Value.Table

/-!
# Indices

A list is indexed by a position or a key, a string by a position. A position is a whole number
that is not negative and below the size. A key that a list does not have gives null.
-/

namespace IslandScript

/-- Why a value cannot be indexed. The value itself is at fault in the last case, the index in
the others. -/
inductive IndexError where
  | negative
  | invalid
  | outOfBounds (size : Nat)
  | notIndexable
  deriving DecidableEq, Repr

namespace Value

/-- A number as a natural number, if it is whole and not negative. Numbers too great for any
sequence give one that is. -/
def wholeIndex? (n : Float) : Option Nat :=
  if n ≥ 0 && Number.isWhole n then
    some (Number.truncateTo 0 (Number.twoPow 64 - 1 : Nat) n).toNat
  else none

/-- An index as a position in a sequence. -/
def position (size : Nat) : Value → Except IndexError Nat
  | .number n =>
    if n < 0 then .error .negative
    else
      match wholeIndex? n with
      | none => .error .invalid
      | some i => if i < size then .ok i else .error (.outOfBounds size)
  | _ => .error .invalid

/-- A value indexed by another. -/
def index (ts : Tables) (target i : Value) : Except IndexError Value :=
  match target, i with
  | .list t, .string k => .ok (((ts.get t).key? k).getD .null)
  | .list t, i => do
    let p ← i.position (ts.length t)
    return ((ts.get t).items[p]?).getD .null
  | .string s, i => do
    let cs := s.toList
    let p ← i.position cs.length
    return (cs[p]?).elim .null .ofChar
  | _, _ => .error .notIndexable

end Value
end IslandScript
