import IslandScript.Number.Binary
import IslandScript.Number.Power

/-!
# The shortest decimal that reads back

A float stands for every real number that rounds to it. Among the decimals of that interval,
`shortest` picks one with the fewest digits, and of those the nearest to the float itself; an
exact tie goes up. All is computed on natural numbers: the interval of `m * 2 ^ e` is the reals
from `(4m - 2) * 2 ^ (e - 2)` to `(4m + 2) * 2 ^ (e - 2)`, its ends included when `m` is even,
and only half as wide below when `m` is the least mantissa of its exponent.
-/

namespace IslandScript.Number

/-- A decimal number `digits * 10 ^ exponent`. -/
structure Decimal where
  digits : Nat
  exponent : Int
  deriving DecidableEq, Repr

/-- The number of decimal digits of a positive number. -/
def decimalLength (n : Nat) : Nat :=
  let guess := n.log2 * 1233 / 4096 + 1
  if tenPow guess ≤ n then guess + 1 else guess

/-- The interval of a positive float over a common denominator: its value, its ends and whether
the ends belong to it. -/
structure RoundingInterval where
  denominator : Nat
  value : Nat
  low : Nat
  high : Nat
  closed : Bool

/-- The reals that round to `m * 2 ^ e`, as multiples of `2 ^ (e - 2)`. -/
def RoundingInterval.of (m : Nat) (e : Int) : RoundingInterval :=
  let unit := twoPow (e - 2).toNat
  let below := if m == twoPow 52 && e != -1074 then 1 else 2
  { denominator := twoPow (2 - e).toNat
    value := 4 * m * unit
    low := (4 * m - below) * unit
    high := (4 * m + 2) * unit
    closed := m % 2 == 0 }

/-- Whether the decimal lies in the interval. -/
def RoundingInterval.contains (r : RoundingInterval) (d : Decimal) : Bool :=
  let scaled := d.digits * tenPow d.exponent.toNat * r.denominator
  let unit := tenPow (-d.exponent).toNat
  if r.closed then r.low * unit ≤ scaled && scaled ≤ r.high * unit
  else r.low * unit < scaled && scaled < r.high * unit

/-- The decimal exponent of the leading digit of the interval's value. -/
def RoundingInterval.leadingExponent (r : RoundingInterval) : Int :=
  (decimalLength (r.value * tenPow 350 / r.denominator) : Int) - 351

/-- The point of the interval nearest to its value among the multiples of `10 ^ exponent`. -/
def RoundingInterval.onGrid? (r : RoundingInterval) (exponent : Int) : Option Decimal :=
  let numerator := r.value * tenPow (-exponent).toNat
  let denominator := r.denominator * tenPow exponent.toNat
  let below : Decimal := ⟨numerator / denominator, exponent⟩
  let above : Decimal := ⟨numerator / denominator + 1, exponent⟩
  match r.contains below, r.contains above with
  | true, true => if 2 * (numerator % denominator) < denominator then some below else some above
  | true, false => some below
  | false, true => some above
  | false, false => none

/-- Searches the grids from `exponent` down, at most `fuel` of them. -/
def RoundingInterval.search (r : RoundingInterval) : Nat → Int → Decimal
  | 0, exponent => ⟨r.value * tenPow (-exponent).toNat / r.denominator, exponent⟩
  | fuel + 1, exponent => (r.onGrid? exponent).getD (r.search fuel (exponent - 1))

/-- Moves zeros at the end of the digits into the exponent, at most `fuel` of them. -/
def Decimal.stripZeros : Nat → Decimal → Decimal
  | 0, d => d
  | fuel + 1, d =>
    if d.digits % 10 == 0 && d.digits != 0 then stripZeros fuel ⟨d.digits / 10, d.exponent + 1⟩
    else d

/-- The shortest decimal that reads back as the positive float `m * 2 ^ e`. Seventeen digits
always suffice. -/
def shortest (m : Nat) (e : Int) : Decimal :=
  let r := RoundingInterval.of m e
  (r.search 17 r.leadingExponent).stripZeros 17

end IslandScript.Number
