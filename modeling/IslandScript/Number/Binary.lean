import IslandScript.Number.Power

/-!
# Numbers taken apart

A number of the language is a binary float of 64 bits. `Shape.of` reads its bits as a sign, a
natural mantissa and a power of two, so that whole parts, fractions and remainders are computed
on natural numbers, exactly.
-/

namespace IslandScript.Number

/-- What a float is: not a number, an infinity, or `± mantissa * 2 ^ exponent`. -/
inductive Shape where
  | nan
  | infinite (negative : Bool)
  | finite (negative : Bool) (mantissa : Nat) (exponent : Int)
  deriving DecidableEq, Repr

/-- The shape of a float, read from its bits. A mantissa of a normal float has 53 bits. -/
def Shape.of (x : Float) : Shape :=
  let bits := x.toBits.toNat
  let negative := bits / twoPow 63 == 1
  let biased : Nat := bits / twoPow 52 % twoPow 11
  let fraction := bits % twoPow 52
  if biased == 2047 then
    if fraction == 0 then .infinite negative else .nan
  else if biased == 0 then .finite negative fraction (-1074)
  else .finite negative (twoPow 52 + fraction) ((biased : Int) - 1075)

/-- The whole part of `mantissa * 2 ^ exponent`. -/
def wholePart (mantissa : Nat) (exponent : Int) : Nat :=
  if 0 ≤ exponent then mantissa * twoPow exponent.toNat else mantissa / twoPow (-exponent).toNat

/-- Whether `mantissa * 2 ^ exponent` is a whole number. -/
def isWholeMagnitude (mantissa : Nat) (exponent : Int) : Bool :=
  0 ≤ exponent || mantissa % twoPow (-exponent).toNat == 0

/-- Whether a float is a whole number. Infinities are not. -/
def isWhole (x : Float) : Bool :=
  match Shape.of x with
  | .finite _ m e => isWholeMagnitude m e
  | _ => false

/-- Gives a magnitude its sign; zero has one too. -/
def withSign (negative : Bool) (magnitude : Float) : Float :=
  if negative then -magnitude else magnitude

/-- The greatest whole number that is not above a float. Whole numbers, infinities and NaN are
their own. -/
def floor (x : Float) : Float :=
  match Shape.of x with
  | .finite negative m e =>
    if isWholeMagnitude m e then x
    else if negative then -(Float.ofNat (wholePart m e + 1))
    else Float.ofNat (wholePart m e)
  | _ => x

/-- The integer nearest to a float on the side of zero, clamped to `low` and `high`; NaN gives
zero. -/
def truncateTo (low high : Int) (x : Float) : Int :=
  match Shape.of x with
  | .nan => 0
  | .infinite negative => if negative then low else high
  | .finite negative m e =>
    let whole : Int := wholePart m e
    max low (min high (if negative then -whole else whole))

/-- Halves a mantissa while it is even, at most `fuel` times, raising the exponent. -/
def dropTwos : Nat → Nat → Int → Nat × Int
  | 0, m, e => (m, e)
  | fuel + 1, m, e => if m % 2 == 0 && m != 0 then dropTwos fuel (m / 2) (e + 1) else (m, e)

/-- `mantissa * 2 ^ exponent` as a float, for values a float can hold exactly. -/
def ofMagnitude (mantissa : Nat) (exponent : Int) : Float :=
  let (m, e) := dropTwos mantissa.log2 mantissa exponent
  if 0 ≤ e then Float.ofNat (m * twoPow e.toNat)
  else
    -- Two divisions by powers of two, so that neither power overflows.
    let k := (-e).toNat
    Float.ofNat m / Float.ofNat (twoPow (k / 2)) / Float.ofNat (twoPow (k - k / 2))

/-- The remainder of a division that rounds toward zero: it has the sign of the dividend. -/
def remainder (x y : Float) : Float :=
  let nan : Float := 0.0 / 0.0
  match Shape.of x, Shape.of y with
  | .nan, _ | _, .nan | .infinite _, _ => nan
  | .finite .., .infinite _ => x
  | .finite negative m e, .finite _ n f =>
    if n == 0 then nan
    else
      let low := min e f
      let rest := (m * twoPow (e - low).toNat) % (n * twoPow (f - low).toNat)
      withSign negative (ofMagnitude rest low)

end IslandScript.Number
