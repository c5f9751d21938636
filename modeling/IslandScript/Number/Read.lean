import IslandScript.Number.Power

/-!
# Reading numbers

The texts of number literals, with their underscores already taken out. A decimal is digits, a
fraction and an exponent; the digits are never empty, the fraction may be, and an exponent has
digits. The value is the nearest float. A literal with a radix is a signed integer of 64 bits.
-/

namespace IslandScript.Number

/-- The value of a digit in any radix up to 36. -/
def digitValue? (c : Char) : Option Nat :=
  if c.isDigit then some (c.toNat - '0'.toNat)
  else if 'a' ≤ c && c ≤ 'z' then some (c.toNat - 'a'.toNat + 10)
  else if 'A' ≤ c && c ≤ 'Z' then some (c.toNat - 'A'.toNat + 10)
  else none

/-- Whether a character is a digit of the sixteen. -/
def isHexDigit (c : Char) : Bool :=
  c.isDigit || ('a' ≤ c && c ≤ 'f') || ('A' ≤ c && c ≤ 'F')

/-- Reads digits of a radix behind `value`. -/
def readDigits (radix : Nat) (value : Nat) : List Char → Option Nat
  | [] => some value
  | c :: cs =>
    match digitValue? c with
    | some d => if d < radix then readDigits radix (value * radix + d) cs else none
    | none => none

/-- Reads a non-empty run of digits of a radix. -/
def readNat? (radix : Nat) (cs : List Char) : Option Nat :=
  if cs.isEmpty then none else readDigits radix 0 cs

/-- Reads an integer that fits 64 bits with a sign: one sign at most, then digits. -/
def readInt64? (radix : Nat) (cs : List Char) : Option Int :=
  let value : Option Int :=
    match cs with
    | '-' :: digits => (readNat? radix digits).map fun n => -(n : Int)
    | '+' :: digits => (readNat? radix digits).map Int.ofNat
    | digits => (readNat? radix digits).map Int.ofNat
  value.filter fun n => -(twoPow 63 : Int) ≤ n && n < (twoPow 63 : Int)

/-- Reads a natural number that fits 64 bits: at most one plus sign, then digits. -/
def readIndex? (cs : List Char) : Option Nat :=
  let digits := match cs with
    | '+' :: digits => digits
    | digits => digits
  (readNat? 10 digits).filter (· < twoPow 64)

/-- The float nearest to `digits * 10 ^ exponent`. Decimals far outside the range of floats are
decided by the place of their leading digit, so that no huge power is computed. -/
def ofDecimal (digits : Nat) (exponent : Int) : Float :=
  let leading := exponent + ((toString digits).length : Int)
  if digits == 0 then 0.0
  else if 310 < leading then 1.0 / 0.0
  else if leading < -330 then 0.0
  else Float.ofScientific digits (exponent < 0) exponent.natAbs

/-- Reads the exponent of a decimal: nothing, or a marker, at most one sign, and digits. -/
def readExponent? : List Char → Option Int
  | [] => some 0
  | marker :: cs =>
    if marker == 'e' || marker == 'E' then
      match cs with
      | '-' :: digits => (readNat? 10 digits).map fun n => -(n : Int)
      | '+' :: digits => (readNat? 10 digits).map Int.ofNat
      | digits => (readNat? 10 digits).map Int.ofNat
    else none

/-- Reads a decimal: digits, then a point and any number of digits or neither, then an
exponent. -/
def readDecimal? (cs : List Char) : Option Float :=
  let whole := cs.takeWhile Char.isDigit
  let rest := cs.dropWhile Char.isDigit
  let (fraction, rest) :=
    match rest with
    | '.' :: rest => (rest.takeWhile Char.isDigit, rest.dropWhile Char.isDigit)
    | rest => ([], rest)
  match readNat? 10 (whole ++ fraction), readExponent? rest with
  | some digits, some exponent => some (ofDecimal digits (exponent - fraction.length))
  | _, _ => none

end IslandScript.Number
