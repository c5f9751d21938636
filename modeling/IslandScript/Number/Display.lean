import IslandScript.Number.Shortest

/-!
# How numbers are shown

A number is shown with the fewest digits that read back, and always with a fraction. Magnitudes
from `1e-3` up to, not including, `1e7` are written in plain notation, all others with one digit
before the point and a decimal exponent after `E`.
-/

namespace IslandScript.Number

/-- The least magnitude in plain notation. -/
def plainMin : Float := 1e-3

/-- The least magnitude above those in plain notation. -/
def plainMax : Float := 1e7

/-- `digits * 10 ^ exponent` without an exponent, with a fraction of at least one digit. -/
def plainText (d : Decimal) : String :=
  let digits := toString d.digits
  if 0 ≤ d.exponent then
    digits ++ String.ofList (List.replicate d.exponent.toNat '0') ++ ".0"
  else
    let places := (-d.exponent).toNat
    let padded := List.replicate (places + 1 - digits.length) '0' ++ digits.toList
    let split := padded.length - places
    String.ofList (padded.take split ++ '.' :: padded.drop split)

/-- `digits * 10 ^ exponent` with one digit before the point. -/
def scientificText (d : Decimal) : String :=
  let digits := (toString d.digits).toList
  let fraction := digits.drop 1
  let fraction := if fraction.isEmpty then ['0'] else fraction
  let exponent := d.exponent + (digits.length : Int) - 1
  String.ofList (digits.take 1 ++ '.' :: fraction) ++ "E" ++ toString exponent

/-- A sign in front of a text. -/
def signed (negative : Bool) (text : String) : String :=
  if negative then "-" ++ text else text

/-- How a number is shown. -/
def display (x : Float) : String :=
  match Shape.of x with
  | .nan => "NaN"
  | .infinite negative => signed negative "Infinity"
  | .finite negative 0 _ => signed negative "0.0"
  | .finite negative m e =>
    let magnitude := x.abs
    let d := shortest m e
    signed negative
      (if plainMin ≤ magnitude && magnitude < plainMax then plainText d else scientificText d)

/-- How a number is shown where a whole number needs no fraction. -/
def displayTruncated (x : Float) : String :=
  match Shape.of x with
  | .finite negative m e =>
    if isWholeMagnitude m e && x.abs < plainMax then signed negative (toString (wholePart m e))
    else display x
  | _ => display x

end IslandScript.Number
