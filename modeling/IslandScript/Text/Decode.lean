/-!
# Bytes as lines of text

Input arrives as bytes. A line is what ends with a newline, which belongs to it, or what is left
at the end. A line whose bytes are no UTF-8 has no text.
-/

namespace IslandScript.Text

/-- Bytes cut behind each newline. -/
def byteLines : List UInt8 → List (List UInt8)
  | [] => []
  | b :: rest =>
    if b == 0x0A then [b] :: byteLines rest
    else
      match byteLines rest with
      | [] => [[b]]
      | line :: lines => (b :: line) :: lines

/-- The text that bytes encode, if they encode one. -/
def decode? (bytes : ByteArray) : Option String := String.fromUTF8? bytes

/-- The lines of a stream of bytes, each with its line end, and without a text where the bytes
encode none. -/
def decodeLines (bytes : ByteArray) : List (Option String) :=
  (byteLines bytes.toList).map fun line => decode? ⟨line.toArray⟩

end IslandScript.Text
