import IslandScript.Text.Lines

/-!
# Boxes

A message is drawn in a box of rounded corners. Every line is padded to the widest one, widths
being counted in characters, and an empty line becomes a divider.
-/

namespace IslandScript.Text

/-- Pads a text with spaces to `width` characters. -/
def padEnd (s : String) (width : Nat) : String :=
  s ++ String.ofList (List.replicate (width - s.length) ' ')

/-- The number of characters of the longest line. -/
def widest (body : List String) : Nat :=
  body.foldl (fun width line => max width line.length) 0

/-- A horizontal rule between two corners. -/
def rule (left right : Char) (width : Nat) : String :=
  String.ofList (left :: (List.replicate (width + 2) '─' ++ [right]))

/-- One line of a box: a divider for an empty line, else the line between its borders. -/
def boxLine (width : Nat) (line : String) : String :=
  if line.isEmpty then rule '├' '┤' width
  else "│ " ++ padEnd line width ++ " │"

/-- The lines of the box around some lines. -/
def boxLines (body : List String) : List String :=
  let width := widest body
  rule '╭' '╮' width :: (body.map (boxLine width) ++ [rule '╰' '╯' width])

/-- The box around a message; each of its lines ends with a newline. -/
def box (message : String) : String :=
  String.join ((boxLines (lines message)).map (· ++ "\n"))

end IslandScript.Text
