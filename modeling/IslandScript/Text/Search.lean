/-!
# Searching, splitting and joining

A separator is searched from the left, and the next search starts behind the separator found, so
overlapping occurrences count once. An empty separator splits a text into its characters.
-/

namespace IslandScript.Text

/-- Whether `part` occurs in a text. -/
def occursIn (part : List Char) : List Char → Bool
  | [] => part.isEmpty
  | c :: cs => part.isPrefixOf (c :: cs) || occursIn part cs

/-- The parts of a text between the occurrences of a separator. The number counts the characters
that still belong to the separator found last. -/
def partsBetween (separator : List Char) : Nat → List Char → List (List Char)
  | _, [] => [[]]
  | k + 1, _ :: cs => partsBetween separator k cs
  | 0, c :: cs =>
    if separator.isPrefixOf (c :: cs) then
      [] :: partsBetween separator (separator.length - 1) cs
    else
      match partsBetween separator 0 cs with
      | [] => [[c]]
      | part :: parts => (c :: part) :: parts

/-- Splits a text at a separator; an empty separator splits it into its characters. -/
def split (s separator : String) : List String :=
  if separator.isEmpty then s.toList.map String.singleton
  else (partsBetween separator.toList 0 s.toList).map String.ofList

/-- Joins texts with a separator between neighbours. -/
def join (separator : String) (parts : List String) : String :=
  separator.intercalate parts

end IslandScript.Text
