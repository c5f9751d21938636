/-!
# Lines of a text

A line ends at a newline; a carriage return right before that newline belongs to the line end.
A text that ends with a newline has no empty line after it.
-/

namespace IslandScript.Text

/-- The lines of a text without their line ends. -/
def linesOf : List Char → List (List Char)
  | [] => []
  | '\n' :: cs => [] :: linesOf cs
  | '\r' :: '\n' :: cs => [] :: linesOf cs
  | c :: cs =>
    match linesOf cs with
    | [] => [[c]]
    | line :: rest => (c :: line) :: rest

/-- The lines of a text without their line ends. -/
def lines (s : String) : List String :=
  (linesOf s.toList).map String.ofList

/-- A text without the carriage returns and newlines it ends with. -/
def trimLineEnd (s : String) : String :=
  String.ofList (s.toList.reverse.dropWhile fun c => c == '\r' || c == '\n').reverse

/-- The lines of a text, each with the newline that ends it. -/
def linesWithEnds : List Char → List (List Char)
  | [] => []
  | '\n' :: cs => ['\n'] :: linesWithEnds cs
  | c :: cs =>
    match linesWithEnds cs with
    | [] => [[c]]
    | line :: rest => (c :: line) :: rest

end IslandScript.Text
