import IslandScript.Text.Lines

/-!
# Sources

A named unit of text: a file, one line of a session, or the prelude of a link.
-/

namespace IslandScript

/-- A named text. -/
structure Source where
  name : String
  text : String
  deriving DecidableEq, Repr, Inhabited

namespace Source

/-- The name of a line entered in a session. -/
def sessionName : String := "<REPL>"

/-- One line entered in a session. -/
def ofSession (text : String) : Source := ⟨sessionName, text⟩

/-- The text of a row without its line end; rows count from one. -/
def line? (s : Source) (row : Nat) : Option String :=
  if row == 0 then none else (Text.lines s.text)[row - 1]?

end Source
end IslandScript
