import IslandScript.Text.Lines

/-!
# The console

Where programs print, what they read, and the clock they ask. Printed text is kept, or thrown
away by a silent sink. A line of input that is no text is consumed like any other and reads as an
empty one. Waiting moves the clock.
-/

namespace IslandScript

/-- Where printed text goes. -/
inductive Sink where
  | buffer (text : String)
  | silent
  deriving DecidableEq, Repr

namespace Sink

/-- Prints a text. -/
def print (text : String) : Sink → Sink
  | buffer kept => buffer (kept ++ text)
  | silent => silent

/-- Prints a text and a line end. -/
def printLine (text : String) (s : Sink) : Sink := (s.print text).print "\n"

/-- What was printed and kept. -/
def output : Sink → String
  | buffer kept => kept
  | silent => ""

/-- Forgets what was printed. -/
def clear : Sink → Sink
  | buffer _ => buffer ""
  | silent => silent

end Sink

/-- A console: where it prints to, the lines of input that are left, and the seconds its clock
shows. -/
structure Console where
  sink : Sink
  input : List (Option String)
  clock : Float
  deriving DecidableEq, Repr

namespace Console

/-- A console that keeps what is printed. -/
def new (input : List (Option String)) (clock : Float) : Console := ⟨.buffer "", input, clock⟩

instance : Inhabited Console := ⟨new [] 0⟩

/-- Prints a text. -/
def print (c : Console) (text : String) : Console := { c with sink := c.sink.print text }

/-- Prints a text and a line end. -/
def printLine (c : Console) (text : String) : Console := { c with sink := c.sink.printLine text }

/-- Reads a line: its text without the line end, which is empty at the end of input. -/
def readLine (c : Console) : String × Console :=
  match c.input with
  | [] => ("", c)
  | line :: rest => (Text.trimLineEnd (line.getD ""), { c with input := rest })

/-- Lets time pass. -/
def wait (c : Console) (seconds : Float) : Console := { c with clock := c.clock + seconds }

end Console
end IslandScript
