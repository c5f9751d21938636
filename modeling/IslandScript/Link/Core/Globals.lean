import IslandScript.Link.Native
import IslandScript.Number.Power
import IslandScript.Text.Blank

/-!
# Global natives

Printing and reading, the clock, ranges of numbers, and the text of a value.
-/

namespace IslandScript.Core

/-- Prints a value. -/
def print (c : Call) : Native Value := do
  let text ← Native.display (c.arg 0)
  Native.change (·.onConsole (·.print text))
  return .unit

/-- Prints a value and a line end. -/
def printLine (c : Call) : Native Value := do
  let text ← Native.display (c.arg 0)
  Native.change (·.onConsole (·.printLine text))
  return .unit

/-- Reads a line of input. -/
def inputLine : Native String :=
  Native.take fun s =>
    let (line, console) := s.console.readLine
    (line, { s with console := console })

/-- The first word of the next line of input. -/
def readWord (_ : Call) : Native Value := return .string (Text.firstWord (← inputLine))

/-- The next line of input. -/
def readLine (_ : Call) : Native Value := return .string (← inputLine)

/-- The seconds the clock shows. -/
def time (_ : Call) : Native Value := return .number (← Native.read (·.console.clock))

/-- Waits a number of seconds. Waiting less than none is no wait, and there is an end to how long
one can wait. -/
def wait (c : Call) : Native Value := do
  let seconds ← c.number 0 ".wait@seconds"
  let seconds := if seconds > 0 then seconds else 0
  if seconds < 18446744073709551616 then
    Native.change (·.onConsole (·.wait seconds))
    return .unit
  else Native.invalidArgument (c.arg 0) ".wait@seconds"

/-- The numbers from `start` up to, not including, `stop`, `step` apart, behind those found so
far. -/
def numbersFrom (stop step : Float) : Nat → Float → Array Value → Array Value
  | 0, _, found => found
  | bound + 1, start, found =>
    if start < stop then numbersFrom stop step bound (start + step) (found.push (.number start))
    else found

/-- More numbers than a range can hold. -/
def rangeBound : Nat := Number.tenPow 12

/-- A range of numbers. Its step has to be positive. -/
def range (c : Call) : Native Value := do
  let start ← c.number 0 ".range@start"
  let stop ← c.number 1 ".range@end"
  let step ← c.number 2 ".range@step"
  if step > 0 then Native.newList (numbersFrom stop step rangeBound start #[]).toList
  else Native.invalidArgument (c.arg 2) ".range@step"

/-- The text of a value. -/
def text (c : Call) : Native Value := return .string (← Native.display (c.arg 0))

/-- The global natives by path. -/
def globals : List (String × NativeFunction) :=
  [(".print", ⟨1, print⟩), (".println", ⟨1, printLine⟩), (".read", ⟨0, readWord⟩),
   (".readln", ⟨0, readLine⟩), (".time", ⟨0, time⟩), (".wait", ⟨1, wait⟩),
   (".range", ⟨3, range⟩), (".str", ⟨1, text⟩)]

end IslandScript.Core
