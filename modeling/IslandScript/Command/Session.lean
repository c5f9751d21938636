import IslandScript.Command.File
import IslandScript.Text.Blank
import IslandScript.Text.Lines

/-!
# Sessions

One interpreter runs line after line, so that definitions stay. The value of each line is shown;
errors and warnings are reported and end nothing. A blank line or the end of input ends the
session, and so does a line that is no text.
-/

namespace IslandScript.Command

open Eval

/-- Something a session writes: what it shows itself, what programs print, and reports. -/
inductive Event where
  | shown (text : String)
  | printed (text : String)
  | reported (text : String)
  deriving DecidableEq, Repr

/-- What a session greets with. -/
def banner : String :=
  Text.join "\n"
    ["  ____  _       _    _ _    _",
     " / __ \\ \\|/\\   | |  | | |  | |      /\\",
     "| |  | | /  \\  | |__| | |  | | ____/  \\_",
     "| |  | |/ /\\ \\ |  __  | |  | |\\         |",
     "| |__| / ____ \\| |  | | |__| | \\         \\/|",
     " \\____/_/    \\_\\_|  |_|\\____/   \\___/\\__   \\",
     "                                        \\___\\",
     "      Copyright (C) 2019, KakkoiiChris",
     ""]

/-- What a session shows before it reads a line. -/
def prompt : String := "O'ahu ✿ "

/-- What is written for a stream that is no text. -/
def malformedInput : String := s!"error: {ReadFailure.malformed.text}\n"

/-- How a session reads its next line of input. -/
inductive Entry where
  | line (text : String)
  | ended
  | malformed
  deriving DecidableEq, Repr

/-- Reads a line of input, which is missing at the end. -/
def Entry.of : Option (Option String) → Entry
  | none => .ended
  | some none => .malformed
  | some (some text) => if (Text.trim text.toList).isEmpty then .ended else .line text

/-- Takes what programs have printed. -/
def takePrinted (m : Interpreter) : String × Interpreter :=
  (m.store.console.sink.output,
    { m with store := m.store.onConsole fun c => { c with sink := c.sink.clear } })

variable [Text.CharNames]

/-- Runs one line of a session. -/
def runLine (text : String) : Eval (List Event) := do
  let source := Source.ofSession (Text.trimLineEnd text)
  let result ← Interpreter.runSource source
  let printed ← take takePrinted
  let warnings ← take (·.takeWarnings)
  let before := [.printed printed, .reported (reported warnings source)]
  match result with
  | .ok r => return before ++ [.shown ((← read (·.display r.value)) ++ "\n")]
  | .error d => return before ++ [.reported (d.emitted (some source))]

/-- Begins a session: what it greets with, or the report of why there is none. -/
def beginSession (withCore : Bool) : Eval (Except Event Event) := do
  match ← Interpreter.start withCore [] with
  | .ok () => return .ok (.shown (banner ++ "\n"))
  | .error d => return .error (.reported (d.emitted none))

/-- Runs the lines of a session. The second part of the answer tells whether it ended well. -/
def runLines : List Event → List (Option String) → Eval (List Event × Bool)
  | events, input =>
    let events := events ++ [.shown prompt]
    match input with
    | [] => return (events, true)
    | line :: rest =>
      match Entry.of (some line) with
      | .ended => return (events, true)
      | .malformed => return (events ++ [.reported malformedInput], false)
      | .line text => do runLines (events ++ (← runLine text)) rest

/-- A whole session over lines of input. -/
def runSession (withCore : Bool) (input : List (Option String)) : Eval (List Event × Bool) := do
  match ← beginSession withCore with
  | .error e => return ([e], true)
  | .ok e =>
    let r ← runLines [e] input
    change (·.close)
    return r

namespace Event

/-- What the session itself shows. -/
def shownText : Event → String
  | shown text => text
  | _ => ""

/-- What programs print. -/
def printedText : Event → String
  | printed text => text
  | _ => ""

/-- What is reported. -/
def reportedText : Event → String
  | reported text => text
  | _ => ""

/-- What goes to standard output where programs share it with the session. -/
def outputText : Event → String
  | shown text => text
  | printed text => text
  | reported _ => ""

end Event
end IslandScript.Command
