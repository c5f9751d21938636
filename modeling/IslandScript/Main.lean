import IslandScript.Command.Characters
import IslandScript.Command.Invocation
import IslandScript.Command.Session
import IslandScript.Text.Decode
import Std.Time.DateTime.Timestamp

/-!
# The command

Reads the arguments, files and standard input, runs what they ask for, and writes what comes of
it. A program that may ask for input is given all of standard input when it starts.
-/

namespace IslandScript.Command

/-- Writes to standard output at once. -/
def writeOut (text : String) : IO Unit := do
  let out ← IO.getStdout
  out.putStr text
  out.flush

/-- The rest of standard input. -/
partial def readAll (input : IO.FS.Stream) (before : ByteArray) : IO ByteArray := do
  let bytes ← input.read 65536
  if bytes.isEmpty then return before else readAll input (before ++ bytes)

/-- The next line of standard input, if there is one. -/
partial def readLineBytes (input : IO.FS.Stream) (before : ByteArray) :
    IO (Option (Option String)) := do
  let bytes ← input.read 1
  if bytes.isEmpty then
    return if before.isEmpty then none else some (Text.decode? before)
  else if bytes.get! 0 == 0x0A then return some (Text.decode? (before ++ bytes))
  else readLineBytes input (before ++ bytes)

/-- Why a file could not be read. -/
def failureOf : IO.Error → ReadFailure
  | .noFileOrDirectory .. => .missing
  | .inappropriateType _ code _ => if code == 20 then .notDirectory else .directory
  | e => .other (toString e)

/-- A console at the present time. -/
def console (input : List (Option String)) : IO Console := do
  let now ← Std.Time.Timestamp.now
  return Console.new input (Float.ofInt now.toNanosecondsSinceUnixEpoch.val / 1e9)

/-- What is written for a run that did not finish. -/
def notFinished : String := "error: the evaluation did not finish\n"

/-- Runs the file at a path: the exit code. -/
def file [Text.CharNames] (withCore : Bool) (path : String) : IO UInt32 := do
  let bytes ← try Except.ok <$> IO.FS.readBinFile path
    catch e => pure (Except.error (failureOf e))
  match bytes.bind (sourceOf path) with
  | .error e =>
    IO.eprint (unreadable path e)
    return 1
  | .ok source =>
    let input ← if mayRead source then readAll (← IO.getStdin) ByteArray.empty
      else pure ByteArray.empty
    let m := Interpreter.new Linker.new (← console (Text.decodeLines input))
    match runFile withCore source m with
    | .done r m =>
      writeOut m.store.console.sink.output
      IO.eprint r.reports
      return UInt32.ofNat (r.code % 256).toNat
    | _ =>
      IO.eprint notFinished
      return 1

/-- Writes what a session writes. -/
def writeEvents (events : List Event) : IO Unit := do
  for e in events do
    writeOut e.outputText
    IO.eprint e.reportedText

/-- Runs the lines of a session from standard input: the exit code. -/
partial def lines [Text.CharNames] (input : IO.FS.Stream) (m : Interpreter) : IO UInt32 := do
  writeOut prompt
  match Entry.of (← readLineBytes input ByteArray.empty) with
  | .ended => return 0
  | .malformed =>
    IO.eprint malformedInput
    return 1
  | .line text =>
    match runLine text m with
    | .done events m =>
      writeEvents events
      lines input m
    | _ =>
      IO.eprint notFinished
      return 1

/-- Runs a session: the exit code. -/
def session [Text.CharNames] (withCore : Bool) : IO UInt32 := do
  match beginSession withCore (Interpreter.new Linker.new (← console [])) with
  | .done (.ok e) m =>
    writeEvents [e]
    lines (← IO.getStdin) m
  | .done (.error e) _ =>
    writeEvents [e]
    return 0
  | _ =>
    IO.eprint notFinished
    return 1

end IslandScript.Command

open IslandScript.Command in
/-- Runs a file or a session. -/
def main (args : List String) : IO UInt32 :=
  letI := charNames
  match Invocation.ofArgs args with
  | .help => do
    IO.eprint usage
    return 0
  | .misuse => do
    IO.eprint usage
    return 1
  | .run ⟨withCore, some path⟩ => file withCore path
  | .run ⟨withCore, none⟩ => session withCore
