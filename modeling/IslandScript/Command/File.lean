import IslandScript.Interpreter.Run

/-!
# Running a file

One program in an interpreter of its own. Warnings and then the error, if there is one, are
reported; the exit code is the one the program asks for, and one after an error.
-/

namespace IslandScript.Command

open Eval

variable [Text.CharNames]

/-- How the run of a file ended. -/
structure FileResult where
  code : Int
  reports : String
  deriving DecidableEq, Repr

/-- What is written for reports about a source. -/
def reported (ds : List Diagnostic) (source : Source) : String :=
  String.join (ds.map (·.emitted (some source)))

/-- Whether a program may ask for input. It has to name one of the functions that read. -/
def mayRead (source : Source) : Bool :=
  (Lexer.scan source.text).tokens.any fun t =>
    t.kind == .name "read" || t.kind == .name "readln"

/-- Runs the program of a file. -/
def runFile (withCore : Bool) (source : Source) : Eval FileResult := do
  match ← Interpreter.start withCore [] with
  | .error d => return ⟨1, d.emitted none⟩
  | .ok () =>
    let result ← Interpreter.runSource source
    let warnings ← take (·.takeWarnings)
    change (·.close)
    match result with
    | .ok r => return ⟨r.exitCode?.getD 0, reported warnings source⟩
    | .error d => return ⟨1, reported (warnings ++ [d]) source⟩

/-- Why a file cannot be read. -/
inductive ReadFailure where
  | missing
  | notDirectory
  | directory
  | malformed
  | other (text : String)
  deriving DecidableEq, Repr

/-- How the failure to read is worded. -/
def ReadFailure.text : ReadFailure → String
  | missing => "No such file or directory (os error 2)"
  | notDirectory => "Not a directory (os error 20)"
  | directory => "Is a directory (os error 21)"
  | malformed => "stream did not contain valid UTF-8"
  | other text => text

/-- What is written for a file that cannot be read. -/
def unreadable (path : String) (e : ReadFailure) : String :=
  s!"error: could not read '{path}': {e.text}\n"

/-- The name of the source in a file: the last part of its path. -/
def sourceName (path : String) : String :=
  match ((Text.split path "/").reverse.filter fun part => part != "" && part != ".").head? with
  | some part => if part == ".." then path else part
  | none => path

/-- The source in a file, from the bytes at its path. -/
def sourceOf (path : String) (bytes : ByteArray) : Except ReadFailure Source :=
  match String.fromUTF8? bytes with
  | some text => .ok ⟨sourceName path, text⟩
  | none => .error .malformed

end IslandScript.Command
