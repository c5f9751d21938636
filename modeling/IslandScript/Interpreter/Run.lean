import IslandScript.Eval.Evaluator
import IslandScript.Link.Core
import IslandScript.Number.Binary
import IslandScript.Number.Power
import IslandScript.Parser.Program

/-!
# Running programs

A program runs statement by statement in the current scope, which between runs is the global one.
It ends at its first return or exit, or at the first error; a throw or a jump that leaves a
statement of it is an error at that statement. What an interpreter has come to know stays for the
programs that follow.
-/

namespace IslandScript

/-- How a program ended: its value, and whether it ended by an exit. The value is that of the
return or exit, else that of an expression at the end, else unit. -/
structure RunResult where
  value : Value
  exited : Bool
  deriving DecidableEq, Repr

/-- The exit code a program asks for by an exit: its number cut to a whole one of 32 bits, zero
for any other value. -/
def RunResult.exitCode? (r : RunResult) : Option Int :=
  if r.exited then
    match r.value with
    | .number n =>
      some (Number.truncateTo (-(Number.twoPow 31 : Int)) (Number.twoPow 31 - 1 : Nat) n)
    | _ => some 0
  else none

namespace Interpreter

open Eval

/-- The evaluator of programs. -/
def programs : Evaluator := evaluator Eval.bound

/-- The value a statement leaves: that of an expression, else unit. -/
def statementValue (ev : Evaluator) : Stmt Name → Eval Value
  | .expr _ e => ev.expr e
  | s => do
    ev.stmt s
    return .unit

/-- How a program ends by a signal that leaves a statement of it. -/
def ending (m : Interpreter) (span : Span) : Signal → Except EvalError RunResult
  | .returnValue v => .ok ⟨v, false⟩
  | .exitValue v => .ok ⟨v, true⟩
  | .throwValue v => .error ⟨.uncaughtThrow (m.display v), span⟩
  | .breakLoop _ => .error ⟨.unhandledRedirect .breakLoop, span⟩
  | .continueLoop _ => .error ⟨.unhandledRedirect .continueLoop, span⟩
  | .failed e => .error e

/-- Runs statements, `last` being the value of the one before. -/
def runStatements (ev : Evaluator) : Value → List (Stmt Name) → Eval (Except EvalError RunResult)
  | last, [] => return .ok ⟨last, false⟩
  | _, s :: rest => do
    match ← attempt (statementValue ev s) with
    | .ok v => runStatements ev v rest
    | .error signal => read (·.ending s.span signal)

/-- Runs a program. -/
def run (p : Program Name) : Eval (Except EvalError RunResult) :=
  runStatements programs .unit p

/-- Runs what was parsed. The warnings of the parser are kept. -/
def runParsed (parsed : InternedProgram) : Eval (Except Diagnostic RunResult) := do
  change fun m => { m with interner := parsed.interner }
  change fun m => parsed.warnings.foldl (fun m w => m.warn w.toDiagnostic) m
  match ← run parsed.program with
  | .ok r => return .ok r
  | .error e => return .error e.toDiagnostic

variable [Text.CharNames]

/-- Parses and runs a source. -/
def runSource (source : Source) : Eval (Except Diagnostic RunResult) := do
  match ← read (·.interner.parse source.text) with
  | .error .outOfBound => unfinished
  | .error (.error e) => return .error e.toDiagnostic
  | .ok parsed => runParsed parsed

/-- A source is run as it is parsed over the names that are known. -/
theorem runSource_apply (source : Source) (m : Interpreter) :
    runSource source m =
      match m.interner.parse source.text with
      | .error .outOfBound => .unfinished
      | .error (.error e) => .done (.error e.toDiagnostic) m
      | .ok parsed => runParsed parsed m := by
  change (match m.interner.parse source.text with
    | .error .outOfBound => unfinished
    | .error (.error e) => return .error e.toDiagnostic
    | .ok parsed => runParsed parsed : Eval (Except Diagnostic RunResult)) m = _
  rcases m.interner.parse source.text with (e | _) | parsed <;> rfl

theorem runSource_of_parse {source : Source} {m : Interpreter} {parsed : InternedProgram}
    (h : m.interner.parse source.text = .ok parsed) :
    runSource source m = runParsed parsed m := by
  rw [runSource_apply, h]

/-- The warning that a link is imported again. -/
def importedAgain (name : String) : Diagnostic :=
  .warning .linker s!"Link '{name}' has already been imported" Span.none

/-- Imports a link and runs its prelude. A link imported before only gives a warning. -/
def importLink (name : String) : Eval (Except Diagnostic Unit) := do
  match ← read (·.linker.importLink name) with
  | .error kind => return .error (EvalError.toDiagnostic ⟨.link kind, Span.none⟩)
  | .ok (none, _) =>
    change (·.warn (importedAgain name))
    return .ok ()
  | .ok (some source, linker) =>
    change ({ · with linker := linker })
    return (← runSource source).map fun _ => ()

/-- Makes links available and imports them, up to the first that fails. -/
def importLinks : List Link → Eval (Except Diagnostic Unit)
  | [] => return .ok ()
  | link :: rest => do
    change fun m => { m with linker := (m.linker.add link).2 }
    match ← importLink link.name with
    | .ok () => importLinks rest
    | .error d => return .error d

/-- Imports what an interpreter starts with: the core link unless it is not wanted, then further
links. -/
def start (withCore : Bool) (links : List Link) : Eval (Except Diagnostic Unit) := do
  let core ← if withCore then importLink Core.name else pure (.ok ())
  match core with
  | .ok () => importLinks links
  | .error d => return .error d

/-- The value of a name in the global scope. -/
def global? (m : Interpreter) (name : String) : Option Value := do
  let n ← m.interner.get? name
  m.env.scopes.lookup? Environment.global n

/-- Calls a function with values, on no instance. -/
def call (f : FunctionId) (args : List Value) (span : Span) : Eval Value := do
  match ← read (·.functions[f.index]?) with
  | none => unfinished
  | some fn => callFunction programs fn none args span

/-- The warnings since they were last taken, in order. -/
def takeWarnings (m : Interpreter) : List Diagnostic × Interpreter :=
  (m.warnings, { m with warnings := [] })

/-- Closes the imported links and forgets the instances that wrap primitives. -/
def close (m : Interpreter) : Interpreter :=
  { m with linker := m.linker.close.2, wrappers := .empty }

end Interpreter
end IslandScript
