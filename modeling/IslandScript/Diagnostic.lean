import IslandScript.Source
import IslandScript.Span
import IslandScript.Text.Blank
import IslandScript.Text.Box

/-!
# Diagnostics

What a stage has to report. An error is drawn as a box with the line it is about and an
underline; without a source line only its header is boxed. A warning is one line.
-/

namespace IslandScript

/-- The stage that reports. -/
inductive Stage where
  | lexer
  | parser
  | runtime
  | linker
  deriving DecidableEq, Repr

/-- How a stage is written. -/
def Stage.text : Stage → String
  | .lexer => "Lexer"
  | .parser => "Parser"
  | .runtime => "Runtime"
  | .linker => "Linker"

/-- Whether a report ends the work or not. -/
inductive Severity where
  | error
  | warning
  deriving DecidableEq, Repr

/-- A report of one stage, with the place it is about. -/
structure Diagnostic where
  severity : Severity
  stage : Stage
  message : String
  span : Option Span
  deriving DecidableEq, Repr

namespace Diagnostic

/-- The place of a report; a span that stands nowhere is no place. -/
def place (span : Span) : Option Span :=
  if span.isNone then none else some span

/-- An error at a place. -/
def error (stage : Stage) (message : String) (span : Span) : Diagnostic :=
  ⟨.error, stage, message, place span⟩

/-- An error about no place. -/
def standalone (stage : Stage) (message : String) : Diagnostic :=
  ⟨.error, stage, message, none⟩

/-- A warning. -/
def warning (stage : Stage) (message : String) (span : Span) : Diagnostic :=
  ⟨.warning, stage, message, place span⟩

/-- Whether a report is an error. -/
def isError (d : Diagnostic) : Bool := d.severity == .error

/-- The message with exactly one exclamation mark at its end. -/
def exclaimed (d : Diagnostic) : String :=
  String.ofList (d.message.toList.reverse.dropWhile (· == '!')).reverse ++ "!"

/-- The one line of a warning. -/
def renderWarning (d : Diagnostic) : String :=
  let location := match d.span with
    | some span => " " ++ span.display
    | none => ""
  s!"Warning @ O'ahu {d.stage.text} -> {d.exclaimed}{location}"

/-- The first line of an error. -/
def header (d : Diagnostic) : String :=
  s!"O'ahu {d.stage.text} Error ✿ {d.exclaimed}"

/-- The row of the place, its line, and an underline below the characters of the span. -/
def quotation (span : Span) (line : String) : String :=
  let row := toString span.row
  let spacing := String.ofList (List.replicate (span.column + row.length + 1) ' ')
  let underline := String.ofList (List.replicate (max span.length 1) '═')
  s!"{row}| {line}\n{spacing}{underline}"

/-- The box of an error. -/
def renderError (d : Diagnostic) (source : Option Source) : String :=
  let quoted := do
    let span ← d.span
    let line ← (← source).line? span.row
    return (span, line)
  match quoted with
  | some (span, line) => Text.box (d.header ++ "\n\n" ++ quotation span line)
  | none => Text.box d.header

/-- How a report is shown, beside the source it is about. -/
def render (d : Diagnostic) (source : Option Source) : String :=
  match d.severity with
  | .warning => d.renderWarning
  | .error => d.renderError source

/-- What is written for a report: what is shown, without blanks at its end, and a newline. -/
def emitted (d : Diagnostic) (source : Option Source) : String :=
  String.ofList (Text.trimEnd (d.render source).toList) ++ "\n"

end Diagnostic
end IslandScript
