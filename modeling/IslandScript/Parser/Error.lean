import IslandScript.Lexer.Error
import IslandScript.Token

/-!
# What the parser refuses, and what it warns about

A parse error has a cause, a place and, once it leaves a construct with a name of its own, the
innermost such construct. Warnings are about names made of underscores; they end nothing.
-/

namespace IslandScript

/-- A construct that errors are placed in. -/
inductive Construct where
  | declaration
  | whileLoop
  | doLoop
  | loop
  | forLoop
  | function
  | cls
  | object
  | enum
  | arguments
  | list
  | lambda
  | ifElse
  | whenCase
  | tryCatch
  deriving DecidableEq, Repr

/-- How messages call a construct. -/
def Construct.text : Construct → String
  | .declaration => "a declaration"
  | .whileLoop => "a while loop"
  | .doLoop => "a do loop"
  | .loop => "a loop"
  | .forLoop => "a for loop"
  | .function => "a function"
  | .cls => "a class"
  | .object => "an object"
  | .enum => "an enum"
  | .arguments => "an argument list"
  | .list => "a list"
  | .lambda => "a lambda"
  | .ifElse => "an if expression"
  | .whenCase => "a when expression"
  | .tryCatch => "a try expression"

/-- Why tokens are no program. -/
inductive ParseErrorKind where
  /-- There is no further token. -/
  | lexical (cause : LexErrorKind)
  /-- A token stands where another is needed. -/
  | invalidToken (found expected : TokenKind String)
  /-- A token starts no expression. -/
  | invalidTerminal (found : TokenKind String)
  /-- A branch follows the `else` branch of a `when`. -/
  | earlyElseBranch
  /-- The name of an argument is no name. -/
  | invalidArgumentName
  /-- The target of an assignment is no name. -/
  | invalidAssignmentTarget
  /-- A declared name belongs to the language. -/
  | reservedName (name : String)
  /-- A parameter is marked as mutable and as variadic. -/
  | mutableVariadic (name : String)
  /-- A variadic parameter is not the last one. -/
  | misplacedVariadic (name : String)
  deriving DecidableEq, Repr

/-- The wording of a cause. -/
def ParseErrorKind.message : ParseErrorKind → String
  | .lexical cause => cause.message
  | .invalidToken found expected =>
    s!"Token type '{found.text}' is invalid; expected '{expected.text}'"
  | .invalidTerminal found =>
    s!"Terminal expression beginning with type '{found.text}' is invalid"
  | .earlyElseBranch => "Else branch must be the last branch"
  | .invalidArgumentName => "Argument name must be first variable name"
  | .invalidAssignmentTarget => "Assignment target must be first variable name"
  | .reservedName name => s!"The name '{name}' is reserved"
  | .mutableVariadic name => s!"Parameter '{name}' cannot be both mutable and variadic"
  | .misplacedVariadic name => s!"Variadic parameter '{name}' must be the last parameter"

/-- A cause, its place and the construct it is in. -/
structure ParseError where
  kind : ParseErrorKind
  span : Span
  construct : Option Construct
  deriving DecidableEq, Repr

namespace ParseError

/-- Places an error in a construct, unless it is in an inner one already. -/
def inside (e : ParseError) (c : Construct) : ParseError :=
  { e with construct := e.construct.or (some c) }

/-- The wording of the cause and of the construct. -/
def message (e : ParseError) : String :=
  match e.construct with
  | none => e.kind.message
  | some c => s!"{e.kind.message} while parsing {c.text}"

/-- The stage that reports the error. -/
def stage (e : ParseError) : Stage :=
  match e.kind with
  | .lexical _ => .lexer
  | _ => .parser

/-- The report of a parse error. -/
def toDiagnostic (e : ParseError) : Diagnostic := .error e.stage e.message e.span

end ParseError

/-- A doubtful name. -/
inductive ParseWarning where
  /-- The name `_`, which is never bound. -/
  | discardedName (span : Span)
  /-- A longer name of underscores only. -/
  | vagueName (span : Span)
  deriving DecidableEq, Repr

namespace ParseWarning

/-- The place of the name. -/
def span : ParseWarning → Span
  | discardedName span | vagueName span => span

/-- The wording of a warning. -/
def message : ParseWarning → String
  | discardedName _ => "Variable name '_' is always discarded; consider renaming"
  | vagueName _ => "Variable names consisting of only underscores are vague; consider renaming"

/-- The report of a warning. -/
def toDiagnostic (w : ParseWarning) : Diagnostic := .warning .parser w.message w.span

end ParseWarning
end IslandScript
