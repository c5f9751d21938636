import IslandScript.Diagnostic
import IslandScript.Syntax.Operator
import IslandScript.Value.Index

/-!
# Errors of a running program

An error tells its cause and the place of what failed; values it speaks of are kept as they were
shown when it arose. Errors of links are reported without a place, though they may have one.
-/

namespace IslandScript

/-- A failure of a link or of a native. -/
inductive LinkErrorKind where
  | missingLink (name : String)
  | missingFunction (path : String)
  | missingClass (name : String)
  | arityMismatch (path : String) (expected received : Nat)
  | invalidArgument (argument param : String)
  | invalidStringIndex (index : String)
  | invalidFormatPosition (position : String)
  | missingFormatArgument (index : Nat)
  | missingReceiver (path : String)
  deriving DecidableEq, Repr

/-- How a failure of a link is worded. -/
def LinkErrorKind.message : LinkErrorKind → String
  | missingLink name => s!"Link for file '{name}' is unavailable"
  | missingFunction path => s!"Link for function '{path}' is unavailable"
  | missingClass name => s!"Link for class '{name}' is unavailable"
  | arityMismatch path expected received =>
    s!"Linked function '{path}' expected '{expected}' arguments; received '{received}'"
  | invalidArgument argument param =>
    s!"Argument '{argument}' for link function parameter '{param}' is invalid"
  | invalidStringIndex index => s!"String index '{index}' out of bounds"
  | invalidFormatPosition position => s!"String format position '{position}' must be first number"
  | missingFormatArgument index => s!"String format position '{index}' has no argument"
  | missingReceiver path => s!"Instance member '{path}' could not be linked"

/-- A jump that nothing stopped where it must be stopped. -/
inductive Redirect where
  | breakLoop
  | continueLoop
  | returnValue
  deriving DecidableEq, Repr

/-- How a jump is called. -/
def Redirect.text : Redirect → String
  | breakLoop => "Break"
  | continueLoop => "Continue"
  | returnValue => "Return"

/-- What went wrong. -/
inductive EvalErrorKind where
  | invalidUnaryOperand (operand : String) (op : UnaryOp)
  | invalidLeftOperand (operand : String) (op : BinaryOp)
  | invalidRightOperand (operand : String) (op : BinaryOp)
  | notCallable (value : String)
  | notSpreadable (value : String)
  | reassignedConstant
  | redefinedName (name : String)
  | undefinedName (name : String)
  | unhandledRedirect (jump : Redirect)
  | unresolvedArguments (callable : String)
  | invalidCondition (value : String)
  | invalidLoopCount (value : String)
  | undefinedMember (target member : String)
  | negativeIndex
  | indexOutOfBounds (index : String) (size : Nat)
  | invalidIndex (index : String)
  | notIndexable (value : String)
  | uncaughtThrow (value : String)
  | invalidBase (value : String)
  | destructureCount (expected found : Nat)
  | link (kind : LinkErrorKind)
  deriving DecidableEq, Repr

namespace EvalErrorKind

/-- How an error is worded. -/
def message : EvalErrorKind → String
  | invalidUnaryOperand operand op =>
    s!"Operand '{operand}' for unary {op.display} operator is invalid"
  | invalidLeftOperand operand op =>
    s!"Left operand '{operand}' for binary {op.display} operator is invalid"
  | invalidRightOperand operand op =>
    s!"Right operand '{operand}' for binary {op.display} operator is invalid"
  | notCallable value => s!"Value '{value}' is not callable"
  | notSpreadable value => s!"Value '{value}' is not spreadable"
  | reassignedConstant => "Constant cannot be reassigned"
  | redefinedName name => s!"Name '{name}' has already been defined"
  | undefinedName name => s!"Name '{name}' has not been defined"
  | unhandledRedirect jump => s!"{jump.text} was not handled"
  | unresolvedArguments callable => s!"Arguments for '{callable}' could not be resolved"
  | invalidCondition value => s!"Condition '{value}' is not a boolean"
  | invalidLoopCount value => s!"Loop count '{value}' is not a number"
  | undefinedMember target member => s!"Member '{member}' of value '{target}' is undefined"
  | negativeIndex => "Index cannot be negative"
  | indexOutOfBounds index size => s!"Index '{index}' is out of bounds for size '{size}'"
  | invalidIndex index => s!"Index '{index}' is invalid"
  | notIndexable value => s!"Value '{value}' is not indexable"
  | uncaughtThrow value => s!"Thrown value '{value}' was not caught"
  | invalidBase value => s!"Base '{value}' is not an instance"
  | destructureCount expected found =>
    s!"Expected at least {expected} values to destructure; found {found}"
  | link kind => kind.message

/-- Whether an error is one of a link. -/
def isLink : EvalErrorKind → Bool
  | link _ => true
  | _ => false

/-- The error of an index that was refused, given how values are shown. -/
def ofIndex (shown : Value → String) (target i : Value) : IndexError → EvalErrorKind
  | .negative => negativeIndex
  | .invalid => invalidIndex (shown i)
  | .outOfBounds size => indexOutOfBounds (shown i) size
  | .notIndexable => notIndexable (shown target)

end EvalErrorKind

/-- An error and the place of what failed. -/
structure EvalError where
  kind : EvalErrorKind
  span : Span
  deriving DecidableEq, Repr

/-- The report of an error. -/
def EvalError.toDiagnostic (e : EvalError) : Diagnostic :=
  if e.kind.isLink then .standalone .linker e.kind.message
  else .error .runtime e.kind.message e.span

end IslandScript
