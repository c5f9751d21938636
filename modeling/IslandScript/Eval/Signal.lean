import IslandScript.Eval.Error
import IslandScript.Name

/-!
# Signals

How evaluation leaves a construct before its end. Loops stop breaks and continues, calls stop
returns, `try` stops throws, and only a whole program stops exits and errors.
-/

namespace IslandScript

/-- A way out of evaluation. -/
inductive Signal where
  | breakLoop (label : Option Name)
  | continueLoop (label : Option Name)
  | returnValue (v : Value)
  | throwValue (v : Value)
  | exitValue (v : Value)
  | failed (e : EvalError)
  deriving DecidableEq, Repr

/-- Whether a loop with the label `own` stops a jump to `label`. A jump without a label is
stopped by the innermost loop. -/
def Signal.targets (label own : Option Name) : Bool := label.isNone || label == own

end IslandScript
