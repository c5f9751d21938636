import IslandScript.Eval.Binding
import IslandScript.Syntax.Arguments

/-!
# Evaluating arguments

Arguments are matched to parameters before any of them is evaluated. Then each parameter's
expression, a default among them, is evaluated in the scope of the caller, in the order of the
parameters. A variadic parameter receives a list made for this call.
-/

namespace IslandScript.Eval

/-- Evaluates expressions in order. -/
def exprs (ev : Evaluator) : List (Expr Name) → Eval (List Value)
  | [] => return []
  | e :: es => do
    let v ← ev.expr e
    return v :: (← exprs ev es)

/-- What an argument stands for: its items if it is marked to be spread, else itself. -/
def itemsOf (marked : Bool) (v : Value) (span : Span) : Eval (List Value) :=
  if marked then spread v span else return [v]

/-- Evaluates arguments in order, those marked so spread, which fails at the argument. -/
def spreadArgs (ev : Evaluator) : List (Arg Name (Expr Name)) → Eval (List Value)
  | [] => return []
  | a :: as => do
    let v ← ev.expr a.expr
    let items ← itemsOf a.spread v a.span
    return items ++ (← spreadArgs ev as)

/-- Evaluates the rest of the arguments, those marked so spread, which fails at the
expression. -/
def restArgs (ev : Evaluator) : List (Bool × Expr Name) → Eval (List Value)
  | [] => return []
  | (marked, e) :: rest => do
    let v ← ev.expr e
    let items ← itemsOf marked v e.span
    return items ++ (← restArgs ev rest)

/-- Evaluates what the parameters receive. -/
def resolvedArgs (ev : Evaluator) : List (Resolved (Expr Name)) → Eval (List Value)
  | [] => return []
  | .single e :: rest => do
    let v ← ev.expr e
    return v :: (← resolvedArgs ev rest)
  | .rest items :: rest => do
    let values ← restArgs ev items
    let v ← take (·.newList values)
    return v :: (← resolvedArgs ev rest)

/-- How a callable without a name is called in errors. -/
def callableName (name : String) : String := if name.isEmpty then "<fun>" else name

/-- Matches and evaluates the arguments of a call. -/
def arguments (ev : Evaluator) (params : List (Param Name (Expr Name))) (name : String)
    (args : List (Arg Name (Expr Name))) (span : Span) : Eval (List Value) :=
  match Arguments.resolve params args with
  | none => fail (.unresolvedArguments (callableName name)) span
  | some resolved => resolvedArgs ev resolved

end IslandScript.Eval
