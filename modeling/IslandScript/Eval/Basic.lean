import IslandScript.Eval.Signal
import IslandScript.Interpreter

/-!
# Evaluation as a computation

An evaluation takes the state of an interpreter to an outcome: it gives a value, or raises a
signal, and in both cases leaves a state behind. A third outcome says that the evaluation did not
finish within its bound; it leaves nothing behind and nothing stops it.

The scopes an evaluation enters it leaves again whatever its outcome, see `Eval.within`.
-/

namespace IslandScript

/-- What an evaluation comes to. -/
inductive Outcome (α : Type) where
  | done (a : α) (m : Interpreter)
  | raised (s : Signal) (m : Interpreter)
  | unfinished

/-- An evaluation that gives an `α`. -/
def Eval (α : Type) := Interpreter → Outcome α

namespace Eval

variable {α β σ : Type}

@[always_inline, inline]
instance : Monad Eval where
  pure a := fun m => .done a m
  bind x f := fun m =>
    match x m with
    | .done a m => f a m
    | .raised s m => .raised s m
    | .unfinished => .unfinished

/-- Raises a signal. -/
@[inline] def raise (s : Signal) : Eval α := fun m => .raised s m

/-- Fails with a cause at a place. -/
@[inline] def fail (kind : EvalErrorKind) (span : Span) : Eval α := raise (.failed ⟨kind, span⟩)

/-- Fails at a place with a cause that speaks of a value as it is shown. -/
def failShowing (v : Value) (kind : String → EvalErrorKind) (span : Span) : Eval α := fun m =>
  .raised (.failed ⟨kind (m.display v), span⟩) m

/-- Does not finish. -/
def unfinished : Eval α := fun _ => .unfinished

/-- Reads the state. What is read is computed at once, so that no part of the state is held on to
while it changes. -/
@[noinline] def read (f : Interpreter → α) : Eval α := fun m => .done (f m) m

/-- Changes the state. -/
@[inline] def change (f : Interpreter → Interpreter) : Eval Unit := fun m => .done () (f m)

/-- Changes the state and gives something of it. -/
@[inline] def take (f : Interpreter → α × Interpreter) : Eval α := fun m =>
  let (a, m) := f m
  .done a m

/-- Evaluates, and catches the signal that may come of it. -/
@[inline] def attempt (x : Eval α) : Eval (Except Signal α) := fun m =>
  match x m with
  | .done a m => .done (.ok a) m
  | .raised s m => .done (.error s) m
  | .unfinished => .unfinished

/-- Gives a value or raises a signal that was caught. -/
@[inline] def resume : Except Signal α → Eval α
  | .ok a => pure a
  | .error s => raise s

/-- Evaluates with an environment into which `enter` has pushed one scope, and pops that scope
afterwards, however the evaluation ends. -/
@[inline] def within (enter : Environment → Environment) (x : Eval α) : Eval α := fun m =>
  match x (m.onEnv enter) with
  | .done a m => .done a (m.onEnv .pop)
  | .raised s m => .raised s (m.onEnv .pop)
  | .unfinished => .unfinished

/-- Evaluates in a new scope inside the current one. -/
@[inline] def inChild (x : Eval α) : Eval α := within .pushChild x

/-- Evaluates in a new scope inside another. -/
@[inline] def inChildOf (parent : ScopeId) (x : Eval α) : Eval α := within (·.pushChildOf parent) x

/-- Evaluates in a scope that is there. -/
@[inline] def inScope (s : ScopeId) (x : Eval α) : Eval α := within (·.push s) x

/-- Repeats a step while it gives a next state, at most `bound` times. -/
def iterate (step : σ → Eval (Option σ)) : Nat → σ → Eval Unit
  | 0, _, _ => .unfinished
  | bound + 1, s, m =>
    match step s m with
    | .done none m => .done () m
    | .done (some s) m => iterate step bound s m
    | .raised s m => .raised s m
    | .unfinished => .unfinished

end Eval

/-- What a construct needs to evaluate its parts: how expressions and statements are evaluated,
and how many passes a loop may make before it counts as unfinished. -/
structure Evaluator where
  passes : Nat
  expr : Expr Name → Eval Value
  stmt : Stmt Name → Eval Unit

end IslandScript
