import IslandScript.Eval.Statement
import IslandScript.Number.Power

/-!
# The evaluator

Expressions and statements evaluate one another. `evaluator n` is the evaluator whose
evaluations may nest `n` deep and whose loops may make `n` passes; what finishes within a bound
has the same outcome within every greater one.

Programs nest as deeply as they like, stacks do not: every so many levels, evaluation goes on in
a task, which has a stack of its own.
-/

namespace IslandScript.Eval

/-- The number of levels that share a stack. -/
def levelsPerStack : Nat := 1024

/-- Evaluates at a level of nesting, in a task of its own if the stack has to change. -/
@[inline] def atLevel {α : Type} (n : Nat) (x : Eval α) : Eval α := fun m =>
  if n % levelsPerStack == 0 then (Task.spawn fun _ => x m).get else x m

/-- The evaluator whose evaluations may nest `n` deep. -/
def evaluator : Nat → Evaluator
  | 0 => ⟨0, fun _ => unfinished, fun _ => unfinished⟩
  | n + 1 =>
    { passes := n
      expr := fun e m => atLevel n (exprStep (evaluator n) e) m
      stmt := fun s m => atLevel n (stmtStep (evaluator n) s) m }

/-- A bound that no program that ends in reasonable time reaches. -/
def bound : Nat := Number.tenPow 12

end IslandScript.Eval
