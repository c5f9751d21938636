import IslandScript.Link.Core
import IslandScript.Proofs.Logic.Framed
import IslandScript.Proofs.Logic.Request

/-!
# Active scopes are restored

Whatever is evaluated, and however it ends, the stack of active scopes is afterwards what it was
before: every scope that was entered is left again. What is on the stack when a program fails deep
inside calls, loops and initializers is gone when the next program starts.
-/

namespace IslandScript

open Eval

/-- Performing a request leaves the stack as it was, and goes the same way on top of any scopes. -/
theorem Request.framed (n : Nat) (r : Request) (m : Interpreter) :
    Framed.Holds (r.perform (evaluator n)) m fun _ _ => True :=
  Logic.performs (Logic.evaluates Logic.framed n) r trivial (r.within_of_forall fun _ => trivial)

/-- **Every request leaves the stack as it was**, whether it gives a value or raises a signal. In
particular a program that starts with nothing but the global scope active ends with nothing else
active, failed or not. -/
theorem active_scopes_restored :
    (∀ (n : Nat) (r : Request) (m : Interpreter),
      (r.perform (evaluator n) m).Leaves fun m' => m'.env.stack = m.env.stack) ∧
    ∀ (p : Program Name) (m : Interpreter), m.env.stack = [Environment.global] →
      (Interpreter.run p m).Leaves fun m' => m'.env.stack = [Environment.global] := by
  have hall (n : Nat) (r : Request) (m : Interpreter) :
      (r.perform (evaluator n) m).Leaves fun m' => m'.env.stack = m.env.stack :=
    Framed.stack_eq (r.framed n m)
  refine ⟨hall, fun p m hm => ?_⟩
  rw [← hm]
  exact hall Eval.bound (.program p) m

/-- A function that declares a name and then looks for one that nothing binds, and a call of it. -/
def strayCall : Program Name :=
  [.function Span.none ⟨Span.none, "f", false, some ⟨5⟩, [], some <| .block Span.none
      [.declare Span.none .constant false (.name ⟨6⟩) (.value Span.none .null),
       .expr Span.none (.name Span.none ⟨7⟩)]⟩,
   .expr Span.none (.invoke Span.none (.name Span.none ⟨5⟩) [])]

/-- The call fails with the scopes of the function and of its block active, which are left. -/
theorem global_active_after_stray_call :
    (∃ e m', Interpreter.run strayCall (Interpreter.new Linker.new default) = .done (.error e) m') ∧
      (Interpreter.run strayCall (Interpreter.new Linker.new default)).Leaves
        fun m' => m'.env.stack = [Environment.global] :=
  ⟨⟨_, _, rfl⟩, active_scopes_restored.2 strayCall _ rfl⟩

end IslandScript
