import IslandScript.Proofs.Argument.Variadic
import IslandScript.Proofs.Wrapper.Coherent

/-!
# Members of primitives

What is called as a member of a primitive is the native that the prelude links for it, on an
instance that wraps the primitive: whatever the arguments do, the native is called with as many as
it takes, and finds the primitive in its place.
-/

namespace IslandScript

open Eval

variable {m m' m₁ : Interpreter} {p : Primitive} {s : ScopeId} {ev : Evaluator} {span : Span}

/-! ## Arguments -/

theorem Moves.later {P : Binder Name → Prop} (h : Moves P m m') : m.Later m' := by
  induction h with
  | refl => exact .refl m
  | tail _ hlast ih => exact ih.trans hlast.later

namespace Interpreter

variable {members : List String} {member : String} {g : NativeFunction} {n : Name}

theorem Wrapper.payload (h : m.Wrapper p s) : m.objects.payload? s = some (.primitive p) := by
  obtain ⟨-, -, -, hpayload, -⟩ := h
  exact hpayload

end Interpreter
end IslandScript
