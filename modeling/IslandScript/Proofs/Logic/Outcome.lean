import IslandScript.Eval.Basic

/-!
# Outcomes and the scopes they depend on

Two ways to speak of an evaluation at a state. `Outcome.Sat` says what holds of what it gives and of
the state it leaves behind. `Eval.Local` says that it looks at no active scope but the current one:
whatever else is active, it does the same, and it leaves the rest of the stack alone.
-/

namespace IslandScript

/-! ## Conditions on outcomes -/

namespace Outcome

variable {α β : Type}

/-- What an outcome gives fulfils `Q`, and the signal it raises fulfils `E`. An evaluation that does
not finish fulfils everything. -/
def Sat (Q : α → Interpreter → Prop) (E : Signal → Interpreter → Prop) : Outcome α → Prop
  | done a m => Q a m
  | raised s m => E s m
  | unfinished => True

/-- The state that is left behind, with a value or with a signal, fulfils `P`. -/
def Leaves (o : Outcome α) (P : Interpreter → Prop) : Prop := o.Sat (fun _ => P) fun _ => P

/-- The state that is left behind, if the evaluation finishes. -/
def state? : Outcome α → Option Interpreter
  | done _ m => some m
  | raised _ m => some m
  | unfinished => none

theorem Leaves.of_state? {o : Outcome α} {P : Interpreter → Prop} {m : Interpreter}
    (h : o.Leaves P) (hm : o.state? = some m) : P m := by
  cases o with
  | done a m' =>
      cases hm
      exact h
  | raised s m' =>
      cases hm
      exact h
  | unfinished => cases hm

theorem Sat.mono {Q Q' : α → Interpreter → Prop} {E E' : Signal → Interpreter → Prop}
    {o : Outcome α} (h : o.Sat Q E) (hQ : ∀ a m, Q a m → Q' a m) (hE : ∀ s m, E s m → E' s m) :
    o.Sat Q' E' := by
  cases o with
  | done a m => exact hQ a m h
  | raised s m => exact hE s m h
  | unfinished => trivial

/-- Whether something is given, and it passes a test with the state that is left behind. -/
def passes (test : α → Interpreter → Bool) : Outcome α → Bool
  | done a m => test a m
  | _ => false

theorem exists_done_of_passes {o : Outcome α} {test : α → Interpreter → Bool}
    (h : o.passes test = true) : ∃ a m, o = done a m ∧ test a m = true := by
  cases o with
  | done a m => exact ⟨a, m, rfl, h⟩
  | raised => cases h
  | unfinished => cases h

/-- Changes the state that is left behind. -/
def mapState (f : Interpreter → Interpreter) : Outcome α → Outcome α
  | done a m => done a (f m)
  | raised s m => raised s (f m)
  | unfinished => unfinished

end Outcome

/-! ## Composed evaluations by the outcome of their first part -/

namespace Eval

variable {α β : Type} {x : Eval α} {f : α → Eval β} {m m' : Interpreter}

theorem bind_apply (x : Eval α) (f : α → Eval β) (m : Interpreter) :
    (x >>= f) m =
      match x m with
      | .done a m => f a m
      | .raised s m => .raised s m
      | .unfinished => .unfinished :=
  rfl

theorem bind_done {a : α} (h : x m = .done a m') : (x >>= f) m = f a m' := by
  rw [bind_apply, h]

theorem bind_raised {s : Signal} (h : x m = .raised s m') : (x >>= f) m = .raised s m' := by
  rw [bind_apply, h]

theorem bind_unfinished (h : x m = .unfinished) : (x >>= f) m = .unfinished := by
  rw [bind_apply, h]

theorem bind_eq_done {b : β} :
    (x >>= f) m = .done b m' ↔ ∃ a m₁, x m = .done a m₁ ∧ f a m₁ = .done b m' := by
  rw [bind_apply]
  cases x m <;> simp [and_assoc]

/-- What both parts leave behind the composition leaves behind. -/
theorem leaves_bind {P : Interpreter → Prop} (hx : (x m).Leaves P)
    (hf : ∀ a m', P m' → (f a m').Leaves P) : ((x >>= f) m).Leaves P := by
  rw [bind_apply]
  cases h : x m with
  | done a m' =>
      rw [h] at hx
      exact hf a m' hx
  | raised s m' =>
      rw [h] at hx
      exact hx
  | unfinished => trivial

end Eval

/-! ## The current scope on top of others -/

/-- The same scopes, with the current one active on top of others. -/
def Environment.onTopOf (env : Environment) (outer : List ScopeId) : Environment :=
  { env with
    stack := env.current :: outer
    stack_ne_nil := List.cons_ne_nil env.current outer }

/-- The same state, with its current scope active on top of others. -/
def Interpreter.onTopOf (m : Interpreter) (outer : List ScopeId) : Interpreter :=
  m.onEnv (·.onTopOf outer)

/-- The stack is its innermost scope and the rest. -/
theorem Environment.current_cons_tail (env : Environment) :
    env.current :: env.stack.tail = env.stack := by
  unfold current
  cases h : env.stack with
  | nil => exact absurd h env.stack_ne_nil
  | cons s rest => rfl

/-- Leaving a scope leaves the scopes as they are. -/
theorem Environment.scopes_pop (env : Environment) : env.pop.scopes = env.scopes := by
  unfold pop
  split <;> rfl

/-! ## Evaluations that look at the current scope only -/

namespace Eval

variable {α β : Type} {x : Eval α} {f : α → Eval β} {m : Interpreter}

/-- From a state, an evaluation is local if it does the same on top of any other scopes, which it
leaves alone. -/
def LocalAt (x : Eval α) (m : Interpreter) : Prop :=
  ∀ outer, x (m.onTopOf outer) = (x m).mapState (·.onTopOf outer)

/-- An evaluation is local if it is from every state. -/
def Local (x : Eval α) : Prop := ∀ m, x.LocalAt m

theorem LocalAt.bind (hx : x.LocalAt m) (hf : ∀ a m', x m = .done a m' → (f a).LocalAt m') :
    (x >>= f).LocalAt m := by
  intro outer
  rw [bind_apply, bind_apply, hx outer]
  cases h : x m with
  | done a m' => exact hf a m' h outer
  | raised s m' => rfl
  | unfinished => rfl

theorem LocalAt.attempt (hx : x.LocalAt m) : x.attempt.LocalAt m := by
  intro outer
  unfold Eval.attempt
  rw [hx outer]
  cases x m <;> rfl

end Eval
end IslandScript
