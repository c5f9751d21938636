import IslandScript.Proofs.Logic.Evaluator

/-!
# Stacks in balance

The logic of the stack of active scopes. An evaluation is judged from a state at once in two ways:
it leaves the stack as it was, and on top of any other scopes it does the same as here. Neither can
be shown without the other. What a scope that was entered hides is back after the scope was left
because the body left its stack alone, and the body does not notice what is hidden.
-/

namespace IslandScript

open Eval

/-! ## Entering and leaving -/

namespace Environment

variable {has : ScopeId → Prop} {enter : Environment → Environment} {env env' : Environment}

/-- The scope that is entered comes on top of those that were active. -/
theorem stack_enter (he : Enters has enter) (env : Environment) :
    (enter env).stack = (enter env).current :: env.stack := by
  cases he <;> rfl

theorem onTopOf_enter (he : Enters has enter) (env : Environment) (outer : List ScopeId) :
    enter (env.onTopOf outer) = (enter env).onTopOf (env.current :: outer) := by
  cases he <;> rfl

/-- With the innermost scope left, the ones below it are active again. -/
theorem stack_pop {s : ScopeId} (h : env'.stack = s :: env.stack) : env'.pop.stack = env.stack := by
  cases hs : env.stack with
  | nil => exact absurd hs env.stack_ne_nil
  | cons t rest =>
      rw [hs] at h
      unfold pop
      split
      next h' =>
        rw [h] at h'
        cases h'
        rfl
      next hno => exact absurd h (hno s t rest)

theorem current_pop {s : ScopeId} (h : env'.stack = s :: env.stack) :
    env'.pop.current = env.current := by
  unfold current
  rw [stack_pop h]

/-- What stays after leaving a scope that was entered on top of others. -/
theorem pop_onTopOf {s : ScopeId} (h : env'.stack = s :: env.stack) (outer : List ScopeId) :
    (env'.onTopOf (env.current :: outer)).pop = env'.pop.onTopOf outer := by
  apply Environment.ext
  · exact (scopes_pop env').symm
  · show env.current :: outer = env'.pop.current :: outer
    rw [current_pop h]

end Environment

/-! ## The logic of the stack -/

/-- The stack of active scopes stays as it is. -/
def Discipline.framed : Discipline where
  Good _ := True
  Later m m' := m'.env.stack = m.env.stack
  Has _ _ := True
  later_refl _ := rfl
  later_trans h h' := h'.trans h
  has_later _ _ := trivial
  change_keeps _ hc := by
    refine ⟨trivial, ?_⟩
    cases hc with
    -- A member that is there already is not defined again, which leaves the whole state.
    | define _ _ =>
        simp only [Interpreter.onEnv, Environment.define]
        split <;> rfl
    | _ => rfl
  has_created _ := trivial
  has_wrapper _ _ := trivial
  objects_within {m} _ := m.objects_within_all
  tables_within {m} _ := m.tables_within_all
  native_within {_ _ _ _ v} _ _ _ _ := v.within_all

namespace Framed

variable {α β : Type} {m : Interpreter} {P : α → Interpreter → Prop}

/-- From a state, an evaluation leaves the stack as it was, and does the same on top of any other
scopes. -/
def Holds (x : Eval α) (m : Interpreter) (Q : α → Interpreter → Prop) : Prop :=
  Discipline.framed.Keeps m Q (x m) ∧ x.LocalAt m

theorem bind {x : Eval α} {f : α → Eval β} {Q : β → Interpreter → Prop} (hx : Holds x m P)
    (hf : ∀ a m', P a m' → Holds (f a) m' Q) : Holds (x >>= f) m Q := by
  obtain ⟨hkeeps, hlocal⟩ := hx
  refine ⟨hkeeps.bind fun a m' _ _ ha => (hf a m' ha).1, hlocal.bind fun a m' h => ?_⟩
  rw [h] at hkeeps
  exact (hf a m' hkeeps.2.2).2

/-- **Balance makes scopes local.** An evaluation in a scope of its own is local if it is local
there and leaves the stack as it was: then the scopes below are the ones to come back to. -/
theorem localAt_within {x : Eval α} {enter : Environment → Environment}
    (he : Enters (fun _ => True) enter) (hx : Holds x (m.onEnv enter) P) :
    (Eval.within enter x).LocalAt m := by
  obtain ⟨hkeeps, hlocal⟩ := hx
  intro outer
  have hentered :
      (m.onTopOf outer).onEnv enter = (m.onEnv enter).onTopOf (m.env.current :: outer) :=
    congrArg (fun env => { m with env := env }) (Environment.onTopOf_enter he m.env outer)
  have hleft {m' : Interpreter} (h : m'.env.stack = (m.onEnv enter).env.stack) :
      (m'.onTopOf (m.env.current :: outer)).onEnv .pop = (m'.onEnv .pop).onTopOf outer :=
    congrArg (fun env => { m' with env := env })
      (Environment.pop_onTopOf (h.trans (Environment.stack_enter he m.env)) outer)
  unfold Eval.within
  rw [hentered, hlocal]
  cases h : x (m.onEnv enter) with
  | done a m' =>
      rw [h] at hkeeps
      exact congrArg (Outcome.done a) (hleft hkeeps.2.1)
  | raised s m' =>
      rw [h] at hkeeps
      exact congrArg (Outcome.raised s) (hleft hkeeps.2.1)
  | unfinished => rfl

theorem within {x : Eval α} {Q : α → Interpreter → Prop} {enter : Environment → Environment}
    (he : Enters (fun _ => True) enter) (hx : Holds x (m.onEnv enter) P)
    (hPQ : ∀ a m', P a m' → Q a (m'.onEnv .pop)) : Holds (Eval.within enter x) m Q := by
  refine ⟨hx.1.within (fun m' _ hlater => ?_) fun a m' _ => hPQ a m', localAt_within he hx⟩
  -- The body left the scope that was entered on top of the others, so these are what is left.
  have hstack : m'.env.stack = (enter m.env).current :: m.env.stack :=
    hlater.trans (Environment.stack_enter he m.env)
  exact ⟨trivial, Environment.stack_pop hstack, fun _ _ => trivial⟩

end Framed

/-- The logic of the stack. -/
def Logic.framed : Logic where
  toDiscipline := Discipline.framed
  Holds := Framed.Holds
  prim hx hkeeps := ⟨hkeeps, hx _⟩
  bind hx hf := Framed.bind hx fun a m' ha => hf a m' trivial (fun _ _ => trivial) ha
  attempt hx := ⟨hx.1.attempt, hx.2.attempt⟩
  within _ he hx hPQ :=
    Framed.within he (hx trivial fun _ _ => trivial) fun a m' ha => hPQ a m' (fun _ _ => trivial) ha

/-- Where the logic holds, the stack is left as it was. -/
theorem Framed.stack_eq {α : Type} {x : Eval α} {m : Interpreter} {Q : α → Interpreter → Prop}
    (h : Holds x m Q) : (x m).Leaves fun m' => m'.env.stack = m.env.stack :=
  h.1.mono (fun _ _ h => h.2.1) fun _ _ h => h.2.1

end IslandScript
