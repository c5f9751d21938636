import IslandScript.Link.Core
import IslandScript.Proofs.Logic.Framed

/-!
# Functions see their closure, not their caller

Names are searched along the scopes around the current one, which is on top of the stack. A function
of a program runs in a new scope inside the one it closes over. So what is below that scope on the
stack, the scopes of the caller, makes no difference: from two states that differ in nothing but
their active scopes, a call comes to the same.
-/

namespace IslandScript

open Eval

/-- The states differ in nothing but the stack of active scopes. -/
structure Interpreter.SameOffStack (m₁ m₂ : Interpreter) : Prop where
  scopes : m₂.env.scopes = m₁.env.scopes
  rest : m₂ = { m₁ with env := m₂.env }

/-- The outcomes give the same value or raise the same signal, and the states they leave behind,
with all that was printed and all that was made, differ in nothing but the stack of active
scopes. -/
inductive Outcome.SameOffStack {α : Type} : Outcome α → Outcome α → Prop
  | done {a : α} {m₁ m₂ : Interpreter} (h : m₁.SameOffStack m₂) :
      SameOffStack (.done a m₁) (.done a m₂)
  | raised {s : Signal} {m₁ m₂ : Interpreter} (h : m₁.SameOffStack m₂) :
      SameOffStack (.raised s m₁) (.raised s m₂)
  | unfinished : SameOffStack .unfinished .unfinished

variable {m₁ m₂ : Interpreter}

/-- A new scope inside a given one comes out the same whatever is active. -/
theorem Interpreter.SameOffStack.onEnv_pushChildOf (h : m₁.SameOffStack m₂) (s : ScopeId) :
    m₂.onEnv (·.pushChildOf s) = (m₁.onEnv (·.pushChildOf s)).onTopOf m₂.env.stack := by
  obtain ⟨hscopes, hrest⟩ := h
  have henv : m₂.env.pushChildOf s = (m₁.env.pushChildOf s).onTopOf m₂.env.stack := by
    apply Environment.ext
    · show m₂.env.scopes.push _ = m₁.env.scopes.push _
      rw [hscopes]
    · show ⟨m₂.env.scopes.size⟩ :: m₂.env.stack = ⟨m₁.env.scopes.size⟩ :: m₂.env.stack
      rw [hscopes]
  rw [hrest]
  exact congrArg (fun env => { m₁ with env := env }) henv

/-- What is on the stack apart from the innermost scope makes no difference off the stack, also
after that scope was left. -/
theorem Interpreter.sameOffStack_pop (m : Interpreter) (outer : List ScopeId) :
    (m.onEnv .pop).SameOffStack ((m.onTopOf outer).onEnv .pop) where
  scopes := (Environment.scopes_pop _).trans (Environment.scopes_pop m.env).symm
  rest := rfl

/-- Evaluations in a new scope inside a given one come to the same whatever else is active. -/
theorem Framed.inChildOf {α : Type} {x : Eval α} {s : ScopeId} {Q : α → Interpreter → Prop}
    (hx : Framed.Holds x (m₁.onEnv (·.pushChildOf s)) Q) (h : m₁.SameOffStack m₂) :
    (Eval.inChildOf s x m₁).SameOffStack (Eval.inChildOf s x m₂) := by
  have hsame := hx.2 m₂.env.stack
  unfold Eval.inChildOf Eval.within
  rw [h.onEnv_pushChildOf s, hsame]
  cases x (m₁.onEnv (·.pushChildOf s)) with
  | done a m => exact .done (m.sameOffStack_pop m₂.env.stack)
  | raised signal m => exact .raised (m.sameOffStack_pop m₂.env.stack)
  | unfinished => exact .unfinished

/-- **Scoping is lexical.** A call of a function that a program made comes to the same from any two
states that differ in nothing but their active scopes: it gives the same value or raises the same
signal, prints the same and leaves the same scopes, tables and all else behind. -/
theorem call_ignores_active_scopes (n : Nat) {f : FunctionObject} (hf : f.native = none)
    (h : m₁.SameOffStack m₂) (receiver : Option ScopeId) (args : List Value) (span : Span) :
    (callFunction (evaluator n) f receiver args span m₁).SameOffStack
      (callFunction (evaluator n) f receiver args span m₂) := by
  have hev : Logic.framed.Evaluates (evaluator n) := Logic.evaluates Logic.framed n
  have hargs (m : Interpreter) : Logic.framed.Values args m :=
    fun v _ => v.within_all
  -- From the scope that the call enters, the body is judged as any evaluation is.
  have hbody : Framed.Holds (do
      Eval.bindParams span f.decl.params args
      Eval.runBody (evaluator n) f.decl.body) (m₁.onEnv (·.pushChildOf f.scope))
      Logic.framed.Value := by
    refine Logic.framed.bind (Logic.bindParams f.decl.params args _ trivial (hargs _)) ?_
    exact fun _ m hm _ _ => Logic.runBody hev f.decl.body hm
  unfold Eval.callFunction
  rw [hf]
  exact Framed.inChildOf hbody h

/-- A function of the global scope that returns what a name is bound to. -/
def globalReader : FunctionObject where
  name := "f"
  decl := ⟨Span.none, "f", false, some ⟨5⟩, [], some <|
    .returnValue Span.none (some (.name Span.none ⟨6⟩))⟩
  scope := Environment.global
  native := none

/-- A state in which the name is bound in a scope inside the global one, and scopes are active. -/
def innerBinding (s : ScopeId) (outer : List ScopeId) : Interpreter :=
  (Interpreter.new Linker.new default).onEnv fun _ =>
    { scopes := #[Scope.root, (Scope.inside Environment.global).bind ⟨6⟩ (.constant .null)]
      stack := s :: outer }

/-- The function does not find the name, whether its caller binds it or not. -/
theorem globalReader_ignores_caller :
    globalReader.native = none ∧
      (innerBinding ⟨0⟩ []).SameOffStack (innerBinding ⟨1⟩ [⟨0⟩]) ∧
      (callFunction (evaluator 9) globalReader none [] Span.none
        (innerBinding ⟨0⟩ [])).SameOffStack
        (callFunction (evaluator 9) globalReader none [] Span.none (innerBinding ⟨1⟩ [⟨0⟩])) :=
  have hsame : (innerBinding ⟨0⟩ []).SameOffStack (innerBinding ⟨1⟩ [⟨0⟩]) := ⟨rfl, rfl⟩
  ⟨rfl, hsame, call_ignores_active_scopes 9 rfl hsame none [] Span.none⟩

end IslandScript
