import IslandScript.Proofs.Logic.Evaluator

/-!
# Requests

What an interpreter can be asked to do with trees and values at hand. Expressions and statements ask
each other for these in turn, so whatever holds of all requests is shown of all of them at once.
-/

namespace IslandScript

open Eval

/-- Something to evaluate. -/
inductive Request where
  | expr (e : Expr Name)
  | stmt (s : Stmt Name)
  | call (f : FunctionObject) (receiver : Option ScopeId) (args : List Value) (span : Span)
  | instantiate (id : ClassId) (c : ClassObject) (args : List Value) (primitive : Option Primitive)
      (span : Span)
  | program (p : Program Name)

namespace Request

/-- What is given if all goes well. -/
def Result : Request → Type
  | expr _ => Value
  | stmt _ => Unit
  | call .. => Value
  | instantiate .. => ScopeId
  | program _ => Except EvalError RunResult

/-- The evaluation that is asked for. -/
def perform (ev : Evaluator) : (r : Request) → Eval r.Result
  | expr e => ev.expr e
  | stmt s => ev.stmt s
  | call f receiver args span => callFunction ev f receiver args span
  | instantiate id c args primitive span => Eval.instantiate ev id c args primitive span
  | program p => Interpreter.runStatements ev .unit p

/-- The scopes and values that come with the request refer to no scope but those `has` tells. -/
def Within (has : ScopeId → Prop) : Request → Prop
  | call f receiver args _ =>
    has f.scope ∧ (∀ s, receiver = some s → has s) ∧ ∀ v ∈ args, v.Within has
  | instantiate _ c args _ _ => has c.scope ∧ ∀ v ∈ args, v.Within has
  | _ => True

theorem within_of_forall {has : ScopeId → Prop} (h : ∀ s, has s) (r : Request) : r.Within has := by
  cases r with
  | call f receiver args span =>
      exact ⟨h _, fun s _ => h s, fun v _ => v.within_of_forall h⟩
  | instantiate id c args primitive span => exact ⟨h _, fun v _ => v.within_of_forall h⟩
  | _ => trivial

end Request

/-- Performing a request keeps to the discipline of any logic. -/
theorem Logic.performs {L : Logic} {ev : Evaluator} (hev : L.Evaluates ev) (r : Request)
    {m : Interpreter} (hm : L.Good m) (hr : r.Within (L.Has · m)) :
    L.Holds (r.perform ev) m fun _ _ => True := by
  cases r with
  | expr e => exact mono (hev.expr e m hm) fun _ _ _ => trivial
  | stmt s => exact hev.stmt s m hm
  | call f receiver args span =>
      obtain ⟨hf, hreceiver, hargs⟩ := hr
      exact mono (callFunction hev hm hf hreceiver hargs) fun _ _ _ => trivial
  | instantiate id c args primitive span =>
      obtain ⟨hc, hargs⟩ := hr
      exact mono (instantiate hev hm hc hargs) fun _ _ _ => trivial
  | program p => exact mono (runStatements hev p .unit m hm trivial) fun _ _ _ => trivial

end IslandScript
