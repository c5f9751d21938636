import IslandScript.Eval.Evaluator
import IslandScript.Proofs.Argument.Delivery
import IslandScript.Proofs.Logic.Outcome

/-!
# Arguments are evaluated once

A call that succeeds evaluates what it calls, then the expression of every argument it keeps, once,
and besides them only defaults. What it does then needs the values alone. The arguments a call does
not keep are those with a name that a later one has too, and they are not evaluated at all.
-/

namespace IslandScript

namespace Eval

variable {ev : Evaluator} {m m' : Interpreter} {span : Span}

/-- From one state to another by evaluating expressions, each once and in this order, and by making
lists. -/
inductive Evaluates (ev : Evaluator) : List (Expr Name) → Interpreter → Interpreter → Prop where
  | none {m : Interpreter} : Evaluates ev [] m m
  | expr {e : Expr Name} {es : List (Expr Name)} {v : Value} {m m₁ m' : Interpreter}
      (first : ev.expr e m = .done v m₁) (rest : Evaluates ev es m₁ m') :
      Evaluates ev (e :: es) m m'
  | list {es : List (Expr Name)} {items : List Value} {m m' : Interpreter}
      (rest : Evaluates ev es (m.newList items).2 m') : Evaluates ev es m m'

theorem Evaluates.append {es fs : List (Expr Name)} {m₁ : Interpreter}
    (h : Evaluates ev es m m₁) (hf : Evaluates ev fs m₁ m') : Evaluates ev (es ++ fs) m m' := by
  induction h with
  | none => exact hf
  | expr first _ ih => exact .expr first (ih hf)
  | list _ ih => exact .list (ih hf)

theorem state_of_itemsOf {marked : Bool} {v : Value} {items : List Value}
    (h : itemsOf marked v span m = .done items m') : m' = m := by
  cases marked with
  | false =>
    cases h
    rfl
  | true =>
    simp only [itemsOf, if_true, spread] at h
    cases hs : v.spread? m.store.tables with
    | none => simp [hs, failShowing] at h
    | some vs =>
      rw [hs] at h
      cases h
      rfl

theorem evaluates_restArgs {items : List (Bool × Expr Name)} {values : List Value}
    (h : restArgs ev items m = .done values m') : Evaluates ev (items.map (·.2)) m m' := by
  induction items generalizing m values with
  | nil =>
    cases h
    exact .none
  | cons item items ih =>
    obtain ⟨marked, e⟩ := item
    simp only [restArgs, bind_eq_done] at h
    obtain ⟨v, m₁, hv, vs, m₂, hvs, rest, m₃, hrest, h⟩ := h
    obtain rfl := state_of_itemsOf hvs
    cases h
    exact .expr hv (ih hrest)

/-- What the parameters receive is evaluated in their order, each expression once. -/
theorem evaluates_resolvedArgs {entries : List (Resolved (Expr Name))} {values : List Value}
    (h : resolvedArgs ev entries m = .done values m') :
    Evaluates ev (entries.flatMap Resolved.exprs) m m' := by
  induction entries generalizing m values with
  | nil =>
    cases h
    exact .none
  | cons entry entries ih =>
    cases entry with
    | single e =>
      simp only [resolvedArgs, bind_eq_done] at h
      obtain ⟨v, m₁, hv, rest, m₂, hrest, h⟩ := h
      cases h
      exact .expr hv (ih hrest)
    | rest items =>
      simp only [resolvedArgs, bind_eq_done] at h
      obtain ⟨vs, m₁, hvs, v, m₂, hv, rest, m₃, hrest, h⟩ := h
      cases hv
      cases h
      exact (evaluates_restArgs hvs).append (.list (ih hrest))

/-- Arguments that are evaluated with success are those that are kept, each once, and defaults. -/
theorem evaluates_arguments {params : List (Param Name (Expr Name))} {name : String}
    {args : List (Arg Name (Expr Name))} {values : List Value}
    (h : arguments ev params name args span m = .done values m') :
    ∃ es defaults, Evaluates ev es m m' ∧
      es.Perm ((Arguments.kept args).map (·.expr) ++ defaults) ∧
        ∀ e ∈ defaults, ∃ p ∈ params, p.default = some e := by
  unfold arguments at h
  cases hr : Arguments.resolve params args with
  | none => simp [hr, fail, raise] at h
  | some entries =>
    rw [hr] at h
    obtain ⟨defaults, hperm, hd⟩ := Arguments.exprs_of_resolve hr
    exact ⟨_, defaults, evaluates_resolvedArgs h, hperm, hd⟩

/-- What a call does with a value it calls at a state: the parameters that the arguments are
matched to, and what is done with the values they receive. -/
inductive Enters (ev : Evaluator) (span : Span) (target : Expr Name) (m : Interpreter) :
    Value × Option ScopeId → List (Param Name (Expr Name)) → (List Value → Eval Value) → Prop where
  | function {id : FunctionId} {owner receiver : Option ScopeId} {f : FunctionObject}
      (found : m.functions[id.index]? = some f)
      (on : receiverOf f owner target m = .done receiver m) :
      Enters ev span target m (.function id, owner) f.decl.params
        fun values => callFunction ev f receiver values span
  | cls {id : ClassId} {owner : Option ScopeId} {c : ClassObject}
      (found : m.classes[id.index]? = some c) :
      Enters ev span target m (.cls id, owner) c.decl.params
        fun values => do return .inst (← instantiate ev id c values none span)

/-- A call that ends with success at a state: what it calls is evaluated, then the arguments that
are kept, each once, and besides them defaults only, and then the work is done with the values. -/
def EvaluatesOnce (ev : Evaluator) (span : Span) (target : Expr Name)
    (args : List (Arg Name (Expr Name))) (m : Interpreter) (v : Value) (m' : Interpreter) : Prop :=
  ∃ called m₁ params work es defaults values m₂,
    callee ev target m = .done called m₁ ∧ Enters ev span target m₁ called params work ∧
      Evaluates ev es m₁ m₂ ∧
      es.Perm ((Arguments.kept args).map (·.expr) ++ defaults) ∧
      (∀ e ∈ defaults, ∃ p ∈ params, p.default = some e) ∧
      work values m₂ = .done v m'

theorem evaluatesOnce_of_invoke {target : Expr Name} {args : List (Arg Name (Expr Name))}
    {v : Value} (h : invoke ev span target args m = .done v m') :
    EvaluatesOnce ev span target args m v m' := by
  simp only [invoke, bind_eq_done] at h
  obtain ⟨⟨called, owner⟩, m₁, hcalled, h⟩ := h
  cases called with
  | function id =>
    simp only [invokeFunction, bind_eq_done] at h
    obtain ⟨f?, _, hread, h⟩ := h
    cases hread
    cases hf : m₁.functions[id.index]? with
    | none => simp [hf, unfinished] at h
    | some f =>
      simp only [hf, bind_eq_done] at h
      obtain ⟨receiver, m₂, hon, values, m₃, hvalues, hwork⟩ := h
      obtain rfl : m₂ = m₁ := by
        cases target <;> cases hon <;> rfl
      obtain ⟨es, defaults, hes, hperm, hd⟩ := evaluates_arguments hvalues
      exact ⟨_, _, _, _, es, defaults, values, m₃, hcalled, .function hf hon, hes, hperm, hd, hwork⟩
  | cls id =>
    simp only [bind_eq_done, invokeClass] at h
    obtain ⟨s, _, ⟨c?, _, hread, hinvoke⟩, h⟩ := h
    cases hread
    cases hc : m₁.classes[id.index]? with
    | none => simp [hc, unfinished] at hinvoke
    | some c =>
      simp only [hc, bind_eq_done] at hinvoke
      obtain ⟨values, m₂, hvalues, hmade⟩ := hinvoke
      obtain ⟨es, defaults, hes, hperm, hd⟩ := evaluates_arguments hvalues
      refine ⟨_, _, _, _, es, defaults, values, m₂, hcalled, .cls hc, hes, hperm, hd, ?_⟩
      exact bind_eq_done.mpr ⟨s, _, hmade, h⟩
  | _ => simp [failShowing] at h

end Eval

/-! ## The arguments that are kept are all -/

open Eval

/-- **No argument that is kept is lost.** A match puts every argument that is not replaced by a
later one of its name in exactly one entry, and a call that succeeds evaluates each of them once. -/
theorem kept_arguments_delivered_once :
    (∀ {ν ε : Type} [DecidableEq ν] (params : List (Param ν ε)) (args : List (Arg ν ε))
        (entries : List (Resolved ε)),
      Arguments.resolve params args = some entries → Arguments.Delivered params args entries) ∧
    ∀ (ev : Evaluator) (span : Span) (target : Expr Name) (args : List (Arg Name (Expr Name)))
        (m : Interpreter) (v : Value) (m' : Interpreter),
      invoke ev span target args m = .done v m' → EvaluatesOnce ev span target args m v m' :=
  ⟨fun _ _ _ h => Arguments.resolve_delivers h, fun _ _ _ _ _ _ _ h => evaluatesOnce_of_invoke h⟩

/-- `fun(a, b)` without a body. -/
def twoParams : Expr Name :=
  .lambda .none ⟨.none, "", false, none,
    [⟨.none, none, false, false, ⟨5⟩, none⟩, ⟨.none, none, false, false, ⟨6⟩, none⟩], none⟩

/-- `(b = 1, 2)`. -/
def twoArgs : List (Arg Name (Expr Name)) :=
  [⟨.none, false, some ⟨6⟩, .value .none (.number 1)⟩,
    ⟨.none, false, none, .value .none (.number 2)⟩]

theorem kept_arguments_delivered_once_sample :
    Arguments.Delivered Arguments.mixedParams Arguments.mixedArgs
        [.single 1, .single 7, .rest [(true, 2), (false, 3)]] ∧
      ∃ m', invoke (evaluator 3) .none twoParams twoArgs (.new .empty default) = .done .unit m' ∧
        EvaluatesOnce (evaluator 3) .none twoParams twoArgs (.new .empty default) .unit m' :=
  ⟨kept_arguments_delivered_once.1 _ _ _ (by decide), _, rfl,
    kept_arguments_delivered_once.2 _ _ _ _ _ _ _ rfl⟩

/-- Of `f(a = 1, a = 2)` for `fun f(a, b = 0)`, the first argument is in no entry. -/
theorem replaced_argument_dropped :
    let params : List (Param Nat Nat) :=
      [⟨.none, none, false, false, 0, none⟩, ⟨.none, none, false, false, 1, some 0⟩]
    let args : List (Arg Nat Nat) := [⟨.none, false, some 0, 1⟩, ⟨.none, false, some 0, 2⟩]
    Arguments.resolve params args = some [.single 2, .single 0] ∧
      ¬∃ given : Nat → List (Arg Nat Nat),
        ((List.range params.length).flatMap given).Perm args ∧
          ∀ i p entry, params[i]? = some p →
            [Resolved.single 2, .single 0][i]? = some entry →
            Arguments.Takes params i p (given i) entry := by
  refine ⟨by decide, fun ⟨given, hperm, htakes⟩ => ?_⟩
  obtain ⟨i, hi, ha⟩ := List.mem_flatMap.mp (hperm.mem_iff.mpr List.mem_cons_self)
  match i, List.mem_range.mp hi with
  | 0, _ => exact absurd ((htakes 0 _ _ rfl rfl).expr_mem ha) (by decide)
  | 1, _ => exact absurd ((htakes 1 _ _ rfl rfl).expr_mem ha) (by decide)

end IslandScript
