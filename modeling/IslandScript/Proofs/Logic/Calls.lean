import IslandScript.Eval.Member
import IslandScript.Proofs.Logic.Elementary

/-!
# Calls, classes and members

The first half of the way through the evaluator: what evaluates arguments, calls functions and makes
instances keeps to the discipline, provided that the evaluator of the parts does.
-/

namespace IslandScript

open Eval

/-- An evaluator that keeps to the discipline of a logic from every good state. -/
structure Logic.Evaluates (L : Logic) (ev : Evaluator) : Prop where
  expr : ∀ e m, L.Good m → L.Holds (ev.expr e) m L.Value
  stmt : ∀ s m, L.Good m → L.Holds (ev.stmt s) m fun _ _ => True

namespace Logic

variable {L : Logic} {ev : Evaluator} {m : Interpreter} {span : Span}

/-! ## Arguments -/

theorem exprs (hev : L.Evaluates ev) (es : List (Expr Name)) (m : Interpreter) (hm : L.Good m) :
    L.Holds (Eval.exprs ev es) m L.Values := by
  induction es generalizing m with
  | nil => exact pure hm Discipline.values_nil
  | cons e es ih =>
      refine L.bind (hev.expr e m hm) ?_
      intro v m₁ hm₁ _ hv
      refine L.bind (ih m₁ hm₁) ?_
      intro vs m₂ hm₂ hg hvs
      exact pure hm₂ (Discipline.values_cons (hv.grow hg) hvs)

theorem itemsOf {marked : Bool} {v : Value} (hm : L.Good m) (hv : L.Value v m) :
    L.Holds (Eval.itemsOf marked v span) m L.Values := by
  unfold Eval.itemsOf
  split
  · exact spread hm
  · exact pure hm (Discipline.values_cons hv Discipline.values_nil)

theorem spreadArgs (hev : L.Evaluates ev) (args : List (Arg Name (Expr Name))) (m : Interpreter)
    (hm : L.Good m) : L.Holds (Eval.spreadArgs ev args) m L.Values := by
  induction args generalizing m with
  | nil => exact pure hm Discipline.values_nil
  | cons a args ih =>
      refine L.bind (hev.expr a.expr m hm) ?_
      intro v m₁ hm₁ _ hv
      refine L.bind (itemsOf hm₁ hv) ?_
      intro items m₂ hm₂ _ hitems
      refine L.bind (ih m₂ hm₂) ?_
      intro vs m₃ hm₃ hg hvs
      exact pure hm₃ (Discipline.values_append (hitems.grow hg) hvs)

theorem restArgs (hev : L.Evaluates ev) (args : List (Bool × Expr Name)) (m : Interpreter)
    (hm : L.Good m) : L.Holds (Eval.restArgs ev args) m L.Values := by
  induction args generalizing m with
  | nil => exact pure hm Discipline.values_nil
  | cons a args ih =>
      refine L.bind (hev.expr a.2 m hm) ?_
      intro v m₁ hm₁ _ hv
      refine L.bind (itemsOf hm₁ hv) ?_
      intro items m₂ hm₂ _ hitems
      refine L.bind (ih m₂ hm₂) ?_
      intro vs m₃ hm₃ hg hvs
      exact pure hm₃ (Discipline.values_append (hitems.grow hg) hvs)

theorem resolvedArgs (hev : L.Evaluates ev) (slots : List (Resolved (Expr Name)))
    (m : Interpreter) (hm : L.Good m) : L.Holds (Eval.resolvedArgs ev slots) m L.Values := by
  induction slots generalizing m with
  | nil => exact pure hm Discipline.values_nil
  | cons slot slots ih =>
      cases slot with
      | single e =>
          refine L.bind (hev.expr e m hm) ?_
          intro v m₁ hm₁ _ hv
          refine L.bind (ih m₁ hm₁) ?_
          intro vs m₂ hm₂ hg hvs
          exact pure hm₂ (Discipline.values_cons (hv.grow hg) hvs)
      | rest items =>
          refine L.bind (restArgs hev items m hm) ?_
          intro values m₁ hm₁ _ hvalues
          refine L.bind (newList hm₁ hvalues) ?_
          intro v m₂ hm₂ _ hv
          refine L.bind (ih m₂ hm₂) ?_
          intro vs m₃ hm₃ hg hvs
          exact pure hm₃ (Discipline.values_cons (hv.grow hg) hvs)

theorem arguments (hev : L.Evaluates ev) {params : List (Param Name (Expr Name))} {name : String}
    {args : List (Arg Name (Expr Name))} (hm : L.Good m) :
    L.Holds (Eval.arguments ev params name args span) m L.Values := by
  unfold Eval.arguments
  split
  · exact fail hm
  next resolved _ => exact resolvedArgs hev resolved m hm

/-! ## Functions -/

/-- What is made of the outcome of a body. -/
theorem bodyValue {r : Except Signal Unit} (hm : L.Good m)
    (hr : ∀ s, r = .error s → s.Within (L.Has · m)) :
    L.Holds (Eval.bodyValue span r) m L.Value := by
  unfold Eval.bodyValue
  split
  · exact pure hm trivial
  next v => exact pure hm (hr (.returnValue v) rfl)
  · exact fail hm
  · exact fail hm
  next s _ _ _ => exact raise hm (hr s rfl)

/-- An attempt gives a signal of the state it leaves, if it gives a signal. -/
theorem attempted {α : Type} {x : Eval α} {P : α → Interpreter → Prop} (h : L.Holds x m P) :
    L.Holds x.attempt m fun r m' =>
      (∀ a, r = .ok a → P a m') ∧ ∀ s, r = .error s → s.Within (L.Has · m') := by
  refine mono (L.attempt h) ?_
  intro r m' hr
  cases r with
  | ok a => exact ⟨by rintro _ ⟨⟩; exact hr, by rintro _ ⟨⟩⟩
  | error s => exact ⟨by rintro _ ⟨⟩, by rintro _ ⟨⟩; exact hr⟩

theorem runBody (hev : L.Evaluates ev) (body : Option (Stmt Name)) (hm : L.Good m) :
    L.Holds (Eval.runBody ev body) m L.Value := by
  cases body with
  | none => exact pure hm trivial
  | some body =>
      refine L.bind (attempted (hev.stmt body m hm)) ?_
      intro r m' hm' _ hr
      exact bodyValue hm' hr.2

/-- A value made in an inner scope is a value of the state after that scope was left. -/
theorem within_value {x : Eval Value} {enter : Environment → Environment} (hm : L.Good m)
    (he : Enters (L.Has · m) enter)
    (h : L.Good (m.onEnv enter) → L.Grows m (m.onEnv enter) →
      L.Holds x (m.onEnv enter) L.Value) : L.Holds (Eval.within enter x) m L.Value :=
  L.within hm he h fun _ _ hg hv => hv.grow hg

theorem callDeclared (hev : L.Evaluates ev) {f : FunctionObject} {args : List Value}
    (hm : L.Good m) (hf : L.Has f.scope m) (hargs : L.Values args m) :
    L.Holds (Eval.callDeclared ev f args span) m L.Value := by
  refine within_value hm (.childOf hf) ?_
  intro hm₁ hg₁
  refine L.bind (bindParams f.decl.params args _ hm₁ (hargs.grow hg₁)) ?_
  intro _ m₂ hm₂ _ _
  exact runBody hev f.decl.body hm₂

theorem callFunction (hev : L.Evaluates ev) {f : FunctionObject} {receiver : Option ScopeId}
    {args : List Value} (hm : L.Good m) (hf : L.Has f.scope m) (hr : L.Scope? receiver m)
    (hargs : L.Values args m) : L.Holds (Eval.callFunction ev f receiver args span) m L.Value := by
  unfold Eval.callFunction
  split
  · exact callDeclared hev hm hf hargs
  · refine read_bind (fun _ _ => rfl) hm ?_
    split
    next nf hnf => exact callNative hm hnf ⟨fun h => hr _ h, hargs⟩
    · exact fail hm

/-! ## Classes -/

theorem baseInstance (hev : L.Evaluates ev) (base : Option (Expr Name)) (hm : L.Good m) :
    L.Holds (Eval.baseInstance ev base) m L.Scope? := by
  cases base with
  | none => exact pure hm Discipline.scope?_none
  | some e =>
      refine L.bind (hev.expr e m hm) ?_
      intro v m' hm' _ hv
      split
      · exact pure hm' (Discipline.scope?_some hv)
      · exact pure hm' Discipline.scope?_none
      · exact failShowing hm'

theorem runInitializers (hev : L.Evaluates ev) (ss : List (Stmt Name)) (m : Interpreter)
    (hm : L.Good m) : L.Holds (Eval.runInitializers ev ss) m fun _ _ => True := by
  induction ss generalizing m with
  | nil => exact pure hm trivial
  | cons s ss ih =>
      refine L.bind (attempted (hev.stmt s m hm)) ?_
      intro r m' hm' _ hr
      split
      · exact ih m' hm'
      · exact fail hm'
      · exact fail hm'
      · exact fail hm'
      next signal _ _ _ => exact raise hm' (hr.2 signal rfl)

theorem fillInstance (hev : L.Evaluates ev) {c : ClassObject} {paramScope s : ScopeId}
    (hm : L.Good m) (hs : L.Has s m) :
    L.Holds (Eval.fillInstance ev c paramScope s span) m fun _ _ => True := by
  refine L.within (P := fun _ _ => True) hm (.scope hs) (fun hm₁ hg₁ => ?_) fun _ _ _ _ => trivial
  refine L.bind (memberParams c.decl.params _ hm₁ (hg₁ s hs)) ?_
  intro _ m₂ hm₂ hg₂ _
  refine L.bind (nativePart hm₂ (hg₂ s (hg₁ s hs))) ?_
  intro _ m₃ hm₃ _ _
  exact runInitializers hev c.decl.init m₃ hm₃

/-- The instance that is made, and its base, are scopes of the state. -/
theorem construct (hev : L.Evaluates ev) {id : ClassId} {c : ClassObject} {args : List Value}
    {primitive : Option Primitive} (hm : L.Good m) (hargs : L.Values args m) :
    L.Holds (Eval.construct ev id c args primitive span) m
      fun made m' => L.Has made.1 m' ∧ L.Scope? made.2 m' := by
  refine L.bind (bindParams c.decl.params args m hm hargs) ?_
  intro _ m₁ hm₁ _ _
  refine read_bind (fun _ _ => rfl) hm₁ ?_
  refine L.bind (baseInstance hev c.decl.base hm₁) ?_
  intro base m₂ hm₂ _ hbase
  refine read_bind (fun _ _ => rfl) hm₂ ?_
  refine L.bind (createInstance hm₂ hbase) ?_
  intro s m₃ hm₃ hg₃ hs
  refine L.bind (fillInstance hev hm₃ hs) ?_
  intro _ m₄ hm₄ hg₄ _
  exact pure hm₄ ⟨hg₄ s hs, (hbase.grow hg₃).grow hg₄⟩

theorem instantiate (hev : L.Evaluates ev) {id : ClassId} {c : ClassObject} {args : List Value}
    {primitive : Option Primitive} (hm : L.Good m) (hc : L.Has c.scope m)
    (hargs : L.Values args m) :
    L.Holds (Eval.instantiate ev id c args primitive span) m L.Has := by
  -- The instance and its base outlive the scope of the parameters, in which they are made.
  have hmade : L.Holds (inChildOf c.scope (Eval.construct ev id c args primitive span)) m
      fun made m' => L.Has made.1 m' ∧ L.Scope? made.2 m' := by
    refine L.within hm (.childOf hc) (fun hm₁ hg₁ => construct hev hm₁ (hargs.grow hg₁)) ?_
    exact fun made m' hg h => ⟨hg made.1 h.1, h.2.grow hg⟩
  refine L.bind hmade fun made m₁ hm₁ _ ⟨hs, hbase⟩ => ?_
  refine L.bind (define hm₁ hs hs) ?_
  intro _ m₂ hm₂ hg₂ _
  have hs₂ : L.Has made.1 m₂ := hg₂ made.1 hs
  refine L.bind (defineBase made.2 hm₂ hs₂ (hbase.grow hg₂)) ?_
  intro _ m₃ hm₃ hg₃ _
  exact pure hm₃ (hg₃ made.1 hs₂)

theorem invokeClass (hev : L.Evaluates ev) {id : ClassId} {args : List (Arg Name (Expr Name))}
    (hm : L.Good m) : L.Holds (Eval.invokeClass ev id args span) m L.Has := by
  refine read_bind (fun _ _ => rfl) hm ?_
  split
  · exact unfinished
  next c hc =>
    refine L.bind (arguments hev hm) ?_
    intro values m₁ hm₁ hg hvalues
    exact instantiate hev hm₁ (hg c.scope ((L.objects_within hm).cls hc)) hvalues

theorem declareClass {decl : Class Name} (hm : L.Good m) :
    L.Holds (Eval.declareClass decl span) m fun _ _ => True := by
  refine L.bind (makeClass hm) ?_
  intro c m₁ hm₁ _ _
  exact bindName hm₁ trivial

theorem declareObject (hev : L.Evaluates ev) {decl : Class Name} (hm : L.Good m) :
    L.Holds (Eval.declareObject ev decl span) m fun _ _ => True := by
  refine L.bind (makeClass hm) ?_
  intro c m₁ hm₁ _ _
  refine L.bind (invokeClass hev hm₁) ?_
  intro s m₂ hm₂ _ hs
  exact bindName hm₂ hs

theorem enumEntries (hev : L.Evaluates ev) {c : ClassId} {s : ScopeId}
    (entries : List (EnumEntry Name (Expr Name))) (m : Interpreter) (hm : L.Good m)
    (hs : L.Has s m) : L.Holds (Eval.enumEntries ev c s entries) m fun _ _ => True := by
  induction entries generalizing m with
  | nil => exact pure hm trivial
  | cons entry entries ih =>
      refine L.bind (invokeClass hev hm) ?_
      intro made m₁ hm₁ hg₁ hmade
      refine read_bind (fun _ _ => rfl) hm₁ ?_
      refine L.bind (define hm₁ hmade trivial) ?_
      intro _ m₂ hm₂ hg₂ _
      refine L.bind (define hm₂ (hg₂ made hmade) trivial) ?_
      intro _ m₃ hm₃ hg₃ _
      refine read_bind (fun _ _ => rfl) hm₃ ?_
      have hs₃ : L.Has s m₃ := hg₃ s (hg₂ s (hg₁ s hs))
      split
      · exact fail hm₃
      · refine L.bind (define hm₃ hs₃ (hg₃ made (hg₂ made hmade))) ?_
        intro _ m₄ hm₄ hg₄ _
        exact ih m₄ hm₄ (hg₄ s hs₃)

theorem declareEnum (hev : L.Evaluates ev) {decl : Enum Name} (hm : L.Good m) :
    L.Holds (Eval.declareEnum ev decl span) m fun _ _ => True := by
  refine L.bind (makeClass hm) ?_
  intro c m₁ hm₁ _ _
  refine L.bind (createInstance hm₁ Discipline.scope?_none) ?_
  intro s m₂ hm₂ _ hs
  refine L.bind (enumEntries hev decl.entries m₂ hm₂ hs) ?_
  intro _ m₃ hm₃ hg₃ _
  exact bindName hm₃ (hg₃ s hs)

/-! ## Members -/

theorem keepWrapper {p : Primitive} {s : ScopeId} (hm : L.Good m) (hs : L.Has s m) :
    L.Holds (Eval.change (·.keepWrapper p s)) m fun _ _ => True :=
  change (fun _ _ => rfl) hm (.wrapper hs) trivial

theorem wrap (hev : L.Evaluates ev) {p : Primitive} (hm : L.Good m) :
    L.Holds (Eval.wrap ev p span) m L.Scope? := by
  refine read_bind (fun _ _ => rfl) hm ?_
  split
  next s hs => exact pure hm (Discipline.scope?_some (L.has_wrapper hm hs))
  · refine read_bind (fun _ _ => rfl) hm ?_
    split
    · exact pure hm Discipline.scope?_none
    next id c h =>
      -- The class stands in the register of classes, whatever the global scope binds its name to.
      have hc : L.Has c.scope m := by
        obtain ⟨id', -, hid⟩ := Option.bind_eq_some_iff.mp h
        obtain ⟨c', hc', heq⟩ := Option.map_eq_some_iff.mp hid
        obtain ⟨-, rfl⟩ := Prod.mk.inj heq
        exact (L.objects_within hm).cls hc'
      refine L.bind (instantiate hev hm hc Discipline.values_nil) ?_
      intro s m₁ hm₁ _ hs
      refine L.bind (keepWrapper hm₁ hs) ?_
      intro _ m₂ hm₂ hg₂ _
      exact pure hm₂ (Discipline.scope?_some (hg₂ s hs))

theorem instanceOf (hev : L.Evaluates ev) {v : Value} (hm : L.Good m) (hv : L.Value v m) :
    L.Holds (Eval.instanceOf ev v span) m L.Scope? := by
  unfold Eval.instanceOf
  split
  · exact pure hm (Discipline.scope?_some hv)
  · split
    · exact wrap hev hm
    · exact pure hm Discipline.scope?_none

theorem memberOf (hev : L.Evaluates ev) {target : Value} {n : Name} (hm : L.Good m)
    (hv : L.Value target m) :
    L.Holds (Eval.memberOf ev target n span) m
      fun found m' => L.Value found.1 m' ∧ L.Scope? found.2 m' := by
  refine L.bind (instanceOf hev hm hv) ?_
  intro s m₁ hm₁ _ hs
  refine read_bind (fun _ _ => rfl) hm₁ ?_
  split
  next v h =>
    obtain ⟨t, -, ht⟩ := Option.bind_eq_some_iff.mp h
    exact pure hm₁ ⟨(L.objects_within hm₁).member ht, hs⟩
  · exact read_bind (fun _ _ => rfl) hm₁ (failShowing hm₁)

end Logic
end IslandScript
