import IslandScript.Command.Characters
import IslandScript.Proofs.Scope.Reachable

/-!
# Jumps at calls

A break, a continue or a return is meant for a loop or a function around it, so none should come
out of a call that was raised inside what is called. `Eval.Contained` says that no jump leaves an
evaluation. Calls of functions contain jumps whatever their parts raise. So do all parts of an
instantiation but one: a jump that the base expression of a class raises goes on to the caller, and
`jumps_leave_only_by_base` tells exactly when that is.
-/

namespace IslandScript

open Eval

/-- The signals that are meant for a loop or a function around. -/
def Signal.IsJump : Signal → Prop
  | breakLoop _ | continueLoop _ | returnValue _ => True
  | throwValue _ | exitValue _ | failed _ => False

namespace Eval

variable {α β : Type} {x : Eval α} {f : α → Eval β} {m m' : Interpreter} {s : Signal} {span : Span}

/-- No jump leaves an evaluation, whatever state it starts from. -/
def Contained (x : Eval α) : Prop := ∀ m, (x m).Sat (fun _ _ => True) fun s _ => ¬ s.IsJump

theorem Contained.not_raised (hx : x.Contained) (hs : s.IsJump) : x m ≠ .raised s m' := by
  intro h
  have hsat := hx m
  rw [h] at hsat
  exact hsat hs

/-! ## Jumps and composition -/

theorem Contained.bind (hx : x.Contained) (hf : ∀ a, (f a).Contained) : (x >>= f).Contained := by
  intro m
  rw [bind_apply]
  have hsat := hx m
  cases h : x m with
  | done a m₁ => exact hf a m₁
  | raised s m₁ =>
      rw [h] at hsat
      exact hsat
  | unfinished => trivial

/-- A jump that leaves a composition whose second part contains jumps comes from the first. -/
theorem raised_bind_iff_left (hf : ∀ a, (f a).Contained) (hs : s.IsJump) :
    (x >>= f) m = .raised s m' ↔ x m = .raised s m' := by
  rw [bind_apply]
  cases h : x m with
  | done a m₁ =>
      constructor
      · intro hraised
        exact absurd hraised ((hf a).not_raised hs)
      · exact nofun
  | raised t m₁ =>
      constructor
      · rintro ⟨⟩
        rfl
      · rintro ⟨⟩
        rfl
  | unfinished => exact ⟨nofun, nofun⟩

/-- A jump that leaves a composition whose first part contains jumps comes from the second. -/
theorem raised_bind_iff_right (hx : x.Contained) (hs : s.IsJump) :
    (x >>= f) m = .raised s m' ↔ ∃ a m₁, x m = .done a m₁ ∧ f a m₁ = .raised s m' := by
  rw [bind_apply]
  cases h : x m with
  | done a m₁ =>
      constructor
      · intro hraised
        exact ⟨a, m₁, rfl, hraised⟩
      · rintro ⟨b, m₂, hdone, hraised⟩
        cases hdone
        exact hraised
  | raised t m₁ =>
      constructor
      · intro hraised
        cases hraised
        exact absurd h (hx.not_raised hs)
      · rintro ⟨b, m₂, hdone, -⟩
        cases hdone
  | unfinished =>
      constructor
      · exact nofun
      · rintro ⟨b, m₂, hdone, -⟩
        cases hdone

theorem Contained.within (hx : x.Contained) (enter : Environment → Environment) :
    (Eval.within enter x).Contained := by
  intro m
  have hsat := hx (m.onEnv enter)
  unfold Eval.within
  cases h : x (m.onEnv enter) with
  | done a m₁ => trivial
  | raised s m₁ =>
      rw [h] at hsat
      exact hsat
  | unfinished => trivial

/-- What is raised in a scope of its own is raised on, when that scope was left. -/
theorem raised_within_iff {enter : Environment → Environment} :
    Eval.within enter x m = .raised s m' ↔
      ∃ m₁, x (m.onEnv enter) = .raised s m₁ ∧ m' = m₁.onEnv .pop := by
  unfold Eval.within
  cases h : x (m.onEnv enter) with
  | done a m₁ =>
      constructor
      · exact nofun
      · rintro ⟨m₂, hraised, -⟩
        cases hraised
  | raised t m₁ =>
      constructor
      · intro hraised
        cases hraised
        exact ⟨m₁, rfl, rfl⟩
      · rintro ⟨m₂, hraised, rfl⟩
        cases hraised
        rfl
  | unfinished =>
      constructor
      · exact nofun
      · rintro ⟨m₂, hraised, -⟩
        cases hraised

/-! ## Evaluations that raise no jump -/

theorem contained_pure (a : α) : (Pure.pure a : Eval α).Contained := fun _ => trivial

theorem contained_read (f : Interpreter → α) : (Eval.read f).Contained := fun _ => trivial

theorem contained_change (f : Interpreter → Interpreter) : (Eval.change f).Contained :=
  fun _ => trivial

theorem contained_take (f : Interpreter → α × Interpreter) : (Eval.take f).Contained :=
  fun _ => trivial

theorem contained_fail (kind : EvalErrorKind) : (Eval.fail kind span : Eval α).Contained :=
  fun _ => id

theorem contained_failShowing (v : Value) (kind : String → EvalErrorKind) :
    (Eval.failShowing v kind span : Eval α).Contained :=
  fun _ => id

theorem contained_raise (hs : ¬ s.IsJump) : (Eval.raise s : Eval α).Contained := fun _ => hs

theorem contained_attempt (x : Eval α) : x.attempt.Contained := by
  intro m
  unfold Eval.attempt
  cases x m <;> trivial

theorem contained_bindName (n : Name) (r : Reference) : (Eval.bind n r span).Contained := by
  intro m
  by_cases hname : m.text n = discarded
  · rw [bind_discarded hname]
    trivial
  · cases hown : m.env.own? n with
    | some _ =>
        rw [bind_bound hname (by simp [hown])]
        exact id
    | none =>
        rw [bind_free hname hown]
        trivial

theorem contained_bindParams (ps : List (Param Name (Expr Name))) (vs : List Value) :
    (Eval.bindParams span ps vs).Contained := by
  induction ps generalizing vs with
  | nil => exact contained_pure ()
  | cons p ps ih =>
      cases vs with
      | nil => exact contained_pure ()
      | cons v vs => exact (contained_bindName _ _).bind fun _ => ih vs

theorem contained_native (x : Native α) : (Eval.native x span).Contained := by
  intro m
  rw [native_apply]
  cases (x.run m.objects m.store).1 with
  | ok a => trivial
  | error kind => exact id

/-! ## Calls of functions -/

theorem contained_callNative (f : NativeFunction) (path : String) (call : Call) :
    (Eval.callNative f path call span).Contained := by
  unfold Eval.callNative
  split
  · exact contained_fail _
  · exact contained_native _

/-- A return gives the value of a body, and the other jumps are errors. -/
theorem contained_bodyValue (r : Except Signal Unit) : (Eval.bodyValue span r).Contained := by
  rcases r with s | ⟨⟩
  · cases s with
    | breakLoop label => exact contained_fail _
    | continueLoop label => exact contained_fail _
    | returnValue v => exact contained_pure v
    | throwValue v => exact contained_raise id
    | exitValue v => exact contained_raise id
    | failed e => exact contained_raise id
  · exact contained_pure _

theorem contained_runBody (ev : Evaluator) (body : Option (Stmt Name)) :
    (Eval.runBody ev body).Contained := by
  cases body with
  | none => exact contained_pure _
  | some body => exact (contained_attempt _).bind contained_bodyValue

theorem contained_callFunction (ev : Evaluator) (f : FunctionObject) (receiver : Option ScopeId)
    (args : List Value) : (Eval.callFunction ev f receiver args span).Contained := by
  unfold Eval.callFunction
  cases f.native with
  | none =>
      have hbody : (do
          Eval.bindParams span f.decl.params args
          Eval.runBody ev f.decl.body).Contained :=
        (contained_bindParams _ _).bind fun _ => contained_runBody ev _
      exact hbody.within _
  | some id =>
      refine (contained_read _).bind ?_
      intro nf
      cases nf with
      | some nf => exact contained_callNative _ _ _
      | none => exact contained_fail _

/-! ## Instantiation -/

theorem contained_memberParams (paramScope s : ScopeId) (ps : List (Param Name (Expr Name))) :
    (Eval.memberParams paramScope s ps).Contained := by
  induction ps with
  | nil => exact contained_pure ()
  | cons p ps ih =>
      refine Contained.bind ?_ fun _ => ih
      unfold Eval.memberParam
      cases p.marker with
      | none => exact contained_pure ()
      | some kind =>
          refine (contained_read _).bind fun r => ?_
          cases r with
          | some r => exact contained_change _
          | none => exact contained_pure ()

theorem contained_nativePart (c : ClassObject) (s : ScopeId) :
    (Eval.nativePart c s span).Contained := by
  unfold Eval.nativePart
  cases c.native with
  | none => exact contained_pure ()
  | some id =>
      refine (contained_read _).bind fun nc => ?_
      cases nc with
      | none => exact contained_fail _
      | some nc => exact (contained_native _).bind fun _ => contained_change _

theorem contained_runInitializers (ev : Evaluator) (ss : List (Stmt Name)) :
    (Eval.runInitializers ev ss).Contained := by
  induction ss with
  | nil => exact contained_pure ()
  | cons stmt ss ih =>
      refine (contained_attempt _).bind fun r => ?_
      rcases r with s | ⟨⟩
      · cases s with
        | breakLoop label => exact contained_fail _
        | continueLoop label => exact contained_fail _
        | returnValue v => exact contained_fail _
        | throwValue v => exact contained_raise id
        | exitValue v => exact contained_raise id
        | failed e => exact contained_raise id
      · exact ih

theorem contained_fillInstance (ev : Evaluator) (c : ClassObject) (paramScope s : ScopeId) :
    (Eval.fillInstance ev c paramScope s span).Contained := by
  have hfill : (do
      Eval.memberParams paramScope s c.decl.params
      Eval.nativePart c s span
      Eval.runInitializers ev c.decl.init).Contained :=
    (contained_memberParams _ _ _).bind fun _ =>
      (contained_nativePart _ _).bind fun _ => contained_runInitializers ev _
  exact hfill.within _

theorem contained_defineBase (s : ScopeId) (base : Option ScopeId) :
    (Eval.defineBase s base).Contained := by
  cases base with
  | none => exact contained_pure ()
  | some b => exact contained_change _

/-- A jump that leaves the making of a base instance was raised by the base expression. -/
theorem raised_baseInstance_iff {ev : Evaluator} {base : Option (Expr Name)} (hs : s.IsJump) :
    Eval.baseInstance ev base m = .raised s m' ↔
      ∃ e, base = some e ∧ ev.expr e m = .raised s m' := by
  cases base with
  | none => exact ⟨nofun, nofun⟩
  | some e =>
      have hleft : Eval.baseInstance ev (some e) m = .raised s m' ↔ ev.expr e m = .raised s m' := by
        refine raised_bind_iff_left (fun v => ?_) hs
        split
        · exact contained_pure _
        · exact contained_pure _
        · exact contained_failShowing _ _
      refine hleft.trans ⟨fun h => ⟨e, rfl, h⟩, ?_⟩
      rintro ⟨e', he', h⟩
      cases he'
      exact h

/-- The base expression of a class, evaluated where an instantiation evaluates it, raises a signal
and leaves a state behind. -/
def BaseRaises (ev : Evaluator) (c : ClassObject) (args : List Value) (span : Span)
    (m : Interpreter) (s : Signal) (m' : Interpreter) : Prop :=
  ∃ e m₁ m₂, c.decl.base = some e ∧
    Eval.bindParams span c.decl.params args (m.onEnv (·.pushChildOf c.scope)) = .done () m₁ ∧
    ev.expr e m₁ = .raised s m₂ ∧ m' = m₂.onEnv .pop

/-- A jump that leaves the making of an instance was raised by the base expression, behind the
binding of the parameters. -/
theorem raised_construct_iff {ev : Evaluator} {id : ClassId} {c : ClassObject} {args : List Value}
    {primitive : Option Primitive} (hs : s.IsJump) :
    Eval.construct ev id c args primitive span m = .raised s m' ↔
      ∃ e m₁, c.decl.base = some e ∧
        Eval.bindParams span c.decl.params args m = .done () m₁ ∧ ev.expr e m₁ = .raised s m' := by
  -- What follows the base expression: the scope of the instance is created and filled.
  have hrest (paramScope : ScopeId) (base : Option ScopeId) : Eval.Contained (do
      let inherited ← Eval.read fun m => base.bind m.objects.payload?
      let s ← Eval.createInstance id base ((primitive.map .primitive).or inherited)
      Eval.fillInstance ev c paramScope s span
      return (s, base)) := by
    refine (contained_read _).bind fun _ => ?_
    refine (contained_take _).bind fun s => ?_
    exact (contained_fillInstance ev c paramScope s).bind fun _ => contained_pure _
  refine (raised_bind_iff_right (contained_bindParams _ _) hs).trans ⟨?_, ?_⟩
  · rintro ⟨⟨⟩, m₁, hparams, hraised⟩
    have hbase := (raised_bind_iff_left (hrest m₁.env.current) hs).mp hraised
    obtain ⟨e, he, hexpr⟩ := (raised_baseInstance_iff hs).mp hbase
    exact ⟨e, m₁, he, hparams, hexpr⟩
  · rintro ⟨e, m₁, he, hparams, hexpr⟩
    have hbase := (raised_baseInstance_iff hs).mpr ⟨e, he, hexpr⟩
    exact ⟨(), m₁, hparams, (raised_bind_iff_left (hrest m₁.env.current) hs).mpr hbase⟩

/-- A jump that leaves an instantiation was raised by the base expression. -/
theorem raised_instantiate_iff {ev : Evaluator} {id : ClassId} {c : ClassObject}
    {args : List Value} {primitive : Option Primitive} (hs : s.IsJump) :
    Eval.instantiate ev id c args primitive span m = .raised s m' ↔
      BaseRaises ev c args span m s m' := by
  have hrest (made : ScopeId × Option ScopeId) : (do
      Eval.define made.1 Name.this (.inst made.1)
      Eval.defineBase made.1 made.2
      return made.1).Contained :=
    (contained_change _).bind fun _ => (contained_defineBase _ _).bind fun _ => contained_pure _
  refine (raised_bind_iff_left hrest hs).trans (raised_within_iff.trans ⟨?_, ?_⟩)
  · rintro ⟨m₂, hraised, rfl⟩
    obtain ⟨e, m₁, he, hparams, hexpr⟩ := (raised_construct_iff hs).mp hraised
    exact ⟨e, m₁, m₂, he, hparams, hexpr, rfl⟩
  · rintro ⟨e, m₁, m₂, he, hparams, hexpr, rfl⟩
    exact ⟨m₂, (raised_construct_iff hs).mpr ⟨e, m₁, he, hparams, hexpr⟩, rfl⟩

end Eval

/-- **Jumps leave calls only by base expressions.** From every state, no jump leaves a call of a
function. A jump leaves an instantiation exactly if the base expression of the class raises it, and
then the instantiation leaves behind what that expression left behind. -/
theorem jumps_leave_only_by_base (ev : Evaluator) (m : Interpreter) (args : List Value)
    (span : Span) :
    (∀ f receiver, (callFunction ev f receiver args span m).Sat (fun _ _ => True)
      fun s _ => ¬ s.IsJump) ∧
    ∀ id c primitive s m',
      s.IsJump ∧ instantiate ev id c args primitive span m = .raised s m' ↔
        s.IsJump ∧ BaseRaises ev c args span m s m' :=
  ⟨fun f receiver => contained_callFunction ev f receiver args m,
    fun _ _ _ _ _ => and_congr_right fun hs => raised_instantiate_iff hs⟩

/-- A class whose base expression is a conditional that breaks. -/
def breakingClass : Program Name :=
  [.cls Span.none ⟨Span.none, "A", false, ⟨5⟩, [],
    some (.ifElse Span.none (.value Span.none (.bool true))
      (.statement Span.none (.breakLoop Span.none none)) none), []⟩]

attribute [local instance] Command.charNames

/-- The break leaves the instantiation of the class. -/
theorem break_leaves_instantiation :
    ∃ m c m', Reachable m ∧ m.classes[0]? = some c ∧
      instantiate Interpreter.programs ⟨0⟩ c [] none Span.none m = .raised (.breakLoop none) m' :=
  ⟨_, _, _, .request (r := .program breakingClass) (n := bound) (.new default) trivial rfl, rfl, rfl⟩

end IslandScript
