import IslandScript.Proofs.Logic.Rules

/-!
# Elementary evaluations

The evaluations that evaluate no part of a tree: binding names, spreading values, making functions,
classes and instances, running natives. Each keeps to the discipline of any logic.
-/

namespace IslandScript

open Eval

/-! ## What a state shows on top of other scopes

Names, scopes and the store are the same there; only the stack is not. -/

namespace Interpreter

variable (m : Interpreter) (outer : List ScopeId)

@[simp] theorem lookup?_onTopOf (n : Name) :
    (m.onTopOf outer).env.lookup? n = m.env.lookup? n :=
  rfl

@[simp] theorem current_onTopOf : (m.onTopOf outer).env.current = m.env.current := rfl

@[simp] theorem scopes_onTopOf : (m.onTopOf outer).env.scopes = m.env.scopes := rfl

@[simp] theorem store_onTopOf : (m.onTopOf outer).store = m.store := rfl

@[simp] theorem linker_onTopOf : (m.onTopOf outer).linker = m.linker := rfl

@[simp] theorem objects_onTopOf : (m.onTopOf outer).objects = m.objects := rfl

theorem define_onTopOf (s : ScopeId) (n : Name) (r : Reference) :
    (m.onTopOf outer).onEnv (·.define s n r) = (m.onEnv (·.define s n r)).onTopOf outer := by
  refine congrArg (fun env => { m with env := env }) ?_
  show (if (m.env.scopes.own? s n).isSome then _ else _) =
    Environment.onTopOf (if (m.env.scopes.own? s n).isSome then _ else _) outer
  split <;> rfl

end Interpreter

/-! ## Elementary evaluations by their outcome -/

namespace Eval

variable {m : Interpreter} {n : Name} {r : Reference} {span : Span}

/-- The name `_` is not bound. -/
theorem bind_discarded (h : m.text n = discarded) : Eval.bind n r span m = .done () m := by
  simp [Eval.bind, h]

/-- A name that the scope binds already is not bound again. -/
theorem bind_bound (h : m.text n ≠ discarded) (hbound : (m.env.own? n).isSome) :
    Eval.bind n r span m = .raised (.failed ⟨.redefinedName (m.text n), span⟩) m := by
  simp [Eval.bind, h, hbound]

/-- Any other name is bound in the current scope. -/
theorem bind_free (h : m.text n ≠ discarded) (hfree : m.env.own? n = none) :
    Eval.bind n r span m = .done () (m.onEnv fun env => env.bindIn env.current n r) := by
  simp [Eval.bind, h, hfree]

theorem bindName_eq_done {m' : Interpreter} :
    bind n r span m = .done () m' ↔
      (m.text n = discarded ∧ m' = m) ∨
        (m.text n ≠ discarded ∧ m.env.own? n = none ∧
          m' = m.onEnv fun env => env.bindIn env.current n r) := by
  by_cases hd : m.text n = discarded
  · simp [bind_discarded hd, hd, eq_comm]
  · cases hown : m.env.own? n with
    | none => simp [bind_free hd hown, hd, eq_comm]
    | some r => simp [bind_bound hd (by rw [hown]; rfl), hd]

theorem bind_local (n : Name) (r : Reference) (span : Span) : (Eval.bind n r span).Local := by
  intro m outer
  by_cases hname : m.text n = discarded
  · rw [bind_discarded hname, bind_discarded (m := m.onTopOf outer) hname]
    rfl
  · cases hown : m.env.own? n with
    | some _ =>
        have hbound : (m.env.own? n).isSome := by simp [hown]
        rw [bind_bound hname hbound, bind_bound (m := m.onTopOf outer) hname hbound]
        rfl
    | none =>
        rw [bind_free hname hown, bind_free (m := m.onTopOf outer) hname hown]
        rfl

/-- A native gives what it gives on the objects and the store, and leaves its store behind. -/
theorem native_apply {α : Type} (x : Native α) (span : Span) (m : Interpreter) :
    Eval.native x span m =
      match (x.run m.objects m.store).1 with
      | .ok a => .done a { m with store := (x.run m.objects m.store).2 }
      | .error kind =>
        .raised (.failed ⟨kind, span⟩) { m with store := (x.run m.objects m.store).2 } :=
  rfl

theorem native_local {α : Type} (x : Native α) (span : Span) : (Eval.native x span).Local := by
  intro m outer
  rw [native_apply, native_apply, Interpreter.objects_onTopOf, Interpreter.store_onTopOf]
  split <;> rfl

end Eval

namespace Logic

variable {L : Logic} {m : Interpreter} {span : Span}

/-! ## Binding -/

theorem bindName {n : Name} {r : Reference} (hm : L.Good m) (hr : L.Value r.value m) :
    L.Holds (Eval.bind n r span) m fun _ _ => True := by
  refine L.prim (bind_local n r span) ?_
  by_cases hname : m.text n = discarded
  · rw [bind_discarded hname]
    exact ⟨hm, L.later_refl m, trivial⟩
  · cases hown : m.env.own? n with
    | some _ =>
        rw [bind_bound hname (by simp [hown])]
        exact ⟨hm, L.later_refl m, trivial⟩
    | none =>
        rw [bind_free hname hown]
        obtain ⟨hgood, hlater⟩ := L.change_keeps hm (.bind hname hown hr)
        exact ⟨hgood, hlater, trivial⟩

theorem spread {v : Value} (hm : L.Good m) : L.Holds (Eval.spread v span) m L.Values := by
  refine L.prim (fun m outer => ?_) ?_
  · unfold Eval.spread
    simp only [Interpreter.store_onTopOf]
    split <;> rfl
  · unfold Eval.spread
    split
    next items h => exact ⟨hm, L.later_refl m, (L.tables_within hm).spread h⟩
    · exact ⟨hm, L.later_refl m, trivial⟩

theorem bindEach {kind : BindingKind} {mutable : Bool} (ns : List Name) (vs : List Value)
    (m : Interpreter) (hm : L.Good m) (hvs : L.Values vs m) :
    L.Holds (Eval.bindEach kind mutable span ns vs) m fun _ _ => True := by
  induction ns generalizing vs m with
  | nil => exact pure hm trivial
  | cons n ns ih =>
      cases vs with
      | nil => exact pure hm trivial
      | cons v vs =>
          obtain ⟨hv, hvs⟩ := List.forall_mem_cons.mp hvs
          refine L.bind (bindName hm hv) ?_
          intro _ m' hm' hg _
          exact ih vs m' hm' (Discipline.Values.grow hvs hg)

theorem bindPattern {p : Pattern Name} {v : Value} {kind : BindingKind} {mutable : Bool}
    (hm : L.Good m) (hv : L.Value v m) :
    L.Holds (Eval.bindPattern p v kind mutable span) m fun _ _ => True := by
  cases p with
  | name n => exact bindName hm hv
  | items ns =>
      refine L.bind (spread hm) ?_
      intro items m' hm' _ hitems
      split
      · exact fail hm'
      · exact bindEach ns items m' hm' hitems

theorem bindParams (ps : List (Param Name (Expr Name))) (vs : List Value) (m : Interpreter)
    (hm : L.Good m) (hvs : L.Values vs m) :
    L.Holds (Eval.bindParams span ps vs) m fun _ _ => True := by
  induction ps generalizing vs m with
  | nil => exact pure hm trivial
  | cons p ps ih =>
      cases vs with
      | nil => exact pure hm trivial
      | cons v vs =>
          obtain ⟨hv, hvs⟩ := List.forall_mem_cons.mp hvs
          refine L.bind (bindName hm hv) ?_
          intro _ m' hm' hg _
          exact ih vs m' hm' (Discipline.Values.grow hvs hg)

/-! ## Making lists, functions, classes and instances -/

theorem newList {items : List Value} (hm : L.Good m) (hitems : L.Values items m) :
    L.Holds (Eval.take (·.newList items)) m L.Value :=
  take (fun _ _ => rfl) hm (.list hitems) trivial

theorem makeFunction {decl : Function Name} {native : Option NativeFunctionId} (hm : L.Good m) :
    L.Holds (Eval.makeFunction decl native) m L.Value :=
  take (fun _ _ => rfl) hm .function trivial

theorem makeClass {decl : Class Name} (hm : L.Good m) :
    L.Holds (Eval.makeClass decl) m fun _ _ => True := by
  refine L.prim (fun m outer => ?_) ?_
  · unfold Eval.makeClass
    simp only [Interpreter.linker_onTopOf]
    split
    · split <;> rfl
    · rfl
  · have hmade (native : Option NativeClassId) :
        L.Good (m.addClass ⟨m.text decl.name, decl, m.env.current, native⟩).2 ∧
          L.Later m (m.addClass ⟨m.text decl.name, decl, m.env.current, native⟩).2 :=
      L.change_keeps hm .cls
    unfold Eval.makeClass
    split
    · split
      next id _ => exact ⟨(hmade (some id)).1, (hmade (some id)).2, trivial⟩
      · exact ⟨hm, L.later_refl m, trivial⟩
    · exact ⟨(hmade none).1, (hmade none).2, trivial⟩

theorem createInstance {c : ClassId} {base : Option ScopeId} {payload : Option Payload}
    (hm : L.Good m) (hb : L.Scope? base m) :
    L.Holds (Eval.createInstance c base payload) m L.Has :=
  take (fun _ _ => rfl) hm (.inst hb) (L.has_created hm)

theorem define {s : ScopeId} {n : Name} {v : Value} (hm : L.Good m) (hs : L.Has s m)
    (hv : L.Value v m) : L.Holds (Eval.define s n v) m fun _ _ => True :=
  change (fun m outer => m.define_onTopOf outer s n _) hm (.define hs hv) trivial

theorem defineBase {s : ScopeId} (base : Option ScopeId) (hm : L.Good m) (hs : L.Has s m)
    (hb : L.Scope? base m) : L.Holds (Eval.defineBase s base) m fun _ _ => True := by
  cases base with
  | none => exact pure hm trivial
  | some b => exact define hm hs (hb b rfl)

theorem memberParam {paramScope s : ScopeId} (p : Param Name (Expr Name)) (hm : L.Good m)
    (hs : L.Has s m) : L.Holds (Eval.memberParam paramScope s p) m fun _ _ => True := by
  unfold Eval.memberParam
  split
  · exact pure hm trivial
  next kind _ =>
    refine read_bind (fun _ _ => rfl) hm ?_
    split
    next r hr =>
      have hv : L.Value r.value m := (L.objects_within hm).own hr
      exact change (fun m outer => m.define_onTopOf outer s p.name _) hm (.define hs hv) trivial
    · exact pure hm trivial

theorem memberParams {paramScope s : ScopeId} (ps : List (Param Name (Expr Name)))
    (m : Interpreter) (hm : L.Good m) (hs : L.Has s m) :
    L.Holds (Eval.memberParams paramScope s ps) m fun _ _ => True := by
  induction ps generalizing m with
  | nil => exact pure hm trivial
  | cons p ps ih =>
      refine L.bind (memberParam p hm hs) ?_
      intro _ m' hm' hg _
      exact ih m' hm' (hg s hs)

/-! ## Natives -/

theorem callNative {id : NativeFunctionId} {f : NativeFunction} {path : String} {call : Call}
    (hm : L.Good m) (hf : m.linker.nativeFunction? id = some f)
    (hcall : call.Within (L.Has · m)) : L.Holds (Eval.callNative f path call span) m L.Value := by
  unfold Eval.callNative
  split
  · exact fail hm
  · obtain ⟨hgood, hlater⟩ := L.change_keeps hm (.native hf hcall)
    refine L.prim (native_local _ _) ?_
    rw [native_apply]
    split
    next v h =>
      exact ⟨hgood, hlater, (L.native_within hm hf hcall h).mono fun _ => L.has_later hlater⟩
    · exact ⟨hgood, hlater, trivial⟩

theorem nativePart {c : ClassObject} {s : ScopeId} (hm : L.Good m) (hs : L.Has s m) :
    L.Holds (Eval.nativePart c s span) m fun _ _ => True := by
  unfold Eval.nativePart
  split
  · exact pure hm trivial
  · refine read_bind (fun _ _ => rfl) hm ?_
    split
    · exact fail hm
    next id _ _ nc hc =>
      obtain ⟨hgood, hlater⟩ := L.change_keeps hm (.construct hc hs)
      have hnative : L.Holds (Eval.native (nc.construct s) span) m fun _ _ => True := by
        refine L.prim (native_local _ _) ?_
        rw [native_apply]
        split
        · exact ⟨hgood, hlater, trivial⟩
        · exact ⟨hgood, hlater, trivial⟩
      refine L.bind hnative ?_
      intro state m' hm' hg _
      exact change (fun _ _ => rfl) hm' (.state (hg s hs)) trivial

end Logic
end IslandScript
