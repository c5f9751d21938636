import IslandScript.Proofs.Logic.Basic
import IslandScript.Proofs.Logic.Request
import IslandScript.Proofs.Scope.Assign
import IslandScript.Proofs.Scope.Update

/-!
# How scopes evolve

A scope that was created stays: where it is, what it is an instance of, and what it binds. Names may
be added to it; of those it binds only the variables get other values. Assignments are the only
place that asks whether a name is constant, but names are bound by declarations, parameters, loops,
handlers, members and enums, so it takes the whole evaluator to say that constants are constant.
-/

namespace IslandScript

open Eval

/-- What a name is bound to may become something with another value, if it is not constant. -/
structure Reference.Evolves (r r' : Reference) : Prop where
  kind : r'.kind = r.kind
  mutable : r'.mutable = r.mutable
  value : r.kind = .constant → r'.value = r.value

/-- What may become of a scope. -/
structure Scope.Evolves (s s' : Scope) : Prop where
  parent : s'.parent = s.parent
  cls : s'.frame.map (·.cls) = s.frame.map (·.cls)
  base : s'.frame.map (·.base) = s.frame.map (·.base)
  own : ∀ n r, s.own? n = some r → ∃ r', s'.own? n = some r' ∧ r.Evolves r'

/-- What may become of all scopes: none goes away. -/
structure Scopes.Evolves (g g' : Scopes) : Prop where
  size_le : g.size ≤ g'.size
  get : ∀ s : ScopeId, s.index < g.size → (g.get s).Evolves (g'.get s)

/-- What may become of a state, as far as scopes and what their classes and functions are is
concerned. -/
structure Interpreter.Evolves (m m' : Interpreter) : Prop where
  scopes : m.env.scopes.Evolves m'.env.scopes
  functions : ∀ (i : Nat) (f : FunctionObject), m.functions[i]? = some f → m'.functions[i]? = some f
  classes : ∀ (i : Nat) (c : ClassObject), m.classes[i]? = some c → m'.classes[i]? = some c

/-! ## Scopes that stay and scopes that evolve further -/

theorem Reference.Evolves.refl (r : Reference) : r.Evolves r := ⟨rfl, rfl, fun _ => rfl⟩

theorem Reference.Evolves.trans {r r' r'' : Reference} (h : r.Evolves r') (h' : r'.Evolves r'') :
    r.Evolves r'' where
  kind := h'.kind.trans h.kind
  mutable := h'.mutable.trans h.mutable
  value hc := (h'.value (h.kind.trans hc)).trans (h.value hc)

namespace Scope.Evolves

variable {s s' s'' : Scope}

theorem refl (s : Scope) : s.Evolves s :=
  ⟨rfl, rfl, rfl, fun _ r hr => ⟨r, hr, .refl r⟩⟩

theorem trans (h : s.Evolves s') (h' : s'.Evolves s'') : s.Evolves s'' where
  parent := h'.parent.trans h.parent
  cls := h'.cls.trans h.cls
  base := h'.base.trans h.base
  own n r hr := by
    obtain ⟨r', hr', hrr'⟩ := h.own n r hr
    obtain ⟨r'', hr'', hrr''⟩ := h'.own n r' hr'
    exact ⟨r'', hr'', hrr'.trans hrr''⟩

/-- A name that a scope does not bind yet may be bound in it. -/
theorem bind {n : Name} {r : Reference} (hfree : s.own? n = none) : s.Evolves (s.bind n r) where
  parent := rfl
  cls := rfl
  base := rfl
  own k r' hr' := by
    -- The name was free, so a name that was bound is another one.
    have hne : k ≠ n := by
      rintro rfl
      rw [hfree] at hr'
      cases hr'
    exact ⟨r', (own?_bind_of_ne hne).trans hr', .refl r'⟩

/-- A name that is bound to a variable may be written. -/
theorem write {n : Name} {v : Value} (hvar : ∀ r, s.own? n = some r → r.kind ≠ .constant) :
    s.Evolves (s.write n v) where
  parent := rfl
  cls := rfl
  base := rfl
  own k r hr := by
    by_cases hk : k = n
    · subst hk
      refine ⟨{ r with value := v }, ?_, rfl, rfl, fun hc => absurd hc (hvar r hr)⟩
      rw [own?_write_self, hr]
      rfl
    · exact ⟨r, (own?_write_of_ne hk).trans hr, .refl r⟩

theorem withPayload (s : Scope) (p : Payload) : s.Evolves (s.withPayload p) where
  parent := rfl
  cls := by
    simp only [Scope.withPayload]
    cases s.frame <;> rfl
  base := by
    simp only [Scope.withPayload]
    cases s.frame <;> rfl
  own n r hr := ⟨r, hr, .refl r⟩

end Scope.Evolves

namespace Scopes.Evolves

variable {g g' g'' : Scopes}

theorem refl (g : Scopes) : g.Evolves g := ⟨Nat.le_refl _, fun s _ => .refl (g.get s)⟩

theorem trans (h : g.Evolves g') (h' : g'.Evolves g'') : g.Evolves g'' where
  size_le := Nat.le_trans h.size_le h'.size_le
  get s hs := (h.get s hs).trans (h'.get s (Nat.lt_of_lt_of_le hs h.size_le))

/-- A scope may be created. -/
theorem push (g : Scopes) (s : Scope) : g.Evolves (g.push s) where
  size_le := by
    rw [Array.size_push]
    exact Nat.le_succ _
  get t ht := by
    rw [get_push_of_lt ht]
    exact .refl _

/-- One scope may evolve. -/
theorem update (s : ScopeId) (f : Scope → Scope) (h : (g.get s).Evolves (f (g.get s))) :
    g.Evolves (g.update s f) where
  size_le := Nat.le_of_eq (size_update f).symm
  get t _ := by
    rcases get_update_cases (g := g) (s := s) f t with ⟨rfl, ht⟩ | ht
    · rw [ht]
      exact h
    · rw [ht]
      exact .refl _

end Scopes.Evolves

/-- What may be assigned to is no constant of the scope that would be written. -/
theorem Scopes.ne_constant_of_assignable {g : Scopes} {s t : ScopeId} {n : Name}
    (h : g.assignable s n = .ok t) (r : Reference) (hr : (g.get t).own? n = some r) :
    r.kind ≠ .constant := by
  obtain ⟨-, r', hr', hkind⟩ := own?_of_assignable h
  obtain rfl : r' = r := Option.some.inj (hr'.symm.trans hr)
  exact hkind

namespace Interpreter.Evolves

variable {m m' m'' : Interpreter}

theorem refl (m : Interpreter) : m.Evolves m := ⟨.refl _, fun _ _ h => h, fun _ _ h => h⟩

theorem trans (h : m.Evolves m') (h' : m'.Evolves m'') : m.Evolves m'' where
  scopes := h.scopes.trans h'.scopes
  functions i f hf := h'.functions i f (h.functions i f hf)
  classes i c hc := h'.classes i c (h.classes i c hc)

/-- A change of the environment is one of its scopes. -/
theorem onEnv {f : Environment → Environment} (h : m.env.scopes.Evolves (f m.env).scopes) :
    m.Evolves (m.onEnv f) :=
  ⟨h, fun _ _ hf => hf, fun _ _ hc => hc⟩

/-- Every elementary change lets the state evolve. -/
theorem change {has : ScopeId → Prop} (hc : Change has m m') : m.Evolves m' := by
  cases hc with
  | bind hname hfree hr => exact onEnv (.update _ (·.bind _ _) (.bind hfree))
  | write ht hv =>
      exact onEnv (.update _ (·.write _ _) (.write (Scopes.ne_constant_of_assignable ht)))
  | @define s n r hs hr =>
      refine onEnv ?_
      unfold Environment.define
      split
      · exact .refl _
      next hown => exact .update _ (·.bind _ _) (.bind (Option.not_isSome_iff_eq_none.mp hown))
  | function => exact ⟨.refl _, fun _ _ hf => getElem?_push_of_some hf, fun _ _ h => h⟩
  | cls => exact ⟨.refl _, fun _ _ h => h, fun _ _ hc => getElem?_push_of_some hc⟩
  | inst hb => exact ⟨.push _ _, fun _ _ h => h, fun _ _ h => h⟩
  | state hs => exact onEnv (.update _ (·.withPayload _) (.withPayload _ _))
  | native hf hcall => exact ⟨.refl _, fun _ _ h => h, fun _ _ h => h⟩
  | construct hc hs => exact ⟨.refl _, fun _ _ h => h, fun _ _ h => h⟩
  | list hitems => exact ⟨.refl _, fun _ _ h => h, fun _ _ h => h⟩
  | wrapper hs => exact ⟨.refl _, fun _ _ h => h, fun _ _ h => h⟩

theorem enter {has : ScopeId → Prop} {f : Environment → Environment} (he : Enters has f)
    (m : Interpreter) : m.Evolves (m.onEnv f) := by
  refine onEnv ?_
  cases he with
  | child => exact .push _ _
  | childOf hs => exact .push _ _
  | scope hs => exact .refl _

theorem leave (m : Interpreter) : m.Evolves (m.onEnv .pop) := by
  refine onEnv ?_
  rw [Environment.scopes_pop]
  exact .refl _

end Interpreter.Evolves

/-! ## Evaluations -/

/-- Every state is good, and evolves. -/
def StateDiscipline.evolving : StateDiscipline where
  Good _ := True
  Later := Interpreter.Evolves
  Has _ _ := True
  later_refl := .refl
  has_later _ _ := trivial
  change_keeps _ hc := ⟨trivial, .change hc⟩
  has_created _ := trivial
  has_wrapper _ _ := trivial
  objects_within {m} _ := m.objects_within_all
  tables_within {m} _ := m.tables_within_all
  native_within {_ _ _ _ v} _ _ _ _ := v.within_all
  later_trans := .trans
  enter_keeps _ he := ⟨trivial, .enter he _⟩
  leave_keeps _ := ⟨trivial, .leave _⟩

/-- **Scopes only evolve.** Whatever is evaluated, and however it ends, every scope is still there,
with its parent, its class and its base, and what it binds is still bound, with the same flags and,
if it is constant, the same value. -/
theorem scopes_evolve (n : Nat) (r : Request) (m : Interpreter) :
    (r.perform (evaluator n) m).Leaves m.Evolves := by
  have hev : StateDiscipline.evolving.logic.Evaluates (evaluator n) := Logic.evaluates _ n
  have hkeeps : StateDiscipline.evolving.Keeps m (fun _ _ => True) (r.perform (evaluator n) m) :=
    Logic.performs hev r trivial (r.within_of_forall fun _ => trivial)
  exact hkeeps.mono (fun _ _ h => h.2.1) fun _ _ h => h.2.1

end IslandScript
