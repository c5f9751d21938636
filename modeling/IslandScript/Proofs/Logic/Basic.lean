import IslandScript.Eval.Class
import IslandScript.Proofs.Logic.Outcome
import IslandScript.Proofs.Logic.Within

/-!
# Logics of evaluation

A property of all evaluations is shown by going through the evaluator once, whatever the property
is. What differs from one property to the next is collected here:

* a `Discipline` tells which states are good, what may become of a state, and which scopes a state
  has. It has to survive the elementary changes, and what is read from a good state has to refer to
  scopes it has.
* a `Logic` adds the judgement itself, `Holds x m Q`: evaluating `x` from `m` keeps to the
  discipline, and what it gives fulfils `Q`. Elementary evaluations are judged by their outcome
  (`prim`), the composed ones by the rules `bind`, `attempt` and `within`.

The rules for the other ways of composing evaluations follow from these.
-/

namespace IslandScript

/-! ## What evaluation can do to a state

Every change that evaluation makes to the state of an interpreter, apart from entering and leaving
scopes, is one of the elementary changes listed in `Change`, each with what is checked or known when
it is made. Whatever is to be shown of all evaluations is shown of these. `has` stands for the
scopes that may be referred to.
-/

/-- The elementary changes. -/
inductive Change (has : ScopeId → Prop) (m : Interpreter) : Interpreter → Prop
  /-- A name that the current scope does not bind yet is bound in it. -/
  | bind {n : Name} {r : Reference} (hname : m.text n ≠ Eval.discarded)
      (hfree : m.env.own? n = none) (hr : r.value.Within has) :
      Change has m (m.onEnv fun env => env.bindIn env.current n r)
  /-- A name that may be assigned to gets a value. -/
  | write {n : Name} {t : ScopeId} {v : Value}
      (ht : m.env.scopes.assignable m.env.current n = .ok t) (hv : v.Within has) :
      Change has m (m.onEnv (·.write t n v))
  /-- An instance gets a member, unless it has it. -/
  | define {s : ScopeId} {n : Name} {r : Reference} (hs : has s) (hr : r.value.Within has) :
      Change has m (m.onEnv (·.define s n r))
  /-- A function is made in the current scope. -/
  | function {name : String} {decl : Function Name} {native : Option NativeFunctionId} :
      Change has m (m.addFunction ⟨name, decl, m.env.current, native⟩).2
  /-- A class is made in the current scope. -/
  | cls {name : String} {decl : Class Name} {native : Option NativeClassId} :
      Change has m (m.addClass ⟨name, decl, m.env.current, native⟩).2
  /-- The scope of an instance is created inside the current scope. -/
  | inst {c : ClassId} {base : Option ScopeId} {payload : Option Payload}
      (hb : ∀ b, base = some b → has b) :
      Change has m
        { m with env := (m.env.create ⟨[], some m.env.current, some ⟨c, base, payload⟩⟩).2 }
  /-- An instance gets its native state. -/
  | state {s : ScopeId} {state : NativeState} (hs : has s) :
      Change has m (m.onEnv fun env =>
        { env with scopes := env.scopes.update s (·.withPayload (.native state)) })
  /-- A registered native function changes the store. -/
  | native {id : NativeFunctionId} {f : NativeFunction} {call : Call}
      (hf : m.linker.nativeFunction? id = some f) (hcall : call.Within has) :
      Change has m { m with store := ((f.call call).run m.objects m.store).2 }
  /-- A registered native class changes the store. -/
  | construct {id : NativeClassId} {c : NativeClass} {s : ScopeId}
      (hc : m.linker.nativeClass? id = some c) (hs : has s) :
      Change has m { m with store := ((c.construct s).run m.objects m.store).2 }
  /-- A list is made. -/
  | list {items : List Value} (hitems : ∀ v ∈ items, v.Within has) :
      Change has m (m.newList items).2
  /-- An instance is kept as the wrapper of a primitive. -/
  | wrapper {p : Primitive} {s : ScopeId} (hs : has s) : Change has m (m.keepWrapper p s)

/-- The ways of entering a scope: a new one inside the current scope, a new one inside another, or
one that is there. -/
inductive Enters (has : ScopeId → Prop) : (Environment → Environment) → Prop
  | child : Enters has .pushChild
  | childOf {s : ScopeId} (hs : has s) : Enters has (·.pushChildOf s)
  | scope {s : ScopeId} (hs : has s) : Enters has (·.push s)

/-! ## Disciplines -/

/-- What evaluation may rely on and has to keep. -/
structure Discipline where
  /-- The states that evaluations start from and end in. -/
  Good : Interpreter → Prop
  /-- What may become of a state. -/
  Later : Interpreter → Interpreter → Prop
  /-- The scopes of a state. -/
  Has : ScopeId → Interpreter → Prop
  later_refl : ∀ m, Later m m
  later_trans : ∀ {m m' m''}, Later m m' → Later m' m'' → Later m m''
  has_later : ∀ {m m' s}, Later m m' → Has s m → Has s m'
  change_keeps : ∀ {m m'}, Good m → Change (Has · m) m m' → Good m' ∧ Later m m'
  has_created : ∀ {m : Interpreter} {s : Scope}, Good m →
    Has ⟨m.env.scopes.size⟩ { m with env := (m.env.create s).2 }
  has_wrapper : ∀ {m : Interpreter} {p : Primitive} {s : ScopeId}, Good m →
    m.wrappers.get? p = some s → Has s m
  objects_within : ∀ {m}, Good m → m.objects.Within (Has · m)
  tables_within : ∀ {m}, Good m → m.store.tables.Within (Has · m)
  native_within : ∀ {m : Interpreter} {id : NativeFunctionId} {f : NativeFunction} {call : Call}
    {v : Value}, Good m → m.linker.nativeFunction? id = some f → call.Within (Has · m) →
    ((f.call call).run m.objects m.store).1 = .ok v → v.Within (Has · m)

/-! ## Where every scope is one of the state -/

theorem Interpreter.objects_within_all (m : Interpreter) : m.objects.Within fun _ => True :=
  Objects.within_of_forall (fun _ => trivial) _

theorem Interpreter.tables_within_all (m : Interpreter) : m.store.tables.Within fun _ => True :=
  Tables.within_of_forall (fun _ => trivial) _

theorem Value.within_all (v : Value) : v.Within fun _ => True :=
  v.within_of_forall fun _ => trivial

namespace Discipline

variable (D : Discipline)

/-- The value refers to scopes of the state. -/
def Value (v : Value) (m : Interpreter) : Prop := v.Within (D.Has · m)

/-- The values refer to scopes of the state. -/
def Values (vs : List IslandScript.Value) (m : Interpreter) : Prop := ∀ v ∈ vs, D.Value v m

/-- The scope, if there is one, is one of the state. -/
def Scope? (s : Option ScopeId) (m : Interpreter) : Prop := ∀ t, s = some t → D.Has t m

/-- A state that has the scopes of another. -/
def Grows (m m' : Interpreter) : Prop := ∀ s, D.Has s m → D.Has s m'

/-- An outcome that keeps to the discipline from a state on. -/
def Keeps {α : Type} (m : Interpreter) (Q : α → Interpreter → Prop) (o : Outcome α) : Prop :=
  o.Sat (fun a m' => D.Good m' ∧ D.Later m m' ∧ Q a m')
    fun s m' => D.Good m' ∧ D.Later m m' ∧ s.Within (D.Has · m')

variable {D}
variable {m m' : Interpreter}

theorem Value.grow {v : IslandScript.Value} (h : D.Value v m) (hg : D.Grows m m') : D.Value v m' :=
  h.mono hg

theorem Values.grow {vs : List IslandScript.Value} (h : D.Values vs m) (hg : D.Grows m m') :
    D.Values vs m' :=
  fun v hv => (h v hv).mono hg

theorem Scope?.grow {s : Option ScopeId} (h : D.Scope? s m) (hg : D.Grows m m') :
    D.Scope? s m' :=
  fun t ht => hg t (h t ht)

theorem Grows.trans {m'' : Interpreter} (h : D.Grows m m') (h' : D.Grows m' m'') : D.Grows m m'' :=
  fun s hs => h' s (h s hs)

theorem Grows.of_later (h : D.Later m m') : D.Grows m m' := fun _ => D.has_later h

theorem values_nil : D.Values [] m := List.forall_mem_nil _

theorem values_cons {v : IslandScript.Value} {vs : List IslandScript.Value} (hv : D.Value v m)
    (hvs : D.Values vs m) : D.Values (v :: vs) m :=
  List.forall_mem_cons.mpr ⟨hv, hvs⟩

theorem values_append {vs ws : List IslandScript.Value} (hv : D.Values vs m) (hw : D.Values ws m) :
    D.Values (vs ++ ws) m :=
  List.forall_mem_append.mpr ⟨hv, hw⟩

theorem scope?_none : D.Scope? none m := fun _ h => nomatch h

theorem scope?_some {s : ScopeId} (h : D.Has s m) : D.Scope? (some s) m := by
  rintro t ⟨⟩
  exact h

/-! ## Outcomes that keep to a discipline -/

section Keeps

open Eval

variable {α β : Type} {P : α → Interpreter → Prop}

/-- What keeps to the discipline from a later state on keeps to it from an earlier one on. -/
theorem Keeps.of_later {o : Outcome α} (h : D.Later m m') (ho : D.Keeps m' P o) :
    D.Keeps m P o := by
  refine ho.mono ?_ ?_
  · rintro a m'' ⟨hgood, hlater, ha⟩
    exact ⟨hgood, D.later_trans h hlater, ha⟩
  · rintro s m'' ⟨hgood, hlater, hs⟩
    exact ⟨hgood, D.later_trans h hlater, hs⟩

theorem Keeps.bind {x : Eval α} {f : α → Eval β} {Q : β → Interpreter → Prop}
    (hx : D.Keeps m P (x m))
    (hf : ∀ a m', D.Good m' → D.Grows m m' → P a m' → D.Keeps m' Q (f a m')) :
    D.Keeps m Q ((x >>= f) m) := by
  cases h : x m with
  | done a m' =>
      rw [h] at hx
      obtain ⟨hgood, hlater, ha⟩ := hx
      rw [bind_done h]
      exact Keeps.of_later hlater (hf a m' hgood (.of_later hlater) ha)
  | raised s m' =>
      rw [h] at hx
      rw [bind_raised h]
      exact hx
  | unfinished =>
      rw [bind_unfinished h]
      trivial

theorem Keeps.attempt {x : Eval α} (hx : D.Keeps m P (x m)) :
    D.Keeps m (fun r m' =>
      match r with
      | .ok a => P a m'
      | .error s => s.Within (D.Has · m')) (x.attempt m) := by
  unfold Eval.attempt
  cases h : x m with
  | done a m' =>
      rw [h] at hx
      exact hx
  | raised s m' =>
      rw [h] at hx
      exact hx
  | unfinished => trivial

/-- **Scopes of their own.** What is evaluated in a scope keeps to the discipline if leaving that
scope does. -/
theorem Keeps.within {x : Eval α} {Q : α → Interpreter → Prop}
    {enter : Environment → Environment} (hx : D.Keeps (m.onEnv enter) P (x (m.onEnv enter)))
    (hleave : ∀ m', D.Good m' → D.Later (m.onEnv enter) m' →
      D.Good (m'.onEnv .pop) ∧ D.Later m (m'.onEnv .pop) ∧ D.Grows m' (m'.onEnv .pop))
    (hPQ : ∀ a m', D.Grows m' (m'.onEnv .pop) → P a m' → Q a (m'.onEnv .pop)) :
    D.Keeps m Q (Eval.within enter x m) := by
  unfold Eval.within
  cases h : x (m.onEnv enter) with
  | done a m' =>
      rw [h] at hx
      obtain ⟨hgood, hlater, ha⟩ := hx
      obtain ⟨hgood', hlater', hg⟩ := hleave m' hgood hlater
      exact ⟨hgood', hlater', hPQ a m' hg ha⟩
  | raised s m' =>
      rw [h] at hx
      obtain ⟨hgood, hlater, hs⟩ := hx
      obtain ⟨hgood', hlater', hg⟩ := hleave m' hgood hlater
      exact ⟨hgood', hlater', hs.mono hg⟩
  | unfinished => trivial

end Keeps

end Discipline

/-- A discipline with a judgement on evaluations. -/
structure Logic extends Discipline where
  /-- Evaluating from a state keeps to the discipline, and what it gives fulfils a condition. -/
  Holds : {α : Type} → Eval α → Interpreter → (α → Interpreter → Prop) → Prop
  prim : ∀ {α : Type} {x : Eval α} {m : Interpreter} {Q : α → Interpreter → Prop}, x.Local →
    toDiscipline.Keeps m Q (x m) → Holds x m Q
  bind : ∀ {α β : Type} {x : Eval α} {f : α → Eval β} {m : Interpreter}
    {P : α → Interpreter → Prop} {Q : β → Interpreter → Prop}, Holds x m P →
    (∀ a m', Good m' → toDiscipline.Grows m m' → P a m' → Holds (f a) m' Q) → Holds (x >>= f) m Q
  attempt : ∀ {α : Type} {x : Eval α} {m : Interpreter} {P : α → Interpreter → Prop},
    Holds x m P → Holds x.attempt m fun r m' =>
      match r with
      | .ok a => P a m'
      | .error s => s.Within (Has · m')
  within : ∀ {α : Type} {x : Eval α} {m : Interpreter} {enter : Environment → Environment}
    {P Q : α → Interpreter → Prop}, Good m → Enters (Has · m) enter →
    (Good (m.onEnv enter) → toDiscipline.Grows m (m.onEnv enter) → Holds x (m.onEnv enter) P) →
    (∀ a m', toDiscipline.Grows m' (m'.onEnv .pop) → P a m' → Q a (m'.onEnv .pop)) →
    Holds (Eval.within enter x) m Q

/-! ## Disciplines that are logics

Where entering and leaving scopes keep to the discipline like any other change, an evaluation may be
judged by its outcome alone. -/

/-- A discipline to which entering and leaving scopes keep as well. -/
structure StateDiscipline extends Discipline where
  enter_keeps : ∀ {m : Interpreter} {enter : Environment → Environment}, Good m →
    Enters (Has · m) enter → Good (m.onEnv enter) ∧ Later m (m.onEnv enter)
  leave_keeps : ∀ {m : Interpreter}, Good m → Good (m.onEnv .pop) ∧ Later m (m.onEnv .pop)

/-- The logic of a discipline to which entering and leaving scopes keep. -/
def StateDiscipline.logic (D : StateDiscipline) : Logic where
  toDiscipline := D.toDiscipline
  Holds x m Q := D.Keeps m Q (x m)
  prim _ hkeeps := hkeeps
  bind := Discipline.Keeps.bind
  attempt := Discipline.Keeps.attempt
  within hm he hx hPQ := by
    obtain ⟨hgood, henter⟩ := D.enter_keeps hm he
    refine Discipline.Keeps.within (hx hgood (.of_later henter)) (fun m' hgood' hlater => ?_) hPQ
    obtain ⟨hgood'', hleave⟩ := D.leave_keeps hgood'
    exact ⟨hgood'', D.later_trans henter (D.later_trans hlater hleave), .of_later hleave⟩

end IslandScript
