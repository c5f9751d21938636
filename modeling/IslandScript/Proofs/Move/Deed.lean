import IslandScript.Proofs.Move.Basic

/-!
# Deeds

`Move` leaves open what the fixed names of an instance are bound to, and which names the parameters
of a class have. `Deed` tells a move as the evaluator makes it: `this` is the instance itself and
`base` the one it was created with, a name of the code that is bound in an instance is no parameter
of a lambda, and a parameter that becomes a member is one of a class that is kept. Every deed is a
move (`Deed.move`).
-/

namespace IslandScript

variable {P : Binder Name → Prop} {m m' : Interpreter} {s : ScopeId} {base : Option ScopeId}

/-- A scope is an instance that was created with a base instance or without one. -/
def Interpreter.HasBase (m : Interpreter) (s : ScopeId) (base : Option ScopeId) : Prop :=
  (m.env.scopes.get s).frame.map (·.base) = some base

theorem Interpreter.HasBase.created (h : m.HasBase s base) : s.index < m.env.scopes.size := by
  by_contra hlt
  unfold HasBase at h
  rw [Scopes.get_of_size_le (Nat.le_of_not_lt hlt)] at h
  cases h

/-- An instance keeps its base. -/
theorem Interpreter.Evolves.hasBase (h : m.Evolves m') (hs : m.HasBase s base) :
    m'.HasBase s base :=
  (h.scopes.get s hs.created).base.trans hs

/-- A name is one of the parameters of a class that is kept. -/
def Interpreter.Takes (m : Interpreter) (n : Name) : Prop :=
  ∃ c ∈ m.classes, ∃ p ∈ c.decl.params, p.name = n

/-- The moves of an evaluation, as it makes them. -/
inductive Deed (P : Binder Name → Prop) (m : Interpreter) : Interpreter → Prop
  /-- A name of the code is bound in the current scope, the parameters of a lambda in a scope that
  is no instance. -/
  | bind {b : Binder Name} {r : Reference} (hb : P b) (hname : m.text b.name ≠ Eval.discarded)
      (hfree : m.env.own? b.name = none)
      (hscope : b.kind = .lambdaParameter → (m.env.scopes.get m.env.current).frame = none) :
      Deed P m (m.onEnv fun env => env.bindIn env.current b.name r)
  /-- An instance gets itself as a member. -/
  | this (s : ScopeId) : Deed P m (m.onEnv (·.define s Name.this (.constant (.inst s))))
  /-- An instance gets the base that it was created with as a member. -/
  | base {s b : ScopeId} (hb : m.HasBase s (some b)) :
      Deed P m (m.onEnv (·.define s Name.base (.constant (.inst b))))
  /-- The entry of an enum gets its name or its place as a member. -/
  | label {s : ScopeId} {n : Name} {v : Value} (hn : n ∈ [Name.name, Name.ordinal]) :
      Deed P m (m.onEnv (·.define s n (.constant v)))
  /-- An instance gets a member under the name of a parameter, which the scope of its parameters
  binds. -/
  | param {s t : ScopeId} {n : Name} {r r' : Reference} (ht : (m.env.scopes.get t).frame = none)
      (hr : m.env.scopes.own? t n = some r) (hn : m.Takes n) :
      Deed P m (m.onEnv (·.define s n r'))
  /-- An instance of a class gets another of this class as a member: the entry of an enum. -/
  | entry {s e : ScopeId} {c : ClassId} {n : Name} (hn : P ⟨.entry, n⟩) (hs : m.InstanceOf s c)
      (he : m.InstanceOf e c) : Deed P m (m.onEnv (·.define s n (.constant (.inst e))))
  /-- A class is made in the current scope. -/
  | cls {name : String} {decl : Class Name} {native : Option NativeClassId}
      (hdecl : Class.Bears P decl) (hparams : ∀ p ∈ decl.params, P ⟨.parameter, p.name⟩) :
      Deed P m (m.addClass ⟨name, decl, m.env.current, native⟩).2
  /-- A move that binds no name and makes no class. -/
  | other {m' : Interpreter} (h : Move P m m') (hclasses : m'.classes = m.classes)
      (hown : ∀ s n r, m'.env.scopes.own? s n = some r → (m.env.scopes.own? s n).isSome) :
      Deed P m m'

/-- Any number of deeds. -/
abbrev Deeds (P : Binder Name → Prop) : Interpreter → Interpreter → Prop :=
  Relation.ReflTransGen (Deed P)

namespace Deed

/-- Every deed is a move. -/
theorem move (h : Deed P m m') : Move P m m' := by
  cases h with
  | bind hb hname hfree => exact .bind hb hname hfree
  | this => exact .fixed List.mem_cons_self
  | base => exact .fixed (List.mem_cons_of_mem _ List.mem_cons_self)
  | label hn => exact .fixed (List.mem_cons_of_mem _ (List.mem_cons_of_mem _ hn))
  | param ht hr => exact .param ht hr
  | entry hn hs he => exact .entry hn hs he
  | cls hdecl => exact .cls hdecl
  | other h => exact h

/-! ## Moves that bind no name -/

/-- Scopes that stay as they are bind no name more. -/
theorem of_scopes_eq (h : Move P m m') (hclasses : m'.classes = m.classes)
    (hscopes : m'.env.scopes = m.env.scopes) : Deed P m m' :=
  .other h hclasses fun _ _ _ hr => Option.isSome_of_eq_some (hscopes ▸ hr)

theorem write {n : Name} {t : ScopeId} {v : Value}
    (ht : m.env.scopes.assignable m.env.current n = .ok t) :
    Deed P m (m.onEnv (·.write t n v)) := by
  refine .other (.write ht) rfl fun s k r hr => ?_
  rcases Scopes.own?_update_cases hr with ⟨rfl, hr⟩ | hr
  · rcases Scope.own?_write_cases hr with ⟨-, r₀, hr₀⟩ | hr
    · exact Option.isSome_of_eq_some hr₀
    · exact Option.isSome_of_eq_some hr
  · exact Option.isSome_of_eq_some hr

theorem function {name : String} {decl : Function Name} {native : Option NativeFunctionId}
    (hdecl : Function.Bears P decl) :
    Deed P m (m.addFunction ⟨name, decl, m.env.current, native⟩).2 :=
  of_scopes_eq (.function hdecl) rfl rfl

theorem inst {c : ClassId} {base : Option ScopeId} {payload : Option Payload} :
    Deed P m { m with env := (m.env.create ⟨[], some m.env.current, some ⟨c, base, payload⟩⟩).2 } :=
  .other .inst rfl fun _ _ _ hr => Option.isSome_of_eq_some (Scopes.own?_push_of_nil rfl hr)

theorem state {s : ScopeId} {id : ClassId} {c : ClassObject} {state : NativeState}
    (hs : m.InstanceOf s id) (hc : m.classes[id.index]? = some c) (hnative : c.native ≠ none) :
    Deed P m (m.onEnv fun env =>
      { env with scopes := env.scopes.update s (·.withPayload (.native state)) }) := by
  refine .other (.state hs hc hnative) rfl fun t n r hr => ?_
  rcases Scopes.own?_update_cases hr with ⟨rfl, hr⟩ | hr <;> exact Option.isSome_of_eq_some hr

theorem store (st : Store) : Deed P m { m with store := st } :=
  of_scopes_eq (.store st) rfl rfl

theorem wrapper {p : Primitive} {s : ScopeId} (h : m.Wraps p s) : Deed P m (m.keepWrapper p s) :=
  of_scopes_eq (.wrapper h) rfl rfl

theorem enterNew (parent : ScopeId) : Deed P m (m.onEnv (·.pushChildOf parent)) :=
  .other (.enterNew parent) rfl fun _ _ _ hr =>
    Option.isSome_of_eq_some (Scopes.own?_push_of_nil rfl hr)

theorem enter (s : ScopeId) : Deed P m (m.onEnv (·.push s)) :=
  of_scopes_eq (.enter s) rfl rfl

theorem leave : Deed P m (m.onEnv .pop) :=
  of_scopes_eq .leave rfl (Environment.scopes_pop m.env)

end Deed

theorem Deeds.moves (h : Deeds P m m') : Moves P m m' :=
  Relation.ReflTransGen.mono (fun _ _ => Deed.move) _ _ h

end IslandScript
