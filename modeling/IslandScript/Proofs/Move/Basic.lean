import Mathlib.Logic.Relation
import IslandScript.Eval.Evaluator
import IslandScript.Proofs.Scope.Evolution
import IslandScript.Proofs.Syntax.Binders

/-!
# Moves

What evaluation does to a state it does in moves: names are bound, members defined, instances
created, wrappers kept. `Move` lists them with all that is known when each is made: which names the
code may bind, which scope a member comes from, what an instance is an instance of. `Moves` is any
number of them, and what every move keeps, all moves do.
-/

namespace IslandScript

variable {P : Binder Name → Prop} {m m' : Interpreter}

/-! ## What code binds -/

/-- The parameters of a function or class bind names of a kind, and so do their defaults. -/
def ParamsBear (P : Binder Name → Prop) (ps : List (Param Name (Expr Name))) : Prop :=
  ∀ p ∈ ps, (∃ kind, P ⟨kind, p.name⟩) ∧ Bears P (Expr?.binders p.default)

/-- All that is bound when a function is called is of a kind. -/
structure Function.Bears (P : Binder Name → Prop) (decl : Function Name) : Prop where
  params : ParamsBear P decl.params
  body : IslandScript.Bears P (Stmt?.binders decl.body)

/-- All that is bound when a class is instantiated is of a kind. -/
structure Class.Bears (P : Binder Name → Prop) (decl : Class Name) : Prop where
  params : ParamsBear P decl.params
  base : IslandScript.Bears P (Expr?.binders decl.base)
  init : IslandScript.Bears P (Stmts.binders decl.init)

theorem ParamsBear.of_binders {kind : BinderKind} {ps : List (Param Name (Expr Name))}
    (h : Bears P (Params.binders kind ps)) : ParamsBear P ps :=
  fun p hp => ⟨⟨kind, (bears_params.mp h p hp).1⟩, (bears_params.mp h p hp).2⟩

theorem Function.Bears.of_lambda {decl : Function Name}
    (h : IslandScript.Bears P (Lambda.binders decl)) : Function.Bears P decl := by
  cases decl
  obtain ⟨hparams, hbody⟩ := bears_append.mp h
  exact ⟨.of_binders hparams, hbody⟩

theorem Function.Bears.of_binders {decl : Function Name}
    (h : IslandScript.Bears P (Function.binders decl)) : Function.Bears P decl := by
  cases decl
  obtain ⟨hhead, hbody⟩ := bears_append.mp h
  exact ⟨.of_binders (bears_append.mp hhead).2, hbody⟩

theorem Function.bears_name {decl : Function Name} {n : Name}
    (h : IslandScript.Bears P (Function.binders decl)) (hn : decl.name = some n) :
    P ⟨.function, n⟩ := by
  cases decl
  cases hn
  exact (bears_append.mp (bears_append.mp h).1).1 _ (List.mem_singleton_self _)

theorem Class.Bears.of_binders {kind : BinderKind} {decl : Class Name}
    (h : IslandScript.Bears P (Class.binders kind decl)) : Class.Bears P decl := by
  cases decl
  simp only [Class.binders, bears_append, bears_cons] at h
  exact ⟨.of_binders h.1.1.2, h.1.2, h.2⟩

theorem Class.bears_name {kind : BinderKind} {decl : Class Name}
    (h : IslandScript.Bears P (Class.binders kind decl)) : P ⟨kind, decl.name⟩ := by
  cases decl
  exact h _ List.mem_cons_self

theorem Class.bears_paramNames {kind : BinderKind} {decl : Class Name}
    (h : IslandScript.Bears P (Class.binders kind decl)) :
    ∀ p ∈ decl.params, P ⟨.parameter, p.name⟩ := by
  cases decl
  simp only [Class.binders, bears_append, bears_cons] at h
  exact fun p hp => (bears_params.mp h.1.1.2 p hp).1

/-- All that the functions and classes kept bind is of a kind. -/
structure Interpreter.Bears (m : Interpreter) (P : Binder Name → Prop) : Prop where
  functions : ∀ f ∈ m.functions, Function.Bears P f.decl
  classes : ∀ c ∈ m.classes, Class.Bears P c.decl

/-- Whatever is bound is bound. -/
theorem Interpreter.bears_true (m : Interpreter) : m.Bears fun _ => True where
  functions _ _ := ⟨fun _ _ => ⟨⟨.parameter, trivial⟩, fun _ _ => trivial⟩, fun _ _ => trivial⟩
  classes _ _ :=
    ⟨fun _ _ => ⟨⟨.parameter, trivial⟩, fun _ _ => trivial⟩, fun _ _ => trivial, fun _ _ => trivial⟩

/-! ## Instances and wrappers -/

namespace Interpreter

theorem text_eq (h : m'.interner = m.interner) : m'.text = m.text := by
  unfold text
  rw [h]

/-- A scope is an instance of a class. -/
def InstanceOf (m : Interpreter) (s : ScopeId) (c : ClassId) : Prop :=
  (m.env.scopes.get s).frame.map (·.cls) = some c

/-- An instance has the member that a linked function declares: a constant, the function with the
native that its path stands for. -/
def Links (m : Interpreter) (s : ScopeId) (decl : Function Name) (n : Name) : Prop :=
  ∃ f fn id, m.env.scopes.own? s n = some (.constant (.function f)) ∧
    m.functions[f.index]? = some fn ∧ fn.decl = decl ∧ fn.native = some id ∧
    m.linker.function decl.path = .ok id

/-- An instance has the members that the linked functions among its initializers declare. -/
def LinksAll (m : Interpreter) (s : ScopeId) (init : List (Stmt Name)) : Prop :=
  ∀ span decl n, .function span decl ∈ init → decl.linked → decl.name = some n →
    m.text n ≠ Eval.discarded → m.Links s decl n

/-- An instance of a class was made, for a primitive or not: it has the members that the class links,
and stands for the primitive unless the class is native. -/
structure Made (m : Interpreter) (s : ScopeId) (id : ClassId) (c : ClassObject)
    (primitive : Option Primitive) : Prop where
  cls : m.classes[id.index]? = some c
  inst : m.InstanceOf s id
  links : m.LinksAll s c.decl.init
  payload : c.native = none → ∀ p, primitive = some p → m.objects.payload? s = some (.primitive p)

/-- A scope was just made to wrap a primitive, for which there was no wrapper before: it is an instance
of the class that the global scope had for it. -/
inductive Wraps (m : Interpreter) (p : Primitive) (s : ScopeId) : Prop
  | made {before : Interpreter} {id : ClassId} {c : ClassObject} {bound : Nat} {span : Span}
      (hevolves : before.Evolves m) (hinterner : m.interner = before.interner)
      (hlinker : m.linker = before.linker) (hnew : before.wrappers.get? p = none)
      (hid : Eval.wrapperClass? before p = some id) (hc : before.classes[id.index]? = some c)
      (hmade : m.Made s id c (some p))
      (hrun : Eval.instantiate (Eval.evaluator bound) id c [] (some p) span before = .done s m)

end Interpreter

/-! ## Moves -/

/-- The moves of an evaluation whose code binds names of a kind. -/
inductive Move (P : Binder Name → Prop) (m : Interpreter) : Interpreter → Prop
  /-- A name of the code that the current scope does not bind yet is bound in it. -/
  | bind {b : Binder Name} {r : Reference} (hb : P b) (hname : m.text b.name ≠ Eval.discarded)
      (hfree : m.env.own? b.name = none) :
      Move P m (m.onEnv fun env => env.bindIn env.current b.name r)
  /-- A name that may be assigned to gets a value. -/
  | write {n : Name} {t : ScopeId} {v : Value}
      (ht : m.env.scopes.assignable m.env.current n = .ok t) :
      Move P m (m.onEnv (·.write t n v))
  /-- An instance gets a member whose name is fixed. -/
  | fixed {s : ScopeId} {n : Name} {v : Value}
      (hn : n ∈ [Name.this, Name.base, Name.name, Name.ordinal]) :
      Move P m (m.onEnv (·.define s n (.constant v)))
  /-- An instance gets a member under a name that the scope of its parameters binds. -/
  | param {s t : ScopeId} {n : Name} {r r' : Reference} (ht : (m.env.scopes.get t).frame = none)
      (hr : m.env.scopes.own? t n = some r) : Move P m (m.onEnv (·.define s n r'))
  /-- An instance of a class gets another of this class as a member: the entry of an enum. -/
  | entry {s e : ScopeId} {c : ClassId} {n : Name} (hn : P ⟨.entry, n⟩) (hs : m.InstanceOf s c)
      (he : m.InstanceOf e c) : Move P m (m.onEnv (·.define s n (.constant (.inst e))))
  /-- A function is made in the current scope. -/
  | function {name : String} {decl : Function Name} {native : Option NativeFunctionId}
      (hdecl : Function.Bears P decl) :
      Move P m (m.addFunction ⟨name, decl, m.env.current, native⟩).2
  /-- A class is made in the current scope. -/
  | cls {name : String} {decl : Class Name} {native : Option NativeClassId}
      (hdecl : Class.Bears P decl) : Move P m (m.addClass ⟨name, decl, m.env.current, native⟩).2
  /-- The scope of an instance is created inside the current scope. -/
  | inst {c : ClassId} {base : Option ScopeId} {payload : Option Payload} :
      Move P m { m with env := (m.env.create ⟨[], some m.env.current, some ⟨c, base, payload⟩⟩).2 }
  /-- An instance of a native class gets its native state. -/
  | state {s : ScopeId} {id : ClassId} {c : ClassObject} {state : NativeState}
      (hs : m.InstanceOf s id) (hc : m.classes[id.index]? = some c) (hnative : c.native ≠ none) :
      Move P m (m.onEnv fun env =>
        { env with scopes := env.scopes.update s (·.withPayload (.native state)) })
  /-- Lists and texts are made and changed. -/
  | store (st : Store) : Move P m { m with store := st }
  /-- A scope is kept as the wrapper it was made for. -/
  | wrapper {p : Primitive} {s : ScopeId} (h : m.Wraps p s) : Move P m (m.keepWrapper p s)
  /-- A new scope inside another is entered. -/
  | enterNew (parent : ScopeId) : Move P m (m.onEnv (·.pushChildOf parent))
  /-- A scope that is there is entered. -/
  | enter (s : ScopeId) : Move P m (m.onEnv (·.push s))
  /-- The innermost active scope is left. -/
  | leave : Move P m (m.onEnv .pop)

/-- Any number of moves. -/
abbrev Moves (P : Binder Name → Prop) : Interpreter → Interpreter → Prop :=
  Relation.ReflTransGen (Move P)

theorem Moves.trans {m'' : Interpreter} (h : Moves P m m') (h' : Moves P m' m'') : Moves P m m'' :=
  Relation.ReflTransGen.trans h h'

/-- What every move keeps, all moves keep. -/
theorem Moves.keep {I : Interpreter → Prop} (h : Moves P m m')
    (hmove : ∀ m m', I m → Move P m m' → I m') (hm : I m) : I m' := by
  induction h with
  | refl => exact hm
  | tail _ hlast ih => exact hmove _ _ ih hlast

/-! ## What all moves keep -/

theorem Move.evolves (h : Move P m m') : m.Evolves m' := by
  -- Where nothing is asked of scopes, most moves are the elementary changes.
  let all : ScopeId → Prop := fun _ => True
  have hall (v : Value) : v.Within all := v.within_all
  have hchange {m' : Interpreter} (h : Change all m m') : m.Evolves m' := .change h
  have henter {f : Environment → Environment} (h : Enters all f) : m.Evolves (m.onEnv f) := .enter h m
  cases h with
  | bind hb hname hfree => exact hchange (.bind hname hfree (hall _))
  | write ht => exact hchange (.write ht (hall _))
  | fixed hn => exact hchange (.define trivial (hall _))
  | param ht hr => exact hchange (.define trivial (hall _))
  | entry hn hs he => exact hchange (.define trivial (hall _))
  | function hdecl => exact hchange .function
  | cls hdecl => exact hchange .cls
  | inst => exact hchange (.inst fun _ _ => trivial)
  | state hs hc hnative => exact hchange (.state trivial)
  | store st => exact ⟨.refl _, fun _ _ h => h, fun _ _ h => h⟩
  | wrapper h => exact hchange (.wrapper trivial)
  | enterNew parent => exact henter (.childOf trivial)
  | enter s => exact henter (.scope trivial)
  | leave => exact .leave m

theorem Move.interner (h : Move P m m') : m'.interner = m.interner := by
  cases h <;> rfl

theorem Move.linker (h : Move P m m') : m'.linker = m.linker := by
  cases h <;> rfl

/-- The code that is kept binds names of its kind. -/
theorem Move.bears (h : Move P m m') (hm : m.Bears P) : m'.Bears P := by
  cases h with
  | function hdecl =>
      refine ⟨fun f hf => ?_, hm.classes⟩
      rcases Array.mem_push.mp hf with hf | rfl
      · exact hm.functions f hf
      · exact hdecl
  | cls hdecl =>
      refine ⟨hm.functions, fun c hc => ?_⟩
      rcases Array.mem_push.mp hc with hc | rfl
      · exact hm.classes c hc
      · exact hdecl
  | _ => exact ⟨hm.functions, hm.classes⟩

namespace Moves

theorem evolves (h : Moves P m m') : m.Evolves m' :=
  h.keep (fun _ _ hm hmove => hm.trans hmove.evolves) (.refl m)

theorem interner (h : Moves P m m') : m'.interner = m.interner :=
  h.keep (I := (·.interner = m.interner)) (fun _ _ hm hmove => hmove.interner.trans hm) rfl

theorem text (h : Moves P m m') : m'.text = m.text :=
  Interpreter.text_eq h.interner

theorem linker (h : Moves P m m') : m'.linker = m.linker :=
  h.keep (I := (·.linker = m.linker)) (fun _ _ hm hmove => hmove.linker.trans hm) rfl

theorem bears (h : Moves P m m') (hm : m.Bears P) : m'.Bears P :=
  h.keep (fun _ _ hm hmove => hmove.bears hm) hm

end Moves

/-! ## Frames -/

namespace Interpreter

variable {s : ScopeId} {id : ClassId} {c : ClassObject}

theorem InstanceOf.index_lt (h : m.InstanceOf s id) : s.index < m.env.scopes.size := by
  by_contra hlt
  unfold InstanceOf at h
  rw [Scopes.get_of_size_le (Nat.le_of_not_lt hlt)] at h
  cases h

/-- An instance of a class is one for good. -/
theorem Evolves.instanceOf (h : m.Evolves m') (hs : m.InstanceOf s id) : m'.InstanceOf s id :=
  (h.scopes.get s hs.index_lt).cls.trans hs

/-- A scope that is no instance never becomes one. -/
theorem Evolves.frame_none (h : m.Evolves m') (hs : s.index < m.env.scopes.size)
    (hnone : (m.env.scopes.get s).frame = none) : (m'.env.scopes.get s).frame = none := by
  have hcls := (h.scopes.get s hs).cls
  rw [hnone] at hcls
  exact Option.map_eq_none_iff.mp hcls

end Interpreter

/-- What a scope binds as a constant it binds for good. -/
theorem Interpreter.Evolves.own_constant {s : ScopeId} {n : Name} {v : Value} (h : m.Evolves m')
    (hown : m.env.scopes.own? s n = some (.constant v)) :
    m'.env.scopes.own? s n = some (.constant v) := by
  obtain ⟨⟨kind, mutable, value⟩, hown', hr⟩ :=
    (h.scopes.get s (Scopes.created_of_own hown)).own n _ hown
  cases hr.kind
  cases hr.mutable
  cases hr.value rfl
  exact hown'

/-- A member that a linked function declared is there for good. -/
theorem Moves.links {s : ScopeId} {decl : Function Name} {n : Name} (h : Moves P m m')
    (hlinks : m.Links s decl n) : m'.Links s decl n := by
  obtain ⟨f, fn, id, hown, hf, hdecl, hnative, hpath⟩ := hlinks
  exact ⟨f, fn, id, h.evolves.own_constant hown, h.evolves.functions _ _ hf, hdecl, hnative,
    h.linker ▸ hpath⟩

theorem Scopes.frame_update {g : Scopes} (f : Scope → Scope) (hf : ∀ s, (f s).frame = s.frame)
    (s t : ScopeId) : ((g.update s f).get t).frame = (g.get t).frame := by
  rcases get_update_cases (g := g) (s := s) f t with ⟨rfl, ht⟩ | ht
  · rw [ht, hf]
  · rw [ht]

theorem Environment.frame_define (env : Environment) (s t : ScopeId) (n : Name) (r : Reference) :
    ((env.define s n r).scopes.get t).frame = (env.scopes.get t).frame := by
  unfold define
  split
  · rfl
  · exact Scopes.frame_update (·.bind n r) (fun _ => rfl) s t

/-- The frame of an instance stays, unless its class is native. -/
theorem Move.frame {s : ScopeId} {id : ClassId} {c : ClassObject} (h : Move P m m')
    (hs : m.InstanceOf s id) (hc : m.classes[id.index]? = some c) (hnative : c.native = none) :
    (m'.env.scopes.get s).frame = (m.env.scopes.get s).frame := by
  cases h with
  | @bind b r => exact Scopes.frame_update (·.bind b.name r) (fun _ => rfl) _ s
  | @write n t v => exact Scopes.frame_update (·.write n v) (fun _ => rfl) _ s
  | fixed | param | entry => exact Environment.frame_define _ _ s _ _
  | inst | enterNew => exact congrArg Scope.frame (Scopes.get_push_of_lt hs.index_lt)
  | @state t id' c' state ht hc' hnative' =>
      rcases Scopes.get_update_cases (g := m.env.scopes) (s := t)
        (·.withPayload (.native state)) s with ⟨rfl, -⟩ | hget
      · -- the state of a native class goes to its own instances only
        cases Option.some.inj (hs.symm.trans ht)
        cases hc.symm.trans hc'
        exact absurd hnative hnative'
      · exact congrArg Scope.frame hget
  | leave => exact congrArg (fun g => (Scopes.get g s).frame) (Environment.scopes_pop _)
  | function | cls | store | wrapper | enter => rfl

/-- The frame of an instance stays, unless its class is native. -/
theorem Moves.frame {s : ScopeId} {id : ClassId} {c : ClassObject} (h : Moves P m m')
    (hs : m.InstanceOf s id) (hc : m.classes[id.index]? = some c) (hnative : c.native = none) :
    (m'.env.scopes.get s).frame = (m.env.scopes.get s).frame := by
  induction h with
  | refl => rfl
  | tail hmoves hlast ih =>
      have hevolves := Moves.evolves hmoves
      exact (hlast.frame (hevolves.instanceOf hs) (hevolves.classes _ _ hc) hnative).trans ih

theorem Moves.linksAll {s : ScopeId} {init : List (Stmt Name)} (h : Moves P m m')
    (hlinks : m.LinksAll s init) : m'.LinksAll s init := by
  intro span decl n hmem hlinked hname htext
  exact h.links (hlinks span decl n hmem hlinked hname (h.text ▸ htext))

theorem Moves.made {s : ScopeId} {id : ClassId} {c : ClassObject} {primitive : Option Primitive}
    (h : Moves P m m') (hmade : m.Made s id c primitive) : m'.Made s id c primitive where
  cls := h.evolves.classes _ _ hmade.cls
  inst := h.evolves.instanceOf hmade.inst
  links := h.linksAll hmade.links
  payload hnative p hp := by
    refine Eq.trans ?_ (hmade.payload hnative p hp)
    exact congrArg (·.bind (·.payload)) (h.frame hmade.inst hmade.cls hnative)

end IslandScript
