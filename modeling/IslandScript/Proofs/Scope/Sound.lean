import IslandScript.Proofs.Link.Faithful
import IslandScript.Proofs.Scope.Evolution
import IslandScript.Proofs.Scope.Walk

/-!
# Sound states

In a sound state every scope comes after its parent and its base, and whatever refers to a scope
refers to one that was created: the stack, values wherever they are kept, functions and classes, and
the wrappers of primitives. The two go together. A base may be any instance that an expression comes
to and a parent any scope that a function closes over, so a new scope comes after them because all
that can be come to was created before.
-/

namespace IslandScript

open Eval

/-- The scope was created. -/
def Environment.Created (env : Environment) (s : ScopeId) : Prop := s.index < env.scopes.size

/-- Scopes are in order, and neither the stack nor a value that is bound refers to a scope that was
not created. -/
structure Environment.Sound (env : Environment) : Prop where
  ordered : env.scopes.Ordered
  active : ∀ s ∈ env.stack, env.Created s
  own : ∀ {s : ScopeId} {n : Name} {r : Reference}, env.scopes.own? s n = some r →
    r.value.Within env.Created

/-- Nothing in the state refers to a scope that was not created. -/
structure Interpreter.Sound (m : Interpreter) : Prop where
  env : m.env.Sound
  function : ∀ {i : Nat} {f : FunctionObject}, m.functions[i]? = some f → m.env.Created f.scope
  cls : ∀ {i : Nat} {c : ClassObject}, m.classes[i]? = some c → m.env.Created c.scope
  tables : m.store.tables.Within m.env.Created
  wrapper : ∀ {p : Primitive} {s : ScopeId}, m.wrappers.get? p = some s → m.env.Created s
  linker : m.linker.Faithful

/-! ## Scopes in order -/

namespace Scopes

variable {g : Scopes} {has : ScopeId → Prop}

/-- A change that leaves the parent and the base of a scope leaves the order. -/
theorem Ordered.update (hg : g.Ordered) (s : ScopeId) {f : Scope → Scope}
    (hparent : ∀ scope, (f scope).parent = scope.parent)
    (hbase : ∀ scope, (f scope).frame.bind (·.base) = scope.frame.bind (·.base)) :
    (g.update s f).Ordered where
  parent {t p} h := by
    rcases get_update_cases (g := g) (s := s) f t with ⟨-, ht⟩ | ht
    · rw [ht, hparent] at h
      exact hg.parent h
    · rw [ht] at h
      exact hg.parent h
  base {t b} h := by
    unfold base? at h
    rcases get_update_cases (g := g) (s := s) f t with ⟨-, ht⟩ | ht
    · rw [ht, hbase] at h
      exact hg.base h
    · rw [ht] at h
      exact hg.base h

/-- A scope whose parent and base were created may be created. -/
theorem Ordered.push (hg : g.Ordered) {scope : Scope}
    (hparent : ∀ p, scope.parent = some p → p.index < g.size)
    (hbase : ∀ b, scope.frame.bind (·.base) = some b → b.index < g.size) :
    Ordered (g.push scope) where
  parent {t p} h := by
    rcases get_push_cases (created_of_parent h) with ⟨rfl, ht⟩ | ⟨-, ht⟩
    · rw [ht] at h
      exact hparent p h
    · rw [ht] at h
      exact hg.parent h
  base {t b} h := by
    rcases get_push_cases (created_of_base h) with ⟨rfl, ht⟩ | ⟨-, ht⟩
    · unfold base? at h
      rw [ht] at h
      exact hbase b h
    · unfold base? at h
      rw [ht] at h
      exact hg.base h

/-- What is bound after a change of one scope was bound before, or is bound by the change. -/
theorem own?_update_within {s t : ScopeId} {n : Name} {r : Reference} {f : Scope → Scope}
    (hg : ∀ {s n r}, g.own? s n = some r → r.value.Within has)
    (hf : ∀ scope r, (f scope).own? n = some r → scope.own? n = some r ∨ r.value.Within has)
    (h : (g.update s f).own? t n = some r) : r.value.Within has := by
  unfold own? at h
  rcases get_update_cases (g := g) (s := s) f t with ⟨-, ht⟩ | ht
  · rw [ht] at h
    rcases hf _ r h with h | h
    · exact hg h
    · exact h
  · rw [ht] at h
    exact hg h

end Scopes

/-- An instance found after one was kept is that one, or was kept before. -/
theorem Wrappers.get?_insert {w : Wrappers} {p q : Primitive} {s t : ScopeId}
    (h : (w.insert p s).get? q = some t) : t = s ∨ w.get? q = some t := by
  obtain ⟨bucket, hbucket, ht⟩ := Option.bind_eq_some_iff.mp h
  unfold insert at hbucket
  rw [Array.getElem?_modify] at hbucket
  split at hbucket
  · obtain ⟨kept, hkept, rfl⟩ := Option.map_eq_some_iff.mp hbucket
    rw [List.lookup_cons] at ht
    split at ht
    · exact .inl (Option.some.inj ht).symm
    · exact .inr (Option.bind_eq_some_iff.mpr ⟨kept, hkept, ht⟩)
  · exact .inr (Option.bind_eq_some_iff.mpr ⟨bucket, hbucket, ht⟩)

/-! ## Sound environments after a change -/

namespace Environment.Sound

variable {env : Environment}

theorem current (h : env.Sound) : env.Created env.current := by
  refine h.active _ ?_
  rw [← env.current_cons_tail]
  exact List.mem_cons_self

/-- One scope may change if its parent and its base stay, and it binds what it bound before or what
was created. -/
theorem update (h : env.Sound) (s : ScopeId) (f : Scope → Scope)
    (hparent : ∀ scope, (f scope).parent = scope.parent)
    (hbase : ∀ scope, (f scope).frame.bind (·.base) = scope.frame.bind (·.base))
    (hown : ∀ n scope r, (f scope).own? n = some r →
      scope.own? n = some r ∨ r.value.Within env.Created) :
    Sound { env with scopes := env.scopes.update s f } := by
  have hcreated (t : ScopeId) (ht : env.Created t) :
      Created { env with scopes := env.scopes.update s f } t :=
    Nat.lt_of_lt_of_eq ht (Scopes.size_update f).symm
  refine ⟨h.ordered.update s hparent hbase, fun t ht => hcreated t (h.active t ht), fun hr => ?_⟩
  exact (Scopes.own?_update_within h.own (hown _) hr).mono hcreated

theorem bindIn (h : env.Sound) (s : ScopeId) (n : Name) {r : Reference}
    (hr : r.value.Within env.Created) : (env.bindIn s n r).Sound := by
  refine h.update s (·.bind n r) (fun _ => rfl) (fun _ => rfl) ?_
  intro k scope r' hr'
  rcases Scope.own?_bind_some hr' with rfl | hr'
  · exact .inr hr
  · exact .inl hr'

theorem define (h : env.Sound) (s : ScopeId) (n : Name) {r : Reference}
    (hr : r.value.Within env.Created) : (env.define s n r).Sound := by
  unfold Environment.define
  split
  · exact h
  · exact h.bindIn s n hr

theorem write (h : env.Sound) (s : ScopeId) (n : Name) {v : Value} (hv : v.Within env.Created) :
    (env.write s n v).Sound := by
  refine h.update s (·.write n v) (fun _ => rfl) (fun _ => rfl) ?_
  intro k scope r hr
  rcases Scope.own?_write_some hr with hr | hr
  · rw [hr]
    exact .inr hv
  · exact .inl hr

theorem withPayload (h : env.Sound) (s : ScopeId) (p : Payload) :
    Sound { env with scopes := env.scopes.update s (·.withPayload p) } :=
  h.update s (·.withPayload p) (fun _ => rfl) (fun _ => Scope.base_withPayload)
    fun _ _ _ hr => .inl hr

theorem created_create (scope : Scope) {s : ScopeId} (hs : env.Created s) :
    (env.create scope).2.Created s :=
  Nat.lt_of_lt_of_le hs (by
    show env.scopes.size ≤ (env.scopes.push scope).size
    rw [Array.size_push]
    exact Nat.le_succ _)

/-- A scope without names may be created inside one that was, with a base that was. -/
theorem create (h : env.Sound) {scope : Scope} (hnames : scope.bindings = [])
    (hparent : ∀ p, scope.parent = some p → env.Created p)
    (hbase : ∀ b, scope.frame.bind (·.base) = some b → env.Created b) :
    (env.create scope).2.Sound := by
  refine ⟨h.ordered.push hparent hbase, fun s hs => created_create scope (h.active s hs), ?_⟩
  intro s n r hr
  exact (h.own (Scopes.own?_push_of_nil hnames hr)).mono fun _ => created_create scope

theorem push (h : env.Sound) {s : ScopeId} (hs : env.Created s) : (env.push s).Sound := by
  refine ⟨h.ordered, fun t ht => ?_, h.own⟩
  rcases List.mem_cons.mp ht with rfl | ht
  · exact hs
  · exact h.active t ht

theorem pushChildOf (h : env.Sound) {parent : ScopeId} (hp : env.Created parent) :
    (env.pushChildOf parent).Sound := by
  have hcreate : (env.create (.inside parent)).2.Sound := by
    refine h.create rfl ?_ fun b hb => nomatch hb
    rintro p ⟨⟩
    exact hp
  refine hcreate.push ?_
  show env.scopes.size < (env.scopes.push (.inside parent)).size
  rw [Array.size_push]
  exact Nat.lt_succ_self _

theorem pop (h : env.Sound) : env.pop.Sound := by
  unfold Environment.pop
  split
  next s t rest hstack =>
    refine ⟨h.ordered, fun u hu => h.active u ?_, h.own⟩
    rw [hstack]
    exact List.mem_cons_of_mem _ hu
  · exact h

end Environment.Sound

/-! ## Sound states after a change -/

namespace Interpreter.Sound

variable {m m' : Interpreter}

/-- A change of the environment that keeps it sound keeps the state sound. -/
theorem onEnv (h : m.Sound) {f : Environment → Environment} (henv : (f m.env).Sound)
    (hsize : m.env.scopes.size ≤ (f m.env).scopes.size) : (m.onEnv f).Sound := by
  have hcreated (s : ScopeId) (hs : m.env.Created s) : (f m.env).Created s :=
    Nat.lt_of_lt_of_le hs hsize
  refine ⟨henv, ?_, ?_, h.tables.mono hcreated, ?_, h.linker⟩
  · exact fun hf => hcreated _ (h.function hf)
  · exact fun hc => hcreated _ (h.cls hc)
  · exact fun hw => hcreated _ (h.wrapper hw)

/-- A change of the store that keeps its tables within the scopes keeps the state sound. -/
theorem withStore (h : m.Sound) {store : Store} (hstore : store.tables.Within m.env.Created) :
    { m with store := store }.Sound :=
  ⟨h.env, h.function, h.cls, hstore, h.wrapper, h.linker⟩

theorem addFunction (h : m.Sound) {f : FunctionObject} (hf : m.env.Created f.scope) :
    (m.addFunction f).2.Sound := by
  refine ⟨h.env, fun hi => ?_, h.cls, h.tables, h.wrapper, h.linker⟩
  rcases getElem?_push_cases hi with hi | rfl
  · exact h.function hi
  · exact hf

theorem addClass (h : m.Sound) {c : ClassObject} (hc : m.env.Created c.scope) :
    (m.addClass c).2.Sound := by
  refine ⟨h.env, h.function, fun hi => ?_, h.tables, h.wrapper, h.linker⟩
  rcases getElem?_push_cases hi with hi | rfl
  · exact h.cls hi
  · exact hc

theorem keepWrapper (h : m.Sound) (p : Primitive) {s : ScopeId} (hs : m.env.Created s) :
    (m.keepWrapper p s).Sound := by
  refine ⟨h.env, h.function, h.cls, h.tables, fun hw => ?_, h.linker⟩
  rcases Wrappers.get?_insert hw with rfl | hw
  · exact hs
  · exact h.wrapper hw

/-- What the objects of a sound state hold was created. -/
theorem objects (h : m.Sound) : m.objects.Within m.env.Created where
  own hr := h.env.own hr
  parent hp := Nat.lt_trans (h.env.ordered.parent hp) (Scopes.created_of_parent hp)
  base hb := Nat.lt_trans (h.env.ordered.base hb) (Scopes.created_of_base hb)
  function hf := h.function hf
  cls hc := h.cls hc

/-- Every elementary change keeps a sound state sound. -/
theorem change (h : m.Sound) (hc : Change m.env.Created m m') : m'.Sound := by
  have hsize : m.env.scopes.size ≤ m'.env.scopes.size := (Evolves.change hc).scopes.size_le
  cases hc with
  | bind _ _ hr => exact h.onEnv (h.env.bindIn _ _ hr) hsize
  | write _ hv => exact h.onEnv (h.env.write _ _ hv) hsize
  | define _ hr => exact h.onEnv (h.env.define _ _ hr) hsize
  | function => exact h.addFunction h.env.current
  | cls => exact h.addClass h.env.current
  -- The new scope is inside the current one, and its base is one that was come to.
  | inst hb =>
      refine h.onEnv (f := fun env => (env.create _).2) (h.env.create rfl ?_ hb) hsize
      rintro p ⟨⟩
      exact h.env.current
  | state _ => exact h.onEnv (h.env.withPayload _ _) hsize
  -- What a native leaves in the store is within the scopes because the native is faithful.
  | native hf hcall =>
      exact h.withStore (h.linker.function hf _ _ hcall m.objects m.store h.objects h.tables).1
  | construct hc hs =>
      exact h.withStore (h.linker.cls hc _ _ hs m.objects m.store h.objects h.tables).1
  | list hitems => exact h.withStore (h.tables.alloc hitems)
  | wrapper hs => exact h.keepWrapper _ hs

theorem enter (h : m.Sound) {f : Environment → Environment} (he : Enters m.env.Created f) :
    (m.onEnv f).Sound := by
  have hsize : m.env.scopes.size ≤ (f m.env).scopes.size := (Evolves.enter he m).scopes.size_le
  cases he with
  | child => exact h.onEnv (h.env.pushChildOf h.env.current) hsize
  | childOf hs => exact h.onEnv (h.env.pushChildOf hs) hsize
  | scope hs => exact h.onEnv (h.env.push hs) hsize

theorem leave (h : m.Sound) : (m.onEnv .pop).Sound :=
  h.onEnv h.env.pop (Evolves.leave m).scopes.size_le

end Interpreter.Sound

/-! ## Evaluations -/

/-- Sound states stay sound, and evolve. -/
def StateDiscipline.sound : StateDiscipline where
  Good := Interpreter.Sound
  Later := Interpreter.Evolves
  Has s m := m.env.Created s
  later_refl := .refl
  has_later h hs := Nat.lt_of_lt_of_le hs h.scopes.size_le
  change_keeps h hc := ⟨h.change hc, .change hc⟩
  has_created {m s} _ := by
    show m.env.scopes.size < (m.env.scopes.push s).size
    rw [Array.size_push]
    exact Nat.lt_succ_self _
  has_wrapper h hw := h.wrapper hw
  objects_within h := h.objects
  tables_within h := h.tables
  native_within h hf hcall hv :=
    (h.linker.function hf _ _ hcall _ _ h.objects h.tables).2 _ hv
  later_trans := .trans
  enter_keeps h he := ⟨h.enter he, .enter he _⟩
  leave_keeps h := ⟨h.leave, .leave _⟩

/-- Performing a request leaves a sound state sound. -/
theorem Request.sound (n : Nat) (r : Request) {m : Interpreter} (hm : m.Sound)
    (hr : r.Within m.env.Created) : (r.perform (evaluator n) m).Leaves Interpreter.Sound := by
  have hev : StateDiscipline.sound.logic.Evaluates (evaluator n) := Logic.evaluates _ n
  have hkeeps : StateDiscipline.sound.Keeps m (fun _ _ => True) (r.perform (evaluator n) m) :=
    Logic.performs hev r hm hr
  exact hkeeps.mono (fun _ _ h => h.1) fun _ _ h => h.1

end IslandScript
