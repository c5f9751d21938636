import IslandScript.Proofs.Link.Prelude
import IslandScript.Proofs.Move.Evaluator

/-!
# Instances of wrapper classes

What a wrapper class does when it is instantiated can be told beforehand: its instance of `Any` is
made, and then its members are linked, each under a name that is free. `Eval.Does` says that this
gives an instance, unless something that it takes is missing, and that nothing is done besides: no
name is interned, no list made or changed, no link imported, and no wrapper kept.
-/

namespace IslandScript

/-! ## What is done -/

/-- The names, the store, the links and the wrappers are as they were. -/
structure Interpreter.Steady (m m' : Interpreter) : Prop where
  interner : m'.interner = m.interner
  store : m'.store = m.store
  linker : m'.linker = m.linker
  wrappers : m'.wrappers = m.wrappers

theorem Interpreter.Steady.refl (m : Interpreter) : m.Steady m := ⟨rfl, rfl, rfl, rfl⟩

theorem Interpreter.Steady.trans {m m' m'' : Interpreter} (h : m.Steady m') (h' : m'.Steady m'') :
    m.Steady m'' :=
  ⟨h'.interner.trans h.interner, h'.store.trans h.store, h'.linker.trans h.linker,
    h'.wrappers.trans h.wrappers⟩

namespace Eval

variable {α β : Type} {ok : Prop} {m m' : Interpreter} {x : Eval α} {f : α → Eval β}
variable {Q Q' : α → Interpreter → Prop} {R : β → Interpreter → Prop}

/-- An outcome gives what fulfils a condition, unless something that it takes is missing. -/
def Does (ok : Prop) (Q : α → Interpreter → Prop) : Outcome α → Prop
  | .done a m => Q a m
  | _ => ¬ok

theorem Does.of_done {o : Outcome α} {a : α} (h : Does ok Q o) (ho : o = .done a m) : Q a m := by
  subst ho
  exact h

theorem Does.exists_done {o : Outcome α} (h : Does ok Q o) (hok : ok) :
    ∃ a m, o = .done a m ∧ Q a m := by
  cases o with
  | done a m => exact ⟨a, m, rfl, h⟩
  | raised => exact (h hok).elim
  | unfinished => exact (h hok).elim

theorem Does.imp {o : Outcome α} (h : Does ok Q o) (hQ : ∀ a m, Q a m → Q' a m) : Does ok Q' o := by
  cases o with
  | done a m => exact hQ a m h
  | raised => exact h
  | unfinished => exact h

theorem Does.bind (hx : Does ok Q (x m)) (hf : ∀ a m', Q a m' → Does ok R (f a m')) :
    Does ok R ((x >>= f) m) := by
  rw [bind_apply]
  cases h : x m with
  | done a m' => exact hf a m' (hx.of_done h)
  | raised =>
      rw [h] at hx
      exact hx
  | unfinished =>
      rw [h] at hx
      exact hx

theorem Does.bind_of_done {a : α} {n : Interpreter} (hx : x m = .done a n)
    (hf : Does ok R (f a n)) : Does ok R ((x >>= f) m) := by
  rwa [bind_done hx]

theorem Does.within {enter : Environment → Environment}
    (h : Does ok (fun a m' => Q a (m'.onEnv .pop)) (x (m.onEnv enter))) :
    Does ok Q (within enter x m) := by
  unfold Eval.within
  cases hx : x (m.onEnv enter) with
  | done a m' => exact h.of_done hx
  | raised =>
      rw [hx] at h
      exact h
  | unfinished =>
      rw [hx] at h
      exact h

/-- An initializer is done, and then the rest of them. -/
theorem Does.initializer {ev : Evaluator} {stmt : Stmt Name} {rest : List (Stmt Name)}
    {Q R : Unit → Interpreter → Prop} (h : Does ok Q (ev.stmt stmt m))
    (hrest : ∀ m', Q () m' → Does ok R (runInitializers ev rest m')) :
    Does ok R (runInitializers ev (stmt :: rest) m) := by
  rw [runInitializers, bind_apply]
  unfold attempt
  cases hs : ev.stmt stmt m with
  | done _ m' => exact hrest m' (h.of_done hs)
  | raised signal m' =>
      rw [hs] at h
      cases signal <;> exact h
  | unfinished =>
      rw [hs] at h
      exact h

end Eval

/-! ## Members are linked -/

namespace Eval

variable {ok : Prop} {m : Interpreter} {cls : String} {members : List String}
variable {init : List (Stmt Name)} {bound : Nat} {span : Span}

/-- The members of a class can be linked: their names differ, and where nothing is missing each is
registered. -/
structure Linkable (ok : Prop) (l : Linker) (cls : String) (members : List String) : Prop where
  nodup : members.Nodup
  named : ∀ member ∈ members, member ≠ discarded
  registered : ok → ∀ member ∈ members, ∃ id, l.function (cls ++ "." ++ member) = .ok id

theorem Linkable.tail {l : Linker} {member : String} (h : Linkable ok l cls (member :: members)) :
    Linkable ok l cls members :=
  ⟨h.nodup.of_cons, fun other hother => h.named other (List.mem_cons_of_mem _ hother),
    fun hok other hother => h.registered hok other (List.mem_cons_of_mem _ hother)⟩

/-- A linked function that can be declared is bound in the current scope. -/
theorem does_function {decl : Function Name} {n : Name} (hok : ok → 0 < bound)
    (hlinked : decl.linked) (hname : decl.name = some n) (htext : m.text n ≠ discarded)
    (hregistered : ok → ∃ id, m.linker.function decl.path = .ok id) (hfree : m.env.own? n = none) :
    Does ok (fun _ m' => m.Steady m' ∧ ∃ r, m'.env = m.env.bindIn m.env.current n r)
      ((evaluator bound).stmt (.function span decl) m) := by
  cases bound with
  | zero => exact fun h => absurd (hok h) (Nat.lt_irrefl 0)
  | succ bound =>
      show Does ok _ (atLevel bound (declareFunction decl span) m)
      rw [Logic.atLevel_eq, declareFunction_linked m hlinked hname]
      split
      next id hid =>
        generalize hm₁ : (m.addFunction ⟨m.text n, decl, m.env.current, some id⟩).2 = m₁
        have htext₁ : m₁.text n ≠ discarded := hm₁ ▸ htext
        have hfree₁ : m₁.env.own? n = none := hm₁ ▸ hfree
        rw [bind_free htext₁ hfree₁]
        subst hm₁
        exact ⟨⟨rfl, rfl, rfl, rfl⟩, _, rfl⟩
      next kind hkind =>
        intro h
        obtain ⟨id, hid⟩ := hregistered h
        cases hkind.symm.trans hid

/-- Where their names are free, the members of a class are linked. -/
theorem does_runInitializers (hok : ok → 0 < bound)
    (hinit : List.Forall₂ (Stmt.LinksMember m.text cls) members init)
    (hlinkable : Linkable ok m.linker cls members)
    (hfree : ∀ n, m.text n ∈ members → m.env.own? n = none)
    (hlt : m.env.current.index < m.env.scopes.size) :
    Does ok (fun _ m' => m.Steady m') (runInitializers (evaluator bound) init m) := by
  generalize htext : m.text = text at hinit
  induction hinit generalizing m with
  | nil => exact .refl m
  | @cons member s members init hs hrest ih =>
      subst htext
      obtain ⟨span, decl, n, rfl, hlinked, hname, hn, hpath, -⟩ := hs
      have hmember : member ∈ member :: members := List.mem_cons_self
      refine Does.initializer (does_function hok hlinked hname
        (hn ▸ hlinkable.named member hmember) (fun h => hpath ▸ hlinkable.registered h member hmember)
        (hfree n (hn ▸ hmember))) ?_
      rintro m' ⟨hsteady, r, henv⟩
      have htext' : m'.text = m.text := Interpreter.text_eq hsteady.interner
      refine (ih (m := m') (hsteady.linker ▸ hlinkable.tail) ?_ ?_ htext').imp
        fun _ _ => hsteady.trans
      · intro k hk
        rw [htext'] at hk
        -- members that are still to be linked have other names
        have hne : k ≠ n := by
          rintro rfl
          exact (List.nodup_cons.mp hlinkable.nodup).1 (hn ▸ hk)
        unfold Environment.own? Scopes.own?
        rw [henv]
        show (Scopes.get (m.env.scopes.update m.env.current (·.bind n r)) m.env.current).own? k = none
        rw [Scopes.get_update_self hlt, Scope.own?_bind_of_ne hne]
        exact hfree k (List.mem_cons_of_mem _ hk)
      · rw [henv]
        exact Nat.lt_of_lt_of_eq hlt (Scopes.size_update _).symm

/-! ## Instances are made -/

/-- What a class object of a wrapper class is. -/
structure WrapperObject (text : Name → String) (cls : String) (members : List String)
    (c : ClassObject) : Prop where
  native : c.native = none
  decl : Class.IsWrapper text cls members c.decl

/-- A new instance of a wrapper class is filled. -/
theorem does_fillInstance {c : ClassObject} {paramScope s : ScopeId} (hok : ok → 0 < bound)
    (hc : WrapperObject m.text cls members c) (hlinkable : Linkable ok m.linker cls members)
    (hnew : (m.env.scopes.get s).bindings = []) (hlt : s.index < m.env.scopes.size) :
    Does ok (fun _ m' => m.Steady m') (fillInstance (evaluator bound) c paramScope s span m) := by
  refine Does.within ?_
  rw [hc.decl.params]
  refine Does.bind_of_done (a := ()) (n := m.onEnv (·.push s)) rfl ?_
  refine Does.bind_of_done (a := ()) (n := m.onEnv (·.push s)) ?_ ?_
  · unfold nativePart
    rw [hc.native]
    rfl
  · refine Does.imp (does_runInitializers (m := m.onEnv (·.push s)) hok hc.decl.init hlinkable
      (fun n _ => ?_) hlt) fun _ _ h => ⟨h.interner, h.store, h.linker, h.wrappers⟩
    show (m.env.scopes.get s).bindings.lookup n = none
    rw [hnew]
    rfl

/-- Where its base is done, an instance of a wrapper class is. -/
theorem does_instantiate {id : ClassId} {c : ClassObject} {primitive : Option Primitive}
    (hok : ok → 0 < bound) (hc : WrapperObject m.text cls members c)
    (hlinkable : Linkable ok m.linker cls members)
    (hbase : Does ok (fun _ m' => m.Steady m')
      (baseInstance (evaluator bound) c.decl.base (m.onEnv (·.pushChildOf c.scope)))) :
    Does ok (fun _ m' => m.Steady m')
      (instantiate (evaluator bound) id c [] primitive span m) := by
  have hconstruct : Does ok (fun _ m' => m.Steady m')
      (inChildOf c.scope (construct (evaluator bound) id c [] primitive span) m) := by
    refine Does.within ?_
    unfold construct
    rw [hc.decl.params]
    refine Does.bind_of_done (a := ()) (n := m.onEnv (·.pushChildOf c.scope)) rfl ?_
    refine Does.bind_of_done (n := m.onEnv (·.pushChildOf c.scope)) rfl ?_
    refine Does.bind hbase fun base m₁ hsteady => ?_
    refine Does.bind_of_done (n := m₁) rfl ?_
    generalize (primitive.map Payload.primitive).or _ = payload
    refine Does.bind_of_done (a := ⟨m₁.env.scopes.size⟩) (n := { m₁ with
      env := (m₁.env.create ⟨[], some m₁.env.current, some ⟨id, base, payload⟩⟩).2 }) rfl ?_
    have htext : m₁.text = m.text := Interpreter.text_eq hsteady.interner
    have hc₁ : WrapperObject m₁.text cls members c := ⟨hc.native, htext.symm ▸ hc.decl⟩
    refine Does.bind (does_fillInstance hok hc₁ (hsteady.linker.symm ▸ hlinkable) ?_ ?_)
      fun _ m₂ hfilled => ?_
    · exact congrArg Scope.bindings Scopes.get_push_size
    · exact Nat.lt_of_lt_of_eq (Nat.lt_succ_self _) (Array.size_push _).symm
    · have := hsteady.trans ⟨hfilled.interner, hfilled.store, hfilled.linker, hfilled.wrappers⟩
      exact ⟨this.interner, this.store, this.linker, this.wrappers⟩
  refine Does.bind hconstruct fun made m₁ hsteady => ?_
  refine Does.bind_of_done (a := ()) rfl ?_
  refine Does.bind (Q := fun _ m' => m.Steady m') ?_ fun _ _ h => h
  cases made.2 with
  | none => exact ⟨hsteady.interner, hsteady.store, hsteady.linker, hsteady.wrappers⟩
  | some b => exact ⟨hsteady.interner, hsteady.store, hsteady.linker, hsteady.wrappers⟩

/-- The name of a class, if it is seen, stands for it, and so does the place of the class. -/
structure SeesClass (ok : Prop) (m : Interpreter) (n : Name) (id : ClassId) (c : ClassObject) :
    Prop where
  value : ∀ v, m.env.lookup? n = some v → v = .cls id
  object : ∀ c', m.classes[id.index]? = some c' → c' = c
  there : ok → m.env.lookup? n = some (.cls id) ∧ m.classes[id.index]? = some c

/-- The class that wrapper classes are based on gives an instance. -/
theorem does_invokeClass {id : ClassId} {c : ClassObject} {n : Name} (hok : ok → 0 < bound)
    (hsees : SeesClass ok m n id c) (hc : WrapperObject m.text "Any" members c)
    (hlinkable : Linkable ok m.linker "Any" members) :
    Does ok (fun _ m' => m.Steady m') (invokeClass (evaluator bound) id [] span m) := by
  refine Does.bind_of_done (n := m) rfl ?_
  dsimp only
  cases hget : m.classes[id.index]? with
  | none =>
      intro h
      cases hget.symm.trans (hsees.there h).2
  | some c' =>
      obtain rfl := hsees.object c' hget
      refine Does.bind_of_done (a := []) (n := m) ?_ ?_
      · unfold arguments
        rw [hc.decl.params]
        rfl
      · refine does_instantiate hok hc hlinkable ?_
        rw [show c'.decl.base = none from hc.decl.base]
        exact ⟨rfl, rfl, rfl, rfl⟩

theorem does_name {id : ClassId} {c : ClassObject} {n : Name} (hok : ok → 0 < bound)
    (hsees : SeesClass ok m n id c) :
    Does ok (fun v m' => v = .cls id ∧ m' = m) ((evaluator bound).expr (.name span n) m) := by
  cases bound with
  | zero => exact fun h => absurd (hok h) (Nat.lt_irrefl 0)
  | succ bound =>
      show Does ok _ (atLevel bound (exprStep (evaluator bound) (.name span n)) m)
      rw [Logic.atLevel_eq]
      show Does ok _ (nameValue n span m)
      unfold nameValue
      split
      next v hv => exact ⟨hsees.value v hv, rfl⟩
      next hnone =>
        intro h
        cases hnone.symm.trans (hsees.there h).1

/-- The base of a wrapper class is done where the class `Any` is seen. -/
theorem does_baseInstance {id : ClassId} {c : ClassObject} {n : Name} {callSpan nameSpan : Span}
    (hok : ok → 1 < bound) (hsees : SeesClass ok m n id c)
    (hc : WrapperObject m.text "Any" members c) (hlinkable : Linkable ok m.linker "Any" members) :
    Does ok (fun _ m' => m.Steady m') (baseInstance (evaluator bound)
      (some (.invoke callSpan (.name nameSpan n) [])) m) := by
  have hcall : Does ok (fun v m' => (∃ s, v = .inst s) ∧ m.Steady m')
      ((evaluator bound).expr (.invoke callSpan (.name nameSpan n) []) m) := by
    cases bound with
    | zero => exact fun h => absurd (hok h) (by decide)
    | succ bound =>
        show Does ok _ (atLevel bound (exprStep (evaluator bound) _) m)
        rw [Logic.atLevel_eq]
        show Does ok _ (invoke (evaluator bound) callSpan (.name nameSpan n) [] m)
        refine Does.bind (Q := fun called m' => called.1 = .cls id ∧ m' = m) ?_ ?_
        · refine Does.bind (does_name (fun h => Nat.lt_of_succ_lt_succ (hok h)) hsees) ?_
          rintro v _ ⟨rfl, rfl⟩
          exact ⟨rfl, rfl⟩
        · rintro ⟨v, owner⟩ _ ⟨hv, rfl⟩
          cases hv
          refine Does.bind (does_invokeClass (fun h => Nat.lt_of_succ_lt_succ (hok h)) hsees hc
            hlinkable) fun s m' hsteady => ?_
          exact ⟨⟨s, rfl⟩, hsteady⟩
  refine Does.bind hcall ?_
  rintro _ m' ⟨⟨s, rfl⟩, hsteady⟩
  exact hsteady

end Eval
end IslandScript
