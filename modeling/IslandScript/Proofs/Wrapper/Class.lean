import IslandScript.Proofs.Link.Sole
import IslandScript.Proofs.Move.History
import IslandScript.Proofs.Wrapper.Instance

/-!
# Wrapper classes of a state

`Interpreter.Ready` says that the prelude of the core link was run and that no other link is on offer:
the global scope has the wrapper classes, as the prelude declares them. This lasts, whatever is done
(`Ready.later`), and while the core link is imported a wrapper class can be instantiated.
-/

namespace IslandScript

/-! ## Names that are known -/

namespace Interner

variable {i : Interner} {n k : Name} {text : String}

theorem getElem?_of_text (h : i.text n = text) (htext : text ≠ "") :
    i.texts[n.index]? = some text := by
  unfold Interner.text at h
  cases hget : i.texts[n.index]? with
  | none =>
      rw [hget] at h
      exact absurd h.symm htext
  | some other =>
      rw [hget] at h
      exact congrArg some h

theorem get?_of_text (h : i.text n = text) (htext : text ≠ "") : i.get? text = some n :=
  get?_eq_some_iff.mpr (getElem?_of_text h htext)

/-- Names of one text are the same. -/
theorem text_inj (hn : i.text n = text) (hk : i.text k = text) (htext : text ≠ "") : n = k :=
  Option.some.inj ((get?_of_text hn htext).symm.trans (get?_of_text hk htext))

end Interner

/-! ## The global scope -/

/-- What a scope binds to a constant it has bound to it before, if to anything. -/
theorem Interpreter.Evolves.constant_before {m m' : Interpreter} {s : ScopeId} {n : Name}
    {r : Reference} {v : Value} (h : m.Evolves m') (hr : m.env.scopes.own? s n = some r)
    (hv : m'.env.scopes.own? s n = some (.constant v)) : r.value = v := by
  obtain ⟨r', hr', hevolves⟩ := (h.scopes.get s (Scopes.created_of_own hr)).own n r hr
  obtain rfl : r' = .constant v := Option.some.inj (hr'.symm.trans hv)
  exact (hevolves.value hevolves.kind.symm).symm

/-- A scope is inside no other, and no instance. -/
structure Scopes.Outermost (g : Scopes) (s : ScopeId) : Prop where
  parent : (g.get s).parent = none
  frame : (g.get s).frame = none

theorem Scopes.Evolves.outermost {g g' : Scopes} {s : ScopeId} (h : g.Evolves g')
    (hlt : s.index < g.size) (hs : g.Outermost s) : g'.Outermost s where
  parent := (h.get s hlt).parent.trans hs.parent
  frame := by
    have hcls := (h.get s hlt).cls
    rw [hs.frame] at hcls
    exact Option.map_eq_none_iff.mp hcls

/-- What is outermost was so before. -/
theorem Scopes.Evolves.outermost_before {g g' : Scopes} {s : ScopeId} (h : g.Evolves g')
    (hs : g'.Outermost s) : g.Outermost s := by
  by_cases hlt : s.index < g.size
  · refine ⟨(h.get s hlt).parent.symm.trans hs.parent, ?_⟩
    have hcls := (h.get s hlt).cls
    rw [hs.frame] at hcls
    exact Option.map_eq_none_iff.mp hcls.symm
  · have hget := Scopes.get_of_size_le (Nat.le_of_not_lt hlt)
    exact ⟨by rw [hget]; rfl, by rw [hget]; rfl⟩

/-- The members of a scope that is no instance are its own names. -/
theorem Scopes.memberHolder?_of_frame {g : Scopes} {s : ScopeId} (h : (g.get s).frame = none)
    (n : Name) : g.memberHolder? s n = if (g.own? s n).isSome then some s else none := by
  unfold memberHolder? memberHolderWithin base?
  rw [h]
  rfl

theorem Scopes.Outermost.holderWithin {g : Scopes} {s : ScopeId} (h : g.Outermost s) (n : Name)
    (steps : Nat) : g.holderWithin n (steps + 1) s = if (g.own? s n).isSome then some s else none := by
  unfold Scopes.holderWithin
  rw [memberHolder?_of_frame h.frame, h.parent]
  cases g.own? s n <;> rfl

/-- Inside the global scope one sees what it binds. -/
theorem Environment.lookup?_inside {env : Environment} (h : env.scopes.Outermost global) (n : Name) :
    (env.pushChildOf global).lookup? n = (env.scopes.own? global n).map (·.value) := by
  have hinside : Scopes.get (env.scopes.push (.inside global)) ⟨env.scopes.size⟩ = .inside global :=
    Scopes.get_push_size
  have hholder : Scopes.holder? (env.scopes.push (.inside global)) ⟨env.scopes.size⟩ n =
      Scopes.holderWithin (env.scopes.push (.inside global)) n (env.scopes.size + 1) global := by
    unfold Scopes.holder?
    rw [Scopes.holderWithin, Scopes.memberHolder?_of_frame (by rw [hinside]; rfl), Scopes.own?,
      hinside, Array.size_push]
    rfl
  show Scopes.lookup? (env.scopes.push (.inside global)) ⟨env.scopes.size⟩ n = _
  unfold Scopes.lookup?
  rw [hholder]
  by_cases hlt : global.index < env.scopes.size
  · have hglobal : Scopes.get (env.scopes.push (.inside global)) global =
        env.scopes.get global := Scopes.get_push_of_lt hlt
    have houtermost : Scopes.Outermost (env.scopes.push (.inside global)) global :=
      ⟨by rw [hglobal, h.parent], by rw [hglobal, h.frame]⟩
    have hown : Scopes.own? (env.scopes.push (.inside global)) global n =
        env.scopes.own? global n := by
      unfold Scopes.own?
      rw [hglobal]
    rw [houtermost.holderWithin, hown]
    cases hget : env.scopes.own? global n with
    | none => rfl
    | some r => simp [hown, hget]
  · have hempty : env.scopes = #[] :=
      Array.size_eq_zero_iff.mp (Nat.le_zero.mp (Nat.le_of_not_lt hlt))
    rw [hempty]
    rfl

/-! ## Classes of the prelude -/

namespace Interpreter

variable {m m' before : Interpreter} {cls : String} {members : List String} {n : Name}
variable {id : ClassId} {c : ClassObject}

/-- The global scope has a wrapper class, as the prelude declares it. -/
structure HasClass (m : Interpreter) (cls : String) (members : List String) (n : Name)
    (id : ClassId) (c : ClassObject) : Prop where
  name : m.interner.Stands n cls
  own : m.env.scopes.own? Environment.global n = some (.constant (.cls id))
  object : m.classes[id.index]? = some c
  title : c.name = cls
  scope : c.scope = Environment.global
  native : c.native = none
  decl : ∀ j, m.interner.Grows j → Class.IsWrapper j.text cls members c.decl

/-- The prelude of the core link was run, and no other link is on offer. -/
structure Ready (m : Interpreter) : Prop where
  names : m.interner.Reachable
  linker : m.linker.Sole
  outermost : m.env.scopes.Outermost Environment.global
  classes : ∀ p ∈ Core.wrapperClasses, ∃ n id c, m.HasClass p.1 p.2 n id c

/-- What may become of a state, as far as instances of classes without native state are concerned. -/
structure Later (m m' : Interpreter) : Prop where
  evolves : m.Evolves m'
  names : m.interner.Grows m'.interner
  natives : m.linker.Keeps m'.linker
  frame : ∀ s id c, m.InstanceOf s id → m.classes[id.index]? = some c → c.native = none →
    (m'.env.scopes.get s).frame = (m.env.scopes.get s).frame

theorem HasClass.later (h : m.HasClass cls members n id c) (hm : m.Later m') :
    m'.HasClass cls members n id c where
  name := h.name.grow hm.names
  own := hm.evolves.own_constant h.own
  object := hm.evolves.classes _ _ h.object
  title := h.title
  scope := h.scope
  native := h.native
  decl j hj := h.decl j (hm.names.trans hj)

theorem HasClass.wrapperObject (h : m.HasClass cls members n id c) :
    Eval.WrapperObject m.text cls members c :=
  ⟨h.native, h.decl _ .refl⟩

/-- What a later state has as a constant of the global scope is seen inside it, if anything is. -/
theorem HasClass.sees {ok : Prop} (h : m.HasClass cls members n id c)
    (houtermost : m.env.scopes.Outermost Environment.global) (hevolves : before.Evolves m)
    (hok : ok → before = m) :
    Eval.SeesClass ok (before.onEnv (·.pushChildOf Environment.global)) n id c := by
  have hlookup := Environment.lookup?_inside (hevolves.scopes.outermost_before houtermost) n
  refine ⟨fun v hv => ?_, fun c' hc' => ?_, fun hcond => ?_⟩
  · obtain ⟨r, hr, rfl⟩ := Option.map_eq_some_iff.mp (hlookup.symm.trans hv)
    exact hevolves.constant_before hr h.own
  · exact Option.some.inj ((hevolves.classes _ _ hc').symm.trans h.object)
  · obtain rfl := hok hcond
    exact ⟨hlookup.trans (by rw [h.own]; rfl), h.object⟩

/-- The members of a wrapper class can be linked while the core link is imported. -/
theorem Ready.linkable {ok : Prop} (h : m.Ready) (hmem : (cls, members) ∈ Core.wrapperClasses)
    (hok : ok → m.linker.isImported Core.name = true) : Eval.Linkable ok m.linker cls members := by
  obtain ⟨-, hnodup, hmembers⟩ := Core.wrapperClasses_linked _ hmem
  exact ⟨hnodup, fun member hmember => (hmembers member hmember).2.1, fun hcond member hmember =>
    h.linker.function_isOk (hok hcond) (hmembers member hmember).2.2⟩

/-- A wrapper class is instantiated, if the core link is imported, and no wrapper is kept meanwhile:
this also holds of what was done before. -/
theorem Ready.does_instantiate {bound : Nat} {primitive : Option Primitive} {span : Span}
    (hready : m.Ready) (hmem : (cls, members) ∈ Core.wrapperClasses) (hcls : cls ≠ "Any")
    (h : m.HasClass cls members n id c) (hevolves : before.Evolves m)
    (hinterner : m.interner = before.interner) (hlinker : m.linker = before.linker) :
    Eval.Does (1 < bound ∧ m.linker.isImported Core.name = true ∧ before = m)
      (fun _ m' => before.Steady m')
      (Eval.instantiate (Eval.evaluator bound) id c [] primitive span before) := by
  have hany : ("Any", ["className"]) ∈ Core.wrapperClasses := List.mem_cons_self
  obtain ⟨nAny, idAny, cAny, hasAny⟩ := hready.classes _ hany
  have htext : before.text = m.text := text_eq hinterner.symm
  refine Eval.does_instantiate (fun hok => Nat.lt_of_succ_lt hok.1) (htext ▸ h.wrapperObject)
    (hlinker ▸ hready.linkable hmem fun hok => hok.2.1) ?_
  have hbase := (h.decl _ .refl).base
  unfold BasedOnAny at hbase
  rw [if_neg hcls] at hbase
  obtain ⟨callSpan, nameSpan, k, hbase, hk⟩ := hbase
  obtain rfl : k = nAny := Interner.text_inj hk hasAny.name.text_eq (by decide)
  rw [hbase, h.scope]
  refine (Eval.does_baseInstance (fun hok => hok.1)
    (hasAny.sees hready.outermost hevolves fun hok => hok.2.2) (htext ▸ hasAny.wrapperObject)
    (hlinker ▸ hready.linkable hany fun hok => hok.2.1)).imp
    fun _ _ hsteady => ⟨hsteady.interner, hsteady.store, hsteady.linker, hsteady.wrappers⟩

end Interpreter
end IslandScript
