import IslandScript.Proofs.Scope.Reachable
import IslandScript.Proofs.Wrapper.Class

/-!
# Wrappers that are kept

Where the prelude of the core link was run, what is kept for a primitive wraps it: an instance of the
class of the prelude for its kind, which stands for the primitive and has the members that the class
links (`Interpreter.Wrapper`). An instance that was made is never another one's place: only one is kept
for a primitive until links are closed.
-/

namespace IslandScript

variable {m m' : Interpreter} {p q : Primitive} {s t : ScopeId}

/-! ## Places for primitives -/

theorem Primitive.bucket_lt (p : Primitive) : p.bucket < bucketCount := by
  cases p with
  | bool b => cases b <;> decide
  | number n => exact Nat.mod_lt _ (by decide)
  | string text =>
      show List.foldl _ 0 text.toList < bucketCount
      induction text.toList using List.reverseRecOn with
      | nil => decide
      | append_singleton cs c _ =>
          rw [List.foldl_append]
          exact Nat.mod_lt _ (by decide)
  | list t => exact Nat.mod_lt _ (by decide)

theorem Primitive.className_mem (p : Primitive) :
    ∃ members, (p.className, members) ∈ Core.wrapperClasses := by
  cases p <;> simp [className, Core.wrapperClasses]

theorem Primitive.className_ne (p : Primitive) : p.className ≠ "Any" ∧ p.className ≠ "" := by
  cases p <;> simp [className]

/-- There is a bucket for every primitive. -/
def Wrappers.Whole (w : Wrappers) : Prop := w.buckets.size = bucketCount

theorem Wrappers.whole_empty : Wrappers.empty.Whole := Array.size_replicate

theorem Wrappers.Whole.insert {w : Wrappers} (h : w.Whole) (p : Primitive) (s : ScopeId) :
    (w.insert p s).Whole :=
  Array.size_modify.trans h

theorem Wrappers.Whole.get?_insert {w : Wrappers} (h : w.Whole) :
    (w.insert p s).get? q = if q = p then some s else w.get? q := by
  unfold Wrappers.get? Wrappers.insert
  rw [Array.getElem?_modify]
  have hlt : q.bucket < w.buckets.size := h.symm ▸ q.bucket_lt
  by_cases hq : q = p
  · subst hq
    rw [if_pos rfl, if_pos rfl, Array.getElem?_eq_getElem hlt]
    simp
  · rw [if_neg hq]
    split
    · rw [Array.getElem?_eq_getElem hlt]
      simp [List.lookup_cons, beq_false_of_ne hq]
    · rfl

/-- An instance is kept for a primitive. -/
def Wrappers.Keeps (w : Wrappers) (p : Primitive) (s : ScopeId) : Prop :=
  ∃ bucket ∈ w.buckets, (p, s) ∈ bucket

theorem Wrappers.not_keeps_empty : ¬Wrappers.empty.Keeps p s := by
  rintro ⟨bucket, hbucket, hmem⟩
  obtain rfl := (Array.mem_replicate.mp hbucket).2
  cases hmem

theorem Wrappers.keeps_of_insert {w : Wrappers} (h : (w.insert q t).Keeps p s) :
    (p = q ∧ s = t) ∨ w.Keeps p s := by
  obtain ⟨bucket, hbucket, hmem⟩ := h
  obtain ⟨i, hi, rfl⟩ := Array.mem_iff_getElem.mp hbucket
  have hlt : i < w.buckets.size := Nat.lt_of_lt_of_eq hi Array.size_modify
  simp only [insert, Array.getElem_modify] at hmem
  split at hmem
  · rcases List.mem_cons.mp hmem with heq | hmem
    · cases heq
      exact .inl ⟨rfl, rfl⟩
    · exact .inr ⟨_, Array.getElem_mem hlt, hmem⟩
  · exact .inr ⟨_, Array.getElem_mem hlt, hmem⟩

/-! ## Wrappers -/

theorem exists_of_forall₂ {α β : Type} {R : α → β → Prop} {as : List α} {bs : List β} {a : α}
    (h : List.Forall₂ R as bs) (ha : a ∈ as) : ∃ b ∈ bs, R a b := by
  induction h with
  | nil => cases ha
  | @cons a' b as bs hab _ ih =>
      rcases List.mem_cons.mp ha with rfl | ha
      · exact ⟨b, List.mem_cons_self, hab⟩
      · obtain ⟨b', hb', h⟩ := ih ha
        exact ⟨b', List.mem_cons_of_mem _ hb', h⟩

namespace Interpreter

/-- An instance has a member that a class of the prelude links: the native of the core link. -/
def HasMember (m : Interpreter) (s : ScopeId) (cls member : String) : Prop :=
  ∃ n f fn id g, m.interner.Stands n member ∧
    m.env.scopes.own? s n = some (.constant (.function f)) ∧ m.functions[f.index]? = some fn ∧
    fn.native = some id ∧ fn.decl.path = cls ++ "." ++ member ∧
    fn.decl.params.length = g.arity ∧ m.linker.nativeFunction? id = some g ∧
    Core.link.functions.lookup (cls ++ "." ++ member) = some g

/-- A scope wraps a primitive. -/
inductive Wrapper (m : Interpreter) (p : Primitive) (s : ScopeId) : Prop
  | mk {members : List String} {n : Name} {id : ClassId} {c : ClassObject}
      (hmem : (p.className, members) ∈ Core.wrapperClasses)
      (hclass : m.HasClass p.className members n id c) (hinst : m.InstanceOf s id)
      (hpayload : m.objects.payload? s = some (.primitive p))
      (hmembers : ∀ member ∈ members, m.HasMember s p.className member)

theorem HasMember.later {cls member : String} (h : m.HasMember s cls member) (hm : m.Later m') :
    m'.HasMember s cls member := by
  obtain ⟨n, f, fn, id, g, hn, hown, hf, hid, hpath, harity, hg, hlookup⟩ := h
  exact ⟨n, f, fn, id, g, hn.grow hm.names, hm.evolves.own_constant hown,
    hm.evolves.functions _ _ hf, hid, hpath, harity, hm.natives id g hg, hlookup⟩

theorem Wrapper.later (h : m.Wrapper p s) (hm : m.Later m') : m'.Wrapper p s := by
  obtain ⟨hmem, hclass, hinst, hpayload, hmembers⟩ := h
  refine ⟨hmem, hclass.later hm, hm.evolves.instanceOf hinst, ?_,
    fun member hmember => (hmembers member hmember).later hm⟩
  rw [← hpayload]
  exact congrArg (·.bind (·.payload)) (hm.frame s _ _ hinst hclass.object hclass.native)

/-- The class that is found for a primitive is the one that a later state has for it. -/
theorem HasClass.wrapperClass?_eq {before : Interpreter} {members : List String} {n : Name}
    {id id' : ClassId} {c : ClassObject} (h : m.HasClass p.className members n id c)
    (hevolves : before.Evolves m) (hinterner : m.interner = before.interner) (hid : Eval.wrapperClass? before p = some id') :
    id' = id := by
  have hget : before.interner.get? p.className = some n :=
    hinterner ▸ Interner.get?_of_text h.name.text_eq p.className_ne.2
  unfold Eval.wrapperClass? at hid
  simp only [hget, Option.bind_eq_bind, Option.bind_some] at hid
  obtain ⟨r, hr, hvalue⟩ := Option.bind_eq_some_iff.mp hid
  rw [hevolves.constant_before hr h.own] at hvalue
  exact (Option.some.inj hvalue).symm

theorem HasClass.wrapperClass? {members : List String} {n : Name} {id : ClassId} {c : ClassObject}
    (h : m.HasClass p.className members n id c) : Eval.wrapperClass? m p = some id := by
  unfold Eval.wrapperClass?
  rw [Interner.get?_of_text h.name.text_eq p.className_ne.2]
  simp [h.own, Reference.constant]

/-- What was made to wrap a primitive wraps it. -/
theorem Wraps.wrapper (h : m.Wraps p s) (hready : m.Ready) : m.Wrapper p s := by
  obtain ⟨hevolves, hinterner, -, -, hid, hc, hmade, -⟩ := h
  obtain ⟨members, hmem⟩ := p.className_mem
  obtain ⟨n, id', c', hclass⟩ := hready.classes _ hmem
  obtain rfl := hclass.wrapperClass?_eq hevolves hinterner hid
  obtain rfl := Option.some.inj ((hevolves.classes _ _ hc).symm.trans hclass.object)
  refine ⟨hmem, hclass, hmade.inst, hmade.payload hclass.native p rfl, fun member hmember => ?_⟩
  obtain ⟨stmt, hstmt, span, decl, n', rfl, hlinked, hname, hn', hpath, harity⟩ :=
    exists_of_forall₂ (hclass.decl _ .refl).init hmember
  obtain ⟨hne, hdiscarded, -⟩ := (Core.wrapperClasses_linked _ hmem).2.2 member hmember
  have htext : m.text n' = member := hn'
  obtain ⟨f, fn, nativeId, hown, hf, rfl, hnative, hfound⟩ :=
    hmade.links span decl n' hstmt hlinked hname (htext ▸ hdiscarded)
  obtain ⟨-, g, hlookup, hg⟩ := hready.linker.function_ok hfound
  rw [hlookup, Option.map_some, Option.some.injEq] at harity
  exact ⟨n', f, fn, nativeId, g, Interner.stands_of_getElem? (Interner.getElem?_of_text htext hne),
    hown, hf, hnative, hpath, harity.symm, hg, hpath ▸ hlookup⟩

/-- There was no wrapper when one was made, and none was kept meanwhile. -/
theorem Wraps.get?_eq_none (h : m.Wraps p s) (hready : m.Ready) : m.wrappers.get? p = none := by
  obtain ⟨hevolves, hinterner, hlinker, hnew, hid, hc, -, hrun⟩ := h
  obtain ⟨members, hmem⟩ := p.className_mem
  obtain ⟨n, id', c', hclass⟩ := hready.classes _ hmem
  obtain rfl := hclass.wrapperClass?_eq hevolves hinterner hid
  obtain rfl := Option.some.inj ((hevolves.classes _ _ hc).symm.trans hclass.object)
  have hsteady := (hready.does_instantiate hmem p.className_ne.1 hclass hevolves hinterner
    hlinker).of_done hrun
  rwa [hsteady.wrappers]

/-! ## Steps -/

theorem Later.refl (m : Interpreter) : m.Later m :=
  ⟨.refl m, .refl, .refl _, fun _ _ _ _ _ _ => rfl⟩

theorem Later.trans {m'' : Interpreter} (h : m.Later m') (h' : m'.Later m'') : m.Later m'' where
  evolves := h.evolves.trans h'.evolves
  names := h.names.trans h'.names
  natives := h.natives.trans h'.natives
  frame s id c hs hc hnative :=
    (h'.frame s id c (h.evolves.instanceOf hs) (h.evolves.classes _ _ hc) hnative).trans
      (h.frame s id c hs hc hnative)

end Interpreter

theorem Move.later {P : Binder Name → Prop} (h : Move P m m') : m.Later m' where
  evolves := h.evolves
  names := h.interner ▸ .refl
  natives := h.linker ▸ .refl _
  frame _ _ _ := h.frame

namespace Interpreter

theorem Ready.later (h : m.Ready) (hm : m.Later m') (hlinker : m'.linker.Sole) : m'.Ready where
  names := h.names.trans hm.names
  linker := hlinker
  outermost := by
    obtain ⟨n, id, c, hclass⟩ := h.classes _ List.mem_cons_self
    exact hm.evolves.scopes.outermost (Scopes.created_of_own hclass.own) h.outermost
  classes p hp := by
    obtain ⟨n, id, c, hclass⟩ := h.classes p hp
    exact ⟨n, id, c, hclass.later hm⟩

end Interpreter
end IslandScript
