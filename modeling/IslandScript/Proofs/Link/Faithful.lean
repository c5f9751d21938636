import IslandScript.Link.Linker
import IslandScript.Proofs.Logic.Within

/-!
# Natives that make up no instances

What a native is given refers to scopes: objects, the store, the instance it is called on and its
arguments. A faithful native gives and stores nothing that refers to others, as code does that has
no way to make a scope of its own. It is judged by `Native.Ensures`, with one rule for each way of
composing natives. Which scopes there are makes no difference, they are told by a parameter.
-/

namespace IslandScript

variable {has : ScopeId → Prop} {α β : Type}

/-- From objects and tables within the scopes, the native leaves tables within them, and what it
gives fulfils a condition. -/
def Native.Ensures (has : ScopeId → Prop) (x : Native α) (Q : α → Prop) : Prop :=
  ∀ (o : Objects) (s : Store), o.Within has → s.tables.Within has →
    (x.run o s).2.tables.Within has ∧ ∀ a, (x.run o s).1 = .ok a → Q a

/-- The function refers to no scopes but those it got. -/
def NativeFunction.Faithful (f : NativeFunction) : Prop :=
  ∀ (has : ScopeId → Prop) (c : Call), c.Within has → (f.call c).Ensures has (·.Within has)

/-- What the class makes of an instance refers to no scopes but those it got. -/
def NativeClass.Faithful (c : NativeClass) : Prop :=
  ∀ (has : ScopeId → Prop) (s : ScopeId), has s → (c.construct s).Ensures has fun _ => True

/-- All natives of the link are faithful. -/
structure Link.Faithful (l : Link) : Prop where
  functions : ∀ f ∈ l.functions, f.2.Faithful
  classes : ∀ c ∈ l.classes, c.2.Faithful

/-! ## Natives put together -/

/-- A native that goes on after another does so with what the first gives, from its store. -/
theorem Native.run_bind (x : Native α) (f : α → Native β) (o : Objects) (s : Store) :
    (x >>= f).run o s =
      match (x.run o s).1 with
      | .ok a => (f a).run o (x.run o s).2
      | .error e => (.error e, (x.run o s).2) := by
  show (ExceptT.bindCont (fun a => f a o) (x.run o s).1) (x.run o s).2 = _
  cases (x.run o s).1 <;> rfl

namespace Native.Ensures

variable {x : Native α} {P Q : α → Prop} {c : Call}

theorem pure {a : α} (ha : Q a) : Ensures has (Pure.pure a) Q := by
  intro o s _ hs
  refine ⟨hs, ?_⟩
  rintro _ ⟨⟩
  exact ha

theorem bind {f : α → Native β} {Q : β → Prop} (hx : x.Ensures has P)
    (hf : ∀ a, P a → (f a).Ensures has Q) : (x >>= f).Ensures has Q := by
  intro o s ho hs
  obtain ⟨hstore, hvalue⟩ := hx o s ho hs
  rw [run_bind]
  split
  next a h => exact hf a (hvalue a h) o _ ho hstore
  · exact ⟨hstore, nofun⟩

theorem fail {kind : EvalErrorKind} : Ensures has (Native.fail kind) Q :=
  fun _ _ _ hs => ⟨hs, nofun⟩

theorem failLink {kind : LinkErrorKind} : Ensures has (Native.failLink kind) Q := fail

theorem take {f : Store → α × Store}
    (hf : ∀ s, s.tables.Within has → (f s).2.tables.Within has ∧ Q (f s).1) :
    Ensures has (Native.take f) Q := by
  intro o s _ hs
  obtain ⟨hstore, hvalue⟩ := hf s hs
  refine ⟨hstore, ?_⟩
  rintro _ ⟨⟩
  exact hvalue

theorem read {f : Store → α} (hf : ∀ s : Store, s.tables.Within has → Q (f s)) :
    Ensures has (Native.read f) Q :=
  take (f := fun s => (f s, s)) fun s hs => ⟨hs, hf s hs⟩

theorem change {f : Store → Store} (hf : ∀ s, s.tables.Within has → (f s).tables.Within has) :
    Ensures has (Native.change f) fun _ => True :=
  take (f := fun s => ((), f s)) fun s hs => ⟨hf s hs, trivial⟩

/-- What is read from objects and store is free of scopes, unless more is known. -/
theorem ask {f : Objects → Store → α} :
    Ensures has (fun o => ExceptT.lift fun s => (f o s, s)) fun _ => True :=
  fun _ _ _ hs => ⟨hs, fun _ _ => trivial⟩

theorem display {v : Value} : Ensures has (Native.display v) fun _ => True := ask

/-- A table may be changed as long as what it then holds is what it held or within the scopes. -/
theorem update {t : TableId} {f : Table → Table}
    (hitem : ∀ table v, v ∈ (f table).items → v ∈ table.items ∨ v.Within has)
    (hentry : ∀ table k v, (f table).key? k = some v → table.key? k = some v ∨ v.Within has) :
    Ensures has (Native.change (·.update t f)) fun _ => True :=
  change fun _ hs => hs.update t hitem hentry

theorem displayAll (vs : List Value) : Ensures has (Native.displayAll vs) fun _ => True := by
  induction vs with
  | nil => exact pure trivial
  | cons v vs ih => exact bind display fun _ _ => bind ih fun _ _ => pure trivial

theorem newList {items : List Value} (hitems : ∀ v ∈ items, v.Within has) :
    Ensures has (Native.newList items) (·.Within has) :=
  take fun _ hs => ⟨hs.alloc hitems, trivial⟩

theorem items {t : TableId} : Ensures has (Native.items t) fun vs => ∀ v ∈ vs, v.Within has :=
  read fun _ hs _ hv => hs.item hv

theorem invalidArgument {v : Value} {param : String} :
    Ensures has (Native.invalidArgument v param) Q :=
  bind display fun _ _ => failLink

theorem ofIndex {target i : Value} {r : Except IndexError α} (hr : ∀ a, r = .ok a → Q a) :
    Ensures has (Native.ofIndex target i r) Q := by
  cases r with
  | ok a => exact pure (hr a rfl)
  | error e => exact fun _ _ _ hs => ⟨hs, nofun⟩

/-! ## What natives are called with -/

theorem number {i : Nat} {param : String} : Ensures has (c.number i param) fun _ => True := by
  unfold Call.number
  split
  · exact pure trivial
  · exact invalidArgument

theorem boolean {i : Nat} {param : String} : Ensures has (c.boolean i param) fun _ => True := by
  unfold Call.boolean
  split
  · exact pure trivial
  · exact invalidArgument

theorem string {i : Nat} {param : String} : Ensures has (c.string i param) fun _ => True := by
  unfold Call.string
  split
  · exact pure trivial
  · exact invalidArgument

theorem list {i : Nat} {param : String} : Ensures has (c.list i param) fun _ => True := by
  unfold Call.list
  split
  · exact pure trivial
  · exact invalidArgument

theorem instanceAt {path : String} (hc : c.Within has) : Ensures has (c.instanceAt path) has := by
  unfold Call.instanceAt
  split
  next s hs => exact pure (hc.receiver hs)
  · exact failLink

theorem payload {path : String} (hc : c.Within has) :
    Ensures has (c.payload path) fun _ => True := by
  refine bind (instanceAt hc) fun s _ => bind (P := fun _ => True) ?_ fun p _ => ?_
  · exact fun _ _ _ hs => ⟨hs, fun _ _ => trivial⟩
  · split
    · exact pure trivial
    · exact failLink

theorem primitive {path : String} (hc : c.Within has) :
    Ensures has (c.primitive path) fun _ => True := by
  refine bind (payload hc) ?_
  intro p _
  split
  · exact pure trivial
  · exact failLink

theorem state {path : String} (hc : c.Within has) : Ensures has (c.state path) fun _ => True := by
  refine bind (payload hc) ?_
  intro p _
  split
  · exact pure trivial
  · exact failLink

end Native.Ensures

/-! ## Linkers -/

/-- The natives that are registered and those that are available are faithful. -/
structure Linker.Faithful (l : Linker) : Prop where
  function : ∀ {id : NativeFunctionId} {f : NativeFunction}, l.nativeFunction? id = some f →
    f.Faithful
  cls : ∀ {id : NativeClassId} {c : NativeClass}, l.nativeClass? id = some c → c.Faithful
  available : ∀ link ∈ l.available, link.Faithful

namespace Linker.Faithful

variable {l : Linker}

theorem registerFunction (h : l.Faithful) (path : String) {f : NativeFunction} (hf : f.Faithful) :
    (l.registerFunction path f).Faithful := by
  unfold Linker.registerFunction
  split
  · exact h
  · refine ⟨fun hid => ?_, h.cls, h.available⟩
    rcases getElem?_push_cases hid with hid | rfl
    · exact h.function hid
    · exact hf

theorem registerClass (h : l.Faithful) (name : String) {c : NativeClass} (hc : c.Faithful) :
    (l.registerClass name c).Faithful := by
  unfold Linker.registerClass
  split
  · exact h
  · refine ⟨h.function, fun hid => ?_, h.available⟩
    rcases getElem?_push_cases hid with hid | rfl
    · exact h.cls hid
    · exact hc

theorem registerFunctions (h : l.Faithful) (fs : List (String × NativeFunction))
    (hfs : ∀ f ∈ fs, f.2.Faithful) :
    (fs.foldl (fun l (path, f) => l.registerFunction path f) l).Faithful := by
  induction fs generalizing l with
  | nil => exact h
  | cons f fs ih =>
      obtain ⟨hf, hfs⟩ := List.forall_mem_cons.mp hfs
      exact ih (h.registerFunction f.1 hf) hfs

theorem registerClasses (h : l.Faithful) (cs : List (String × NativeClass))
    (hcs : ∀ c ∈ cs, c.2.Faithful) :
    (cs.foldl (fun l (name, c) => l.registerClass name c) l).Faithful := by
  induction cs generalizing l with
  | nil => exact h
  | cons c cs ih =>
      obtain ⟨hc, hcs⟩ := List.forall_mem_cons.mp hcs
      exact ih (h.registerClass c.1 hc) hcs

theorem register (h : l.Faithful) {link : Link} (hlink : link.Faithful) :
    (l.register link).Faithful :=
  (h.registerFunctions link.functions hlink.functions).registerClasses link.classes hlink.classes

theorem add (h : l.Faithful) {link : Link} (hlink : link.Faithful) : (l.add link).2.Faithful := by
  unfold Linker.add
  split
  · exact h
  · refine ⟨h.function, h.cls, fun other hother => ?_⟩
    rcases List.mem_append.mp hother with hother | hother
    · exact h.available other hother
    · rw [List.mem_singleton.mp hother]
      exact hlink

theorem importLink (h : l.Faithful) {name : String} {source : Option Source} {l' : Linker}
    (hl' : l.importLink name = .ok (source, l')) : l'.Faithful := by
  unfold Linker.importLink at hl'
  split at hl'
  · cases hl'
    exact h
  · split at hl'
    · cases hl'
    next link hlink =>
      cases hl'
      have hfaithful := h.register (h.available link (List.mem_of_find?_eq_some hlink))
      exact ⟨hfaithful.function, hfaithful.cls, hfaithful.available⟩

theorem close (h : l.Faithful) : l.close.2.Faithful := ⟨h.function, h.cls, h.available⟩

end Linker.Faithful
end IslandScript
