import IslandScript.Link.Core
import IslandScript.Proofs.Link.Faithful

/-!
# Natives of lists

What is called as a member of a list works on the list that its instance wraps: it reads and
changes the table of that list, and no other. `Core.listWorks` tells the work of each such native
apart from the way in which it gets to the list.
-/

namespace IslandScript

variable {α β : Type} {t : TableId} {c : Call}

/-! ## One table -/

/-- A native changes no table but one. -/
def Native.ChangesOnly (t : TableId) (x : Native α) : Prop :=
  ∀ (o : Objects) (s : Store) (u : TableId), u ≠ t → (x.run o s).2.tables.get u = s.tables.get u

namespace Native.ChangesOnly

variable {x : Native α} {f : α → Native β}

theorem pure (a : α) : ChangesOnly t (Pure.pure a) := fun _ _ _ _ => rfl

theorem bind (hx : x.ChangesOnly t) (hf : ∀ a, (f a).ChangesOnly t) :
    (x >>= f).ChangesOnly t := by
  intro o s u hu
  rw [run_bind]
  split
  next a _ => exact (hf a o _ u hu).trans (hx o s u hu)
  · exact hx o s u hu

theorem read (g : Store → α) : ChangesOnly t (Native.read g) := fun _ _ _ _ => rfl

theorem update (g : Table → Table) : ChangesOnly t (Native.change (·.update t g)) :=
  fun _ _ _ hu => Tables.get_update_of_ne hu g

theorem display (v : Value) : ChangesOnly t (Native.display v) := fun _ _ _ _ => rfl

theorem displayAll (vs : List Value) : ChangesOnly t (Native.displayAll vs) := by
  induction vs with
  | nil => exact pure []
  | cons v vs ih => exact bind (display v) fun _ => bind ih fun _ => pure _

theorem invalidArgument (v : Value) (param : String) :
    ChangesOnly t (Native.invalidArgument v param : Native α) :=
  bind (display v) fun _ _ _ _ _ => rfl

theorem ofIndex (v i : Value) (r : Except IndexError α) :
    ChangesOnly t (Native.ofIndex v i r) := by
  cases r with
  | ok a => exact pure a
  | error e => exact fun _ _ _ _ => rfl

theorem string (i : Nat) (param : String) : ChangesOnly t (c.string i param) := by
  unfold Call.string
  split
  · exact pure _
  · exact invalidArgument _ _

end Native.ChangesOnly

/-! ## The receiver -/

/-- A native finds the payload of the instance it is called on. -/
theorem Call.run_payload {o : Objects} {st : Store} {s : ScopeId} {payload : Payload}
    {values : List Value} {path : String} (h : o.payload? s = some payload) :
    (Call.payload ⟨some s, values⟩ path).run o st = (.ok payload, st) := by
  have hask : Native.run (fun o => pure (o.payload? s)) o st = (.ok (o.payload? s), st) := rfl
  unfold Call.payload
  rw [Native.run_bind, show (Call.instanceAt ⟨some s, values⟩ path).run o st = (.ok s, st) from rfl]
  dsimp only
  rw [Native.run_bind, hask, h]
  rfl

/-- A native finds the primitive that the instance it is called on wraps. -/
theorem Call.run_primitive {o : Objects} {st : Store} {s : ScopeId} {p : Primitive}
    {values : List Value} {path : String} (h : o.payload? s = some (.primitive p)) :
    (Call.primitive ⟨some s, values⟩ path).run o st = (.ok p, st) := by
  unfold Call.primitive
  rw [Native.run_bind, Call.run_payload h]
  rfl

/-- Values are shown one by one, which changes nothing. -/
theorem Native.run_displayAll (vs : List Value) (o : Objects) (st : Store) :
    (Native.displayAll vs).run o st = (.ok (vs.map (o.display st.tables)), st) := by
  induction vs with
  | nil => rfl
  | cons v vs ih =>
      have hdisplay : (Native.display v).run o st = (.ok (o.display st.tables v), st) := rfl
      rw [Native.displayAll, Native.run_bind, hdisplay]
      dsimp only
      rw [Native.run_bind, ih]
      rfl

/-! ## The natives of lists -/

namespace Core

theorem run_thisString {o : Objects} {st : Store} {s : ScopeId} {text : String} {values : List Value}
    {path : String} (h : o.payload? s = some (.primitive (.string text))) :
    (thisString ⟨some s, values⟩ path).run o st = (.ok text, st) := by
  unfold thisString
  rw [Native.run_bind, Call.run_primitive h]
  rfl

theorem run_thisList {o : Objects} {st : Store} {s : ScopeId} {values : List Value} {path : String}
    (h : o.payload? s = some (.primitive (.list t))) :
    (thisList ⟨some s, values⟩ path).run o st = (.ok t, st) := by
  unfold thisList
  rw [Native.run_bind, Call.run_primitive h]
  rfl

end Core
end IslandScript
