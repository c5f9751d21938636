import IslandScript.Eval.Signal
import IslandScript.Link.Native
import IslandScript.Value.Index

/-!
# What refers to which scopes

A value refers to a scope if it is an instance. `has` stands for the scopes that may be referred to:
what is made of values is within them if none of its values refers to another.
-/

namespace IslandScript

variable {has has' : ScopeId → Prop}

/-! ## What arrays hold when they grow -/

section Push

variable {α : Type} {xs : Array α} {a b : α} {i : Nat}

/-- What an array holds it holds after something was added at its end. -/
theorem getElem?_push_of_some (h : xs[i]? = some a) : (xs.push b)[i]? = some a := by
  obtain ⟨hi, rfl⟩ := Array.getElem?_eq_some_iff.mp h
  exact Array.getElem?_push_lt hi

/-- What is found after something was added at the end was there, or is what was added. -/
theorem getElem?_push_cases (h : (xs.push b)[i]? = some a) : xs[i]? = some a ∨ a = b := by
  rw [Array.getElem?_push] at h
  split at h
  · exact .inr (Option.some.inj h).symm
  · exact .inl h

end Push

/-! ## Values and signals -/

/-- The value refers to no scope but those `has` tells. -/
def Value.Within (has : ScopeId → Prop) : Value → Prop
  | .inst s => has s
  | _ => True

/-- The value that a signal carries, if it does, refers to no scope but those `has` tells. -/
def Signal.Within (has : ScopeId → Prop) : Signal → Prop
  | .returnValue v => v.Within has
  | .throwValue v => v.Within has
  | .exitValue v => v.Within has
  | _ => True

theorem Value.Within.mono (hle : ∀ s, has s → has' s) {v : Value} (h : v.Within has) :
    v.Within has' := by
  cases v with
  | inst s => exact hle s h
  | _ => trivial

theorem Signal.Within.mono (hle : ∀ s, has s → has' s) {s : Signal} (h : s.Within has) :
    s.Within has' := by
  cases s with
  | returnValue v => exact Value.Within.mono hle h
  | throwValue v => exact Value.Within.mono hle h
  | exitValue v => exact Value.Within.mono hle h
  | _ => trivial

theorem Value.within_of_forall (h : ∀ s, has s) (v : Value) : v.Within has := by
  cases v with
  | inst s => exact h s
  | _ => trivial

/-! ## Objects, tables and calls -/

/-- What the objects hold refers to no scope but those `has` tells. -/
structure Objects.Within (has : ScopeId → Prop) (o : Objects) : Prop where
  own : ∀ {s : ScopeId} {n : Name} {r : Reference}, o.scopes.own? s n = some r → r.value.Within has
  parent : ∀ {s p : ScopeId}, (o.scopes.get s).parent = some p → has p
  base : ∀ {s b : ScopeId}, o.scopes.base? s = some b → has b
  function : ∀ {i : Nat} {f : FunctionObject}, o.functions[i]? = some f → has f.scope
  cls : ∀ {i : Nat} {c : ClassObject}, o.classes[i]? = some c → has c.scope

/-- What the tables hold refers to no scope but those `has` tells. -/
structure Tables.Within (has : ScopeId → Prop) (ts : Tables) : Prop where
  item : ∀ {t : TableId} {v : Value}, v ∈ ts.items t → v.Within has
  entry : ∀ {t : TableId} {k : String} {v : Value}, (ts.get t).key? k = some v → v.Within has

/-- What the call is made with refers to no scope but those `has` tells. -/
structure Call.Within (has : ScopeId → Prop) (c : Call) : Prop where
  receiver : ∀ {s : ScopeId}, c.receiver = some s → has s
  args : ∀ v ∈ c.args, v.Within has

theorem Objects.within_of_forall (h : ∀ s, has s) (o : Objects) : o.Within has :=
  ⟨fun _ => Value.within_of_forall h _, fun _ => h _, fun _ => h _, fun _ => h _, fun _ => h _⟩

theorem Tables.within_of_forall (h : ∀ s, has s) (ts : Tables) : ts.Within has :=
  ⟨fun _ => Value.within_of_forall h _, fun _ => Value.within_of_forall h _⟩

theorem Tables.Within.mono (hle : ∀ s, has s → has' s) {ts : Tables} (h : ts.Within has) :
    ts.Within has' :=
  ⟨fun hv => (h.item hv).mono hle, fun hv => (h.entry hv).mono hle⟩

theorem Call.Within.arg {c : Call} (hc : c.Within has) (i : Nat) : (c.arg i).Within has := by
  unfold Call.arg
  cases h : c.args[i]? with
  | none => trivial
  | some v => exact hc.args v (List.mem_of_getElem? h)

/-! ## What is read from objects -/

namespace Objects.Within

variable {o : Objects}

/-- The value of a name is within the scopes. -/
theorem lookup (h : o.Within has) {s : ScopeId} {n : Name} {v : Value}
    (hv : o.scopes.lookup? s n = some v) : v.Within has := by
  obtain ⟨t, -, ht⟩ := Option.bind_eq_some_iff.mp hv
  obtain ⟨r, hr, hrv⟩ := Option.bind_eq_some_iff.mp ht
  cases hrv
  exact h.own hr

/-- A member is within the scopes. -/
theorem member (h : o.Within has) {s : ScopeId} {n : Name} {v : Value}
    (hv : o.scopes.member? s n = some v) : v.Within has := by
  obtain ⟨t, -, ht⟩ := Option.bind_eq_some_iff.mp hv
  obtain ⟨r, hr, hrv⟩ := Option.bind_eq_some_iff.mp ht
  cases hrv
  exact h.own hr

/-- The nearest instance of a scope is that scope or one around it. -/
theorem nearest (h : o.Within has) {s t : ScopeId} (hs : has s)
    (ht : o.scopes.nearestInstance? s = some t) : has t := by
  -- Only the scope at hand matters, not how many steps are left.
  unfold Scopes.nearestInstance? at ht
  generalize o.scopes.size + 1 = steps at ht
  induction steps generalizing s with
  | zero => cases ht
  | succ steps ih =>
      rw [Scopes.instanceWithin] at ht
      split at ht
      · cases ht
        exact hs
      · split at ht
        · cases ht
        next p hp => exact ih (h.parent hp) ht

end Objects.Within

/-! ## What is read from tables -/

namespace Tables.Within

variable {ts : Tables}

/-- The items of a value that can be spread are within the scopes. -/
theorem spread (h : ts.Within has) {v : Value} {items : List Value}
    (hitems : v.spread? ts = some items) : ∀ w ∈ items, w.Within has := by
  intro w hw
  cases v with
  | string s =>
      cases hitems
      obtain ⟨c, -, rfl⟩ := List.mem_map.mp hw
      trivial
  | list t =>
      cases hitems
      exact h.item hw
  | _ => cases hitems

/-- What is computed from a result that may be missing is computed from one that is there. -/
theorem ok_of_bind_pure {ε α β : Type} {x : Except ε α} {f : α → β} {b : β}
    (h : (x >>= fun a => Pure.pure (f a)) = .ok b) : ∃ a, f a = b := by
  cases x with
  | ok a => exact ⟨a, Except.ok.inj h⟩
  | error e => cases h

/-- What an index gives is within the scopes. -/
theorem index (h : ts.Within has) {v i w : Value} (hw : v.index ts i = .ok w) : w.Within has := by
  unfold Value.index at hw
  split at hw
  next t k =>
    cases hw
    cases hk : (ts.get t).key? k with
    | none => trivial
    | some w => exact h.entry hk
  next t _ =>
    obtain ⟨p, rfl⟩ := ok_of_bind_pure hw
    cases hi : (ts.get t).items[p]? with
    | none => trivial
    | some w => exact h.item (Array.mem_toList_iff.mpr (Array.mem_of_getElem? hi))
  next s =>
    obtain ⟨p, rfl⟩ := ok_of_bind_pure hw
    cases s.toList[p]? <;> trivial
  · cases hw

end Tables.Within

/-! ## Tables after a change -/

namespace Tables.Within

variable {ts : Tables}

theorem get_update (t u : TableId) (f : Table → Table) :
    (ts.update t f).get u = ts.get u ∨ (ts.update t f).get u = f (ts.get u) := by
  unfold Tables.update Tables.get
  rw [Array.getElem?_modify]
  split
  · cases ts[u.index]? with
    | none => exact .inl rfl
    | some table => exact .inr rfl
  · exact .inl rfl

/-- A table may be changed as long as what it then holds is what it held or within the scopes. -/
theorem update (h : ts.Within has) (t : TableId) {f : Table → Table}
    (hitem : ∀ table v, v ∈ (f table).items → v ∈ table.items ∨ v.Within has)
    (hentry : ∀ table k v, (f table).key? k = some v → table.key? k = some v ∨ v.Within has) :
    (ts.update t f).Within has where
  item {u v} hv := by
    unfold Tables.items at hv
    rcases get_update t u f with hu | hu <;> rw [hu] at hv
    · exact h.item hv
    · rcases hitem _ v (Array.mem_toList_iff.mp hv) with hv | hv
      · exact h.item (Array.mem_toList_iff.mpr hv)
      · exact hv
  entry {u k v} hv := by
    rcases get_update t u f with hu | hu <;> rw [hu] at hv
    · exact h.entry hv
    · rcases hentry _ k v hv with hv | hv
      · exact h.entry hv
      · exact hv

theorem get_push (ts : Tables) (table : Table) (u : TableId) :
    get (ts.push table) u = ts.get u ∨ get (ts.push table) u = table := by
  unfold Tables.get
  rw [Array.getElem?_push]
  split
  · exact .inr rfl
  · exact .inl rfl

/-- A list may be made of values within the scopes. -/
theorem alloc (h : ts.Within has) {items : List Value} (hitems : ∀ v ∈ items, v.Within has) :
    (ts.alloc items).2.Within has where
  item {u v} hv := by
    unfold Tables.alloc Tables.items at hv
    rcases get_push ts (Table.ofList items) u with hu | hu <;> rw [hu] at hv
    · exact h.item hv
    · exact hitems v hv
  entry {u k v} hv := by
    unfold Tables.alloc at hv
    rcases get_push ts (Table.ofList items) u with hu | hu <;> rw [hu] at hv
    · exact h.entry hv
    · cases hv

/-- What is under a key after one was set was there before, or is what was set. -/
theorem lookup_setEntry {entries : List (String × Value)} {k k' : String} {v w : Value}
    (h : (Table.setEntry k v entries).lookup k' = some w) : entries.lookup k' = some w ∨ w = v := by
  induction entries with
  | nil =>
      rw [Table.setEntry, List.lookup_cons] at h
      split at h
      · exact .inr (Option.some.inj h).symm
      · cases h
  | cons entry entries ih =>
      rw [Table.setEntry] at h
      rw [List.lookup_cons]
      split at h
      next hk =>
        rw [List.lookup_cons] at h
        rw [eq_of_beq hk]
        split at h
        · exact .inr (Option.some.inj h).symm
        · exact .inl h
      · rw [List.lookup_cons] at h
        split at h
        · exact .inl h
        · exact ih h

end Tables.Within

end IslandScript
