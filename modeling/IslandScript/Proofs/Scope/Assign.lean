import IslandScript.Value.Scope

/-!
# Look-ups and assignments meet

A look-up and an assignment walk along scopes by functions of their own. They visit the same scopes
in the same order: whatever the graph, an assignment comes to what `assignOwn` does in the scope
where the look-up finds the name (`assignable_eq`).
-/

namespace IslandScript.Scopes

variable {g : Scopes} {n : Name} {s t : ScopeId} {r : Reference}

/-- What an assignment to a name does when it was found, or was not. -/
def assignFound (g : Scopes) (n : Name) : Option ScopeId → Except AssignError ScopeId
  | none => .error .undefined
  | some t => g.assignOwn t n

/-! ## In one scope -/

theorem assignOwn_of_none (h : g.own? s n = none) : g.assignOwn s n = .error .undefined := by
  simp [assignOwn, h]

theorem assignOwn_of_some (h : g.own? s n = some r) :
    g.assignOwn s n = if r.kind = .constant then .error .constant else .ok s := by
  simp [assignOwn, h]

/-- A name is undefined in a scope exactly if the scope does not bind it. -/
theorem assignOwn_eq_undefined_iff : g.assignOwn s n = .error .undefined ↔ g.own? s n = none := by
  cases h : g.own? s n with
  | none => simp [assignOwn_of_none h]
  | some r =>
      rw [assignOwn_of_some h]
      split <;> simp

/-- Only a scope that binds the name to something that is not constant is written to. -/
theorem assignOwn_eq_ok (h : g.assignOwn s n = .ok t) :
    t = s ∧ ∃ r, g.own? s n = some r ∧ r.kind ≠ .constant := by
  cases hown : g.own? s n with
  | none =>
      rw [assignOwn_of_none hown] at h
      cases h
  | some r =>
      rw [assignOwn_of_some hown] at h
      split at h
      next => cases h
      next hkind =>
        cases h
        exact ⟨rfl, r, rfl, hkind⟩

/-! ## Along scopes -/

theorem goOn_of_ne {here : Except AssignError ScopeId} {next : Option ScopeId}
    {assign : ScopeId → Except AssignError ScopeId} (h : here ≠ .error .undefined) :
    goOn here next assign = here := by
  unfold goOn
  split
  next => exact absurd rfl h
  next => rfl

theorem goOn_none {here : Except AssignError ScopeId}
    {assign : ScopeId → Except AssignError ScopeId} : goOn here none assign = here := by
  unfold goOn
  split
  next h => cases h
  next => rfl

/-- Where a member is found it is bound. -/
theorem own?_of_memberHolderWithin {steps : Nat} (h : g.memberHolderWithin n steps s = some t) :
    ∃ r, g.own? t n = some r := by
  induction steps generalizing s with
  | zero => cases h
  | succ steps ih =>
      unfold memberHolderWithin at h
      split at h
      next hown =>
        cases h
        exact Option.isSome_iff_exists.mp hown
      next =>
        split at h
        next => cases h
        next => exact ih h

theorem memberHolderWithin_of_some {steps : Nat} (h : g.own? s n = some r) :
    g.memberHolderWithin n (steps + 1) s = some s := by
  have hsome : ((g.get s).own? n).isSome = true := Option.isSome_iff_exists.mpr ⟨r, h⟩
  rw [memberHolderWithin, if_pos hsome]

theorem memberHolderWithin_of_none {steps : Nat} (h : g.own? s n = none) :
    g.memberHolderWithin n (steps + 1) s = (g.base? s).bind (g.memberHolderWithin n steps) := by
  have hnone : ¬ ((g.get s).own? n).isSome = true := Option.not_isSome_iff_eq_none.mpr h
  rw [memberHolderWithin, if_neg hnone]
  cases g.base? s <;> rfl

theorem assignFound_some_ne (h : g.own? t n = some r) :
    g.assignFound n (some t) ≠ .error .undefined := by
  intro hundefined
  cases h.symm.trans (assignOwn_eq_undefined_iff.mp hundefined)

/-- Along bases, an assignment comes to the scope that is found. -/
theorem assignMemberWithin_eq (steps : Nat) (s : ScopeId) :
    g.assignMemberWithin n steps s = g.assignFound n (g.memberHolderWithin n steps s) := by
  induction steps generalizing s with
  | zero => rfl
  | succ steps ih =>
      rw [assignMemberWithin]
      cases hown : g.own? s n with
      | some r =>
          rw [memberHolderWithin_of_some hown]
          exact goOn_of_ne (assignFound_some_ne hown)
      | none =>
          rw [memberHolderWithin_of_none hown, assignOwn_of_none hown]
          cases g.base? s with
          | none => rfl
          | some b => exact ih b

/-- In a scope and its bases, an assignment comes to the scope that is found. -/
theorem goOn_base_eq (s : ScopeId) :
    goOn (g.assignOwn s n) (g.base? s) (g.assignMemberWithin n g.size) =
      g.assignFound n (g.memberHolder? s n) := by
  have hmember := g.assignMemberWithin_eq (n := n) (g.size + 1) s
  rwa [assignMemberWithin] at hmember

theorem assignWithin_eq (steps : Nat) (s : ScopeId) :
    g.assignWithin n steps s = g.assignFound n (g.holderWithin n steps s) := by
  induction steps generalizing s with
  | zero => rfl
  | succ steps ih =>
      rw [assignWithin, goOn_base_eq, holderWithin]
      cases hmember : g.memberHolder? s n with
      | some t =>
          obtain ⟨r, hr⟩ := own?_of_memberHolderWithin hmember
          exact goOn_of_ne (assignFound_some_ne hr)
      | none =>
          cases (g.get s).parent with
          | none => exact goOn_none
          | some p => exact ih p

/-- What a name can be assigned to is what is found for it. -/
theorem assignable_eq (g : Scopes) (s : ScopeId) (n : Name) :
    g.assignable s n = g.assignFound n (g.holder? s n) :=
  assignWithin_eq (g.size + 1) s

/-- The scope that is written to binds the name to something that is not constant. -/
theorem own?_of_assignable (h : g.assignable s n = .ok t) :
    g.holder? s n = some t ∧ ∃ r, g.own? t n = some r ∧ r.kind ≠ .constant := by
  rw [assignable_eq] at h
  cases hfound : g.holder? s n with
  | none =>
      rw [hfound] at h
      cases h
  | some u =>
      rw [hfound] at h
      obtain ⟨rfl, hbound⟩ := assignOwn_eq_ok h
      exact ⟨rfl, hbound⟩

end IslandScript.Scopes
