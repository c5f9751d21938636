import IslandScript.Environment

/-!
# Scopes after a change

What is found at a place, and what a name is bound to, after a scope was created, a name bound or
written, or an instance given its native state.
-/

namespace IslandScript

namespace Scope

variable {s : Scope} {n k : Name} {r : Reference} {v : Value}

/-! ## One scope -/

theorem base_withPayload {p : Payload} :
    (s.withPayload p).frame.bind (·.base) = s.frame.bind (·.base) := by
  simp only [withPayload]
  cases s.frame <;> rfl

theorem own?_bind_self : (s.bind n r).own? n = some r := by
  simp [bind, own?]

theorem own?_bind_of_ne (h : k ≠ n) : (s.bind n r).own? k = s.own? k := by
  simp only [bind, own?, List.lookup_cons]
  rw [beq_eq_false_iff_ne.mpr h]

theorem own?_write_self : (s.write n v).own? n = (s.own? n).map ({ · with value := v }) := by
  simp only [write, own?]
  induction s.bindings with
  | nil => rfl
  | cons b bs ih =>
      unfold writeBinding
      split
      next h =>
        rw [← eq_of_beq h, List.lookup_cons_self, List.lookup_cons_self]
        rfl
      next h =>
        have hne : (n == b.1) = false :=
          beq_eq_false_iff_ne.mpr fun heq => h (beq_iff_eq.mpr heq.symm)
        rw [List.lookup_cons, List.lookup_cons, hne]
        exact ih

theorem own?_write_of_ne (h : k ≠ n) : (s.write n v).own? k = s.own? k := by
  simp only [write, own?]
  induction s.bindings with
  | nil => rfl
  | cons b bs ih =>
      unfold writeBinding
      split
      -- The binding that is written is of another name.
      next hb =>
        have hne : (k == b.1) = false := by
          rw [eq_of_beq hb]
          exact beq_eq_false_iff_ne.mpr h
        rw [List.lookup_cons, List.lookup_cons, hne, beq_eq_false_iff_ne.mpr h]
      · rw [List.lookup_cons, List.lookup_cons, ih]

/-- What is bound after a name was bound was bound before, or is what was bound. -/
theorem own?_bind_some {r' : Reference} (h : (s.bind n r).own? k = some r') :
    r' = r ∨ s.own? k = some r' := by
  by_cases hk : k = n
  · rw [hk, own?_bind_self] at h
    exact .inl (Option.some.inj h).symm
  · rw [own?_bind_of_ne hk] at h
    exact .inr h

/-- What is bound after a name was written was bound before, or has the value that was written. -/
theorem own?_write_some {r' : Reference} (h : (s.write n v).own? k = some r') :
    r'.value = v ∨ s.own? k = some r' := by
  by_cases hk : k = n
  · rw [hk, own?_write_self] at h
    obtain ⟨r, -, rfl⟩ := Option.map_eq_some_iff.mp h
    exact .inl rfl
  · rw [own?_write_of_ne hk] at h
    exact .inr h

/-- What is bound after a name was written was bound before; under other names nothing changed. -/
theorem own?_write_cases (h : (s.write n v).own? k = some r) :
    (k = n ∧ ∃ r₀, s.own? k = some r₀) ∨ s.own? k = some r := by
  by_cases hk : k = n
  · subst hk
    rw [own?_write_self] at h
    obtain ⟨r₀, hr₀, -⟩ := Option.map_eq_some_iff.mp h
    exact .inl ⟨rfl, r₀, hr₀⟩
  · exact .inr ((own?_write_of_ne hk).symm.trans h)

end Scope

/-! ## All scopes -/

namespace Scopes

variable {g : Scopes} {s t : ScopeId} {n : Name}

@[simp] theorem size_update (f : Scope → Scope) : (g.update s f).size = g.size :=
  Array.size_modify

theorem get_of_size_le (h : g.size ≤ s.index) : g.get s = Scope.root := by
  unfold get
  rw [Array.getElem?_eq_none h]
  rfl

/-- Only scopes that were created bind names. -/
theorem created_of_own {r : Reference} (h : g.own? s n = some r) : s.index < g.size := by
  by_cases hs : s.index < g.size
  · exact hs
  · unfold own? at h
    rw [get_of_size_le (Nat.le_of_not_lt hs)] at h
    cases h

theorem get_update_of_ne (h : t ≠ s) (f : Scope → Scope) : (g.update s f).get t = g.get t := by
  have hne : s.index ≠ t.index := fun heq => h (by cases s; cases t; cases heq; rfl)
  unfold get update
  rw [Array.getElem?_modify, if_neg hne]

theorem get_update_self (h : s.index < g.size) (f : Scope → Scope) :
    (g.update s f).get s = f (g.get s) := by
  unfold get update
  rw [Array.getElem?_modify, if_pos rfl, Array.getElem?_eq_getElem h]
  rfl

theorem update_of_size_le (h : g.size ≤ s.index) (f : Scope → Scope) : g.update s f = g := by
  apply Array.ext_getElem?
  intro i
  unfold update
  rw [Array.getElem?_modify]
  split
  next hi =>
    rw [← hi, Array.getElem?_eq_none h]
    rfl
  · rfl

/-- A scope after a change is what the change makes of it or what it was. -/
theorem get_update_cases (f : Scope → Scope) (t : ScopeId) :
    (t = s ∧ (g.update s f).get t = f (g.get t)) ∨ (g.update s f).get t = g.get t := by
  by_cases hs : s.index < g.size
  · by_cases hts : t = s
    · subst hts
      exact .inl ⟨rfl, get_update_self hs f⟩
    · exact .inr (get_update_of_ne hts f)
  · rw [update_of_size_le (Nat.le_of_not_lt hs)]
    exact .inr rfl

theorem get_push_of_lt {s' : Scope} (h : t.index < g.size) : get (g.push s') t = g.get t := by
  unfold get
  rw [Array.getElem?_push_lt h, Array.getElem?_eq_getElem h]

theorem own?_push_of_lt {s' : Scope} (h : t.index < g.size) :
    own? (g.push s') t n = g.own? t n :=
  congrArg (·.own? n) (get_push_of_lt h)

theorem get_push_size {s' : Scope} : get (g.push s') ⟨g.size⟩ = s' := by
  unfold get
  rw [Array.getElem?_push_size]
  rfl

/-- A scope after one was created is that one or was there. -/
theorem get_push_cases {s' : Scope} (h : t.index < (g.push s').size) :
    (t = ⟨g.size⟩ ∧ get (g.push s') t = s') ∨ (t.index < g.size ∧ get (g.push s') t = g.get t) := by
  rw [Array.size_push] at h
  by_cases ht : t.index < g.size
  · exact .inr ⟨ht, get_push_of_lt ht⟩
  · have heq : t = ⟨g.size⟩ := by
      cases t
      congr
      simp only at h ht
      omega
    rw [heq]
    exact .inl ⟨rfl, get_push_size⟩

/-- What is bound after a scope without names was created was bound before. -/
theorem own?_push_of_nil {r : Reference} {scope : Scope}
    (hscope : scope.bindings = []) (h : own? (g.push scope) t n = some r) :
    g.own? t n = some r := by
  unfold own? at h
  by_cases ht : t.index < (g.push scope).size
  · rcases get_push_cases ht with ⟨-, ht⟩ | ⟨-, ht⟩
    · rw [ht] at h
      unfold Scope.own? at h
      rw [hscope] at h
      cases h
    · rw [ht] at h
      exact h
  · rw [get_of_size_le (Nat.le_of_not_lt ht)] at h
    cases h

theorem own?_update_cases {f : Scope → Scope} {r : Reference}
    (hown : (g.update t f).own? s n = some r) :
    (s = t ∧ (f (g.get t)).own? n = some r) ∨ g.own? s n = some r := by
  unfold own? at hown ⊢
  rcases get_update_cases (g := g) (s := t) f s with ⟨rfl, hget⟩ | hget
  · exact .inl ⟨rfl, hget ▸ hown⟩
  · exact .inr (hget ▸ hown)

/-- What an instance itself binds is a member of it. -/
theorem member?_of_own {r : Reference} (h : g.own? s n = some r) : g.member? s n = some r.value := by
  have hholder : g.memberHolder? s n = some s := by
    unfold memberHolder? memberHolderWithin
    rw [if_pos]
    exact Option.isSome_iff_exists.mpr ⟨r, h⟩
  simp [member?, hholder, h]

end Scopes

/-! ## The environment -/

theorem Environment.current_of_stack {env env' : Environment} (h : env'.stack = env.stack) :
    env'.current = env.current :=
  congrArg (·.headD global) h

theorem Environment.own?_bindIn_self {env : Environment} {s : ScopeId} {n : Name} {r : Reference}
    (hs : s.index < env.scopes.size) : (env.bindIn s n r).scopes.own? s n = some r := by
  show (Scopes.get (env.scopes.update s (·.bind n r)) s).own? n = some r
  rw [Scopes.get_update_self hs, Scope.own?_bind_self]

/-- A name that a scope does not bind yet is bound there once it was defined. -/
theorem Environment.own?_define_self {env : Environment} {s : ScopeId} {n : Name} {r : Reference}
    (hs : s.index < env.scopes.size) (hfree : env.scopes.own? s n = none) :
    (env.define s n r).scopes.own? s n = some r := by
  unfold define
  rw [if_neg (by simp [hfree])]
  exact own?_bindIn_self hs

/-- What is bound after a name was bound in a scope is what was bound, or was bound before. -/
theorem Environment.own?_bindIn_cases {env : Environment} {s t : ScopeId} {n k : Name}
    {r r' : Reference} (hown : (env.bindIn t k r').scopes.own? s n = some r) :
    (s = t ∧ n = k ∧ r = r') ∨ env.scopes.own? s n = some r := by
  rcases Scopes.own?_update_cases hown with ⟨rfl, hown⟩ | hown
  · by_cases hn : n = k
    · subst hn
      rw [Scope.own?_bind_self] at hown
      exact .inl ⟨rfl, rfl, (Option.some.inj hown).symm⟩
    · exact .inr ((Scope.own?_bind_of_ne hn).symm.trans hown)
  · exact .inr hown

/-- What is bound after a name was defined is what was defined, or was bound before. -/
theorem Environment.own?_define_cases {env : Environment} {s t : ScopeId} {n k : Name}
    {r r' : Reference} (hown : (env.define t k r').scopes.own? s n = some r) :
    (s = t ∧ n = k ∧ r = r') ∨ env.scopes.own? s n = some r := by
  unfold define at hown
  split at hown
  · exact .inr hown
  · exact own?_bindIn_cases hown

end IslandScript
