import IslandScript.Eval.Expression
import IslandScript.Proofs.Logic.Outcome
import IslandScript.Proofs.Scope.Borrow

/-!
# Cells

The cell of a name as seen from a scope is the first place that binds it: in the scope itself, then
along its bases, then outward in the same manner. A look-up reads this cell, and an assignment writes
it and no other. Since a write keeps which names are bound and how scopes are linked, every name has
the same cell afterwards.
-/

namespace IslandScript

open Eval

namespace Scopes

variable {g g' : Scopes} {s t : ScopeId} {n : Name} {v : Value} {r : Reference}

/-- A name and a scope that may bind it. -/
structure Cell where
  scope : ScopeId
  name : Name
  deriving DecidableEq

/-- What a cell holds. -/
def Cell.reference? (c : Cell) (g : Scopes) : Option Reference := g.own? c.scope c.name

/-- The cell of a name as seen from a scope is this one, or there is none: that is what a search for
the name comes to. -/
def CellOf (g : Scopes) (s : ScopeId) (n : Name) (c : Option Cell) : Prop :=
  ∃ found, g.LookupWalk n s found ∧ c = found.map fun t => ⟨t, n⟩

/-- The cell of a name as it is computed. -/
def cell? (g : Scopes) (s : ScopeId) (n : Name) : Option Cell :=
  (g.holder? s n).map fun t => ⟨t, n⟩

theorem cellOf_iff {c : Option Cell} (hg : g.Acyclic) : g.CellOf s n c ↔ c = g.cell? s n := by
  constructor
  · rintro ⟨found, hwalk, rfl⟩
    rw [(lookupWalk_iff hg).mp hwalk, cell?]
  · intro hc
    exact ⟨g.holder? s n, (lookupWalk_iff hg).mpr rfl, hc⟩

/-- A cell that was found holds something. -/
theorem CellOf.bound {c : Cell} (h : g.CellOf s n (some c)) : ∃ r, c.reference? g = some r := by
  obtain ⟨found, hwalk, hc⟩ := h
  obtain ⟨t, rfl, rfl⟩ := Option.map_eq_some_iff.mp hc.symm
  exact hwalk.bound

/-- A look-up reads the cell of the name. -/
theorem lookup?_eq (g : Scopes) (s : ScopeId) (n : Name) :
    g.lookup? s n = (g.cell? s n).bind fun c => (c.reference? g).map (·.value) := by
  unfold lookup? cell?
  cases g.holder? s n with
  | none => rfl
  | some t =>
      show (g.own? t n).bind _ = (g.own? t n).map _
      cases g.own? t n <;> rfl

/-! ## Graphs of one shape -/

/-- Two graphs have the same scopes, with the same links, and the same names are bound in them. -/
structure Alike (g g' : Scopes) : Prop where
  size : g'.size = g.size
  parent : ∀ s, (g'.get s).parent = (g.get s).parent
  base : ∀ s, g'.base? s = g.base? s
  own : ∀ s n, (g'.own? s n).isSome = (g.own? s n).isSome

theorem Alike.memberHolderWithin (h : g.Alike g') (n : Name) (steps : Nat) (s : ScopeId) :
    g'.memberHolderWithin n steps s = g.memberHolderWithin n steps s := by
  induction steps generalizing s with
  | zero => rfl
  | succ steps ih =>
      have hown : ((g'.get s).own? n).isSome = ((g.get s).own? n).isSome := h.own s n
      unfold Scopes.memberHolderWithin
      rw [hown, h.base s]
      cases g.base? s with
      | none => rfl
      | some b => simp only [ih b]

theorem Alike.holderWithin (h : g.Alike g') (n : Name) (steps : Nat) (s : ScopeId) :
    g'.holderWithin n steps s = g.holderWithin n steps s := by
  induction steps generalizing s with
  | zero => rfl
  | succ steps ih =>
      have hmember : g'.memberHolder? s n = g.memberHolder? s n := by
        unfold memberHolder?
        rw [h.size, h.memberHolderWithin]
      unfold Scopes.holderWithin
      rw [hmember, h.parent s]
      cases (g.get s).parent with
      | none => rfl
      | some p => simp only [ih p]

/-- In graphs of one shape every name has the same cell. -/
theorem Alike.cell?_eq (h : g.Alike g') (s : ScopeId) (n : Name) : g'.cell? s n = g.cell? s n := by
  unfold cell? holder?
  rw [h.size, h.holderWithin]

/-! ## Writing a cell -/

/-- A write changes the value in the cell that is written, and nothing that another cell holds. -/
theorem reference?_write (h : g.own? t n = some r) (v : Value) (c : Cell) :
    c.reference? (g.write t n v) =
      if c = ⟨t, n⟩ then some { r with value := v } else c.reference? g := by
  obtain ⟨u, k⟩ := c
  unfold Cell.reference? own? Scopes.write
  by_cases hu : u = t
  · subst hu
    rw [get_update_self (created_of_own h)]
    by_cases hk : k = n
    · subst hk
      have hown : (g.get u).own? k = some r := h
      rw [Scope.own?_write_self, hown, if_pos rfl]
      rfl
    · have hne : (⟨u, k⟩ : Cell) ≠ ⟨u, n⟩ := fun heq => hk (congrArg Cell.name heq)
      rw [Scope.own?_write_of_ne hk, if_neg hne]
  · have hne : (⟨u, k⟩ : Cell) ≠ ⟨t, n⟩ := fun heq => hu (congrArg Cell.scope heq)
    rw [get_update_of_ne hu, if_neg hne]

/-- A write keeps the shape of the graph. -/
theorem alike_write (h : g.own? t n = some r) (v : Value) : g.Alike (g.write t n v) where
  size := size_update _
  parent s := by
    show ((g.update t (·.write n v)).get s).parent = _
    rcases get_update_cases (g := g) (s := t) (·.write n v) s with ⟨-, hget⟩ | hget
    · rw [hget, Scope.write]
    · rw [hget]
  base s := by
    show ((g.update t (·.write n v)).get s).frame.bind _ = _
    rcases get_update_cases (g := g) (s := t) (·.write n v) s with ⟨-, hget⟩ | hget
    · rw [hget, Scope.write, base?]
    · rw [hget, base?]
  own s k := by
    show (Cell.reference? ⟨s, k⟩ (g.write t n v)).isSome = (Cell.reference? ⟨s, k⟩ g).isSome
    rw [reference?_write h]
    split
    next heq =>
      have hcell : Cell.reference? ⟨s, k⟩ g = some r := by
        rw [heq]
        exact h
      rw [hcell]
      rfl
    next => rfl

/-- After a write, a look-up gives the value that was written if it reads the cell that was written,
and else what it gave before. -/
theorem lookup?_write (hg : g.Acyclic) (h : g.own? t n = some r) (v : Value) (s : ScopeId)
    (k : Name) :
    (g.CellOf s k (some ⟨t, n⟩) → (g.write t n v).lookup? s k = some v) ∧
      (¬ g.CellOf s k (some ⟨t, n⟩) → (g.write t n v).lookup? s k = g.lookup? s k) := by
  rw [cellOf_iff hg, lookup?_eq, lookup?_eq, (alike_write h v).cell?_eq]
  cases g.cell? s k with
  | none => simp
  | some c =>
      simp only [Option.bind_some, reference?_write h, Option.some.injEq]
      constructor
      · rintro rfl
        rw [if_pos rfl]
        rfl
      · intro hne
        rw [if_neg (Ne.symm hne)]

/-! ## Assigning to a name -/

/-- What an assignment comes to in the cell of the name. -/
theorem assignable_eq_cell (g : Scopes) (s : ScopeId) (n : Name) :
    g.assignable s n = match g.cell? s n with
      | none => .error .undefined
      | some c => g.assignOwn c.scope c.name := by
  rw [assignable_eq, cell?]
  cases g.holder? s n <;> rfl

/-- What a cell, or that there is none, means for look-ups of a name and for assignments to it. -/
structure Assigns (g : Scopes) (s : ScopeId) (n : Name) (v : Value) (c : Option Cell) : Prop where
  /-- The cell is the one of the name, and no other is. -/
  only : ∀ c', g.CellOf s n c' ↔ c' = c
  /-- A look-up gives the value of the cell. -/
  found : ∀ cell, c = some cell →
    ∃ r, cell.reference? g = some r ∧ g.lookup? s n = some r.value
  missing : c = none → g.lookup? s n = none
  /-- An assignment fails without a cell, or if the cell is constant, and only then. -/
  undefined : g.assign s n v = .error .undefined ↔ c = none
  constant : g.assign s n v = .error .constant ↔
    ∃ cell r, c = some cell ∧ cell.reference? g = some r ∧ r.kind = .constant
  /-- An assignment of the language that fails leaves the state in which its value was computed. -/
  unchanged : ∀ {ev : Evaluator} {span : Span} {value : Expr Name} {before m : Interpreter}
    {e : AssignError}, ev.expr value before = .done v m → m.env.scopes = g → m.env.current = s →
    g.assign s n v = .error e → ∃ signal, Eval.assign ev span n value before = .raised signal m
  /-- Any other assignment succeeds: the cell holds the value, and whatever reads another cell, or
  none, reads the same as before. -/
  written : ∀ cell r, c = some cell → cell.reference? g = some r → r.kind ≠ .constant →
    ∃ g', g.assign s n v = .ok g' ∧
      (∀ c', c'.reference? g' =
        if c' = cell then some { r with value := v } else c'.reference? g) ∧
      ∀ t k, (g.CellOf t k c → g'.lookup? t k = some v) ∧
        (¬ g.CellOf t k c → g'.lookup? t k = g.lookup? t k)
  /-- The walk of the assignment ends so, whichever scopes it borrows. -/
  borrows : ∀ e, g.Assignment n [s] s e ↔ e = .result (g.assignable s n)

/-- Without a cell, an assignment fails as undefined. -/
theorem assign_of_none (h : g.cell? s n = none) (v : Value) :
    g.assign s n v = .error .undefined := by
  rw [assign, assignable_eq_cell, h]
  rfl

/-- An assignment to a constant cell fails. -/
theorem assign_of_constant {c : Cell} (h : g.cell? s n = some c) (hr : c.reference? g = some r)
    (hkind : r.kind = .constant) (v : Value) : g.assign s n v = .error .constant := by
  rw [assign, assignable_eq_cell, h]
  show (g.assignOwn c.scope c.name).map _ = _
  rw [assignOwn_of_some hr, if_pos hkind]
  rfl

/-- An assignment to any other cell writes it. -/
theorem assign_of_variable {c : Cell} (h : g.cell? s n = some c) (hr : c.reference? g = some r)
    (hkind : r.kind ≠ .constant) (v : Value) :
    g.assign s n v = .ok (g.write c.scope n v) := by
  rw [assign, assignable_eq_cell, h]
  show (g.assignOwn c.scope c.name).map _ = _
  rw [assignOwn_of_some hr, if_neg hkind]
  rfl

/-- An assignment of the language that cannot write leaves the state its value was computed in. -/
theorem raised_of_assign {ev : Evaluator} {span : Span} {value : Expr Name}
    {before m : Interpreter} {e : AssignError} (hvalue : ev.expr value before = .done v m)
    (h : m.env.scopes.assign m.env.current n v = .error e) :
    ∃ signal, Eval.assign ev span n value before = .raised signal m := by
  have hplace : m.env.scopes.assignable m.env.current n = .error e := by
    unfold assign at h
    cases hplace : m.env.scopes.assignable m.env.current n with
    | error e' =>
        rw [hplace] at h
        exact congrArg Except.error (Except.error.inj h)
    | ok t =>
        rw [hplace] at h
        cases h
  have hrun : Eval.assign ev span n value before = _ := bind_done hvalue
  rw [hplace] at hrun
  rw [hrun]
  cases e with
  | constant => exact ⟨_, rfl⟩
  | undefined => exact ⟨_, rfl⟩

/-- **An assignment writes the cell that a look-up reads.** -/
theorem Acyclic.assigns (hg : g.Acyclic) (s : ScopeId) (n : Name) (v : Value) :
    ∃ c, g.Assigns s n v c := by
  have hcell : g.CellOf s n (g.cell? s n) := (cellOf_iff hg).mpr rfl
  refine ⟨g.cell? s n, ?_⟩
  constructor
  case only => exact fun c' => cellOf_iff hg
  case borrows => exact fun e => assignment_iff hg
  case unchanged =>
    rintro ev span value before m e hvalue rfl rfl h
    exact raised_of_assign hvalue h
  case found =>
    intro c hc
    rw [hc] at hcell
    obtain ⟨r, hr⟩ := hcell.bound
    refine ⟨r, hr, ?_⟩
    rw [lookup?_eq, hc, Option.bind_some, hr]
    rfl
  case missing =>
    intro hc
    rw [lookup?_eq, hc]
    rfl
  case written =>
    intro c r hc hr hkind
    obtain ⟨t, -, rfl⟩ := Option.map_eq_some_iff.mp hc
    refine ⟨_, assign_of_variable hc hr hkind v, reference?_write hr v, ?_⟩
    rw [hc]
    exact lookup?_write hg hr v
  -- An assignment ends in one of three ways, which are told apart by what the cell is.
  case undefined =>
    cases hc : g.cell? s n with
    | none => simp [assign_of_none hc]
    | some c =>
        rw [hc] at hcell
        obtain ⟨r, hr⟩ := hcell.bound
        by_cases hkind : r.kind = .constant
        · simp [assign_of_constant hc hr hkind]
        · simp [assign_of_variable hc hr hkind]
  case constant =>
    cases hc : g.cell? s n with
    | none => simp [assign_of_none hc]
    | some c =>
        rw [hc] at hcell
        obtain ⟨r, hr⟩ := hcell.bound
        by_cases hkind : r.kind = .constant
        · simp [assign_of_constant hc hr hkind, hr, hkind]
        · simp [assign_of_variable hc hr hkind, hr, hkind]

/-- A scope inside an instance of a class, with a base that binds the name `⟨7⟩` as well as the scope
around the instance does. Each of them was created before what it is inside of or builds on. -/
def shadowing : Scopes :=
  #[.inside ⟨1⟩,
    ⟨[(⟨6⟩, .constant .null)], some ⟨3⟩, some ⟨⟨0⟩, some ⟨2⟩, none⟩⟩,
    ⟨[(⟨7⟩, ⟨.variable, true, .null⟩)], none, some ⟨⟨0⟩, none, none⟩⟩,
    ⟨[(⟨7⟩, ⟨.variable, true, .null⟩)], none, none⟩]

theorem shadowing_acyclic : shadowing.Acyclic := by
  apply acyclic_of_lt (f := fun s => 4 - s.index)
  rintro ⟨i⟩ t h
  have hi : i < 4 := h.elim created_of_parent created_of_base
  match i, hi with
  | 0, _ =>
      rcases h with h | h <;> cases h
      decide
  | 1, _ => rcases h with h | h <;> cases h <;> decide
  | 2, _ => exact h.elim nofun nofun
  | 3, _ => exact h.elim nofun nofun

/-- Assigning from the innermost scope writes the member of the base. The name of that member around
the instance keeps its value. -/
theorem shadowing_assigns :
    shadowing.Acyclic ∧ shadowing.cell? ⟨0⟩ ⟨7⟩ = some ⟨⟨2⟩, ⟨7⟩⟩ ∧
      shadowing.cell? ⟨3⟩ ⟨7⟩ = some ⟨⟨3⟩, ⟨7⟩⟩ ∧
      ∃ c, shadowing.Assigns ⟨0⟩ ⟨7⟩ (.bool true) c :=
  ⟨shadowing_acyclic, by decide, by decide, shadowing_acyclic.assigns ⟨0⟩ ⟨7⟩ (.bool true)⟩

end Scopes
end IslandScript
