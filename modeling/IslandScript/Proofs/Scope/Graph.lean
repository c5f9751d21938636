import Mathlib.Data.Finset.Card
import Mathlib.Logic.Relation
import IslandScript.Proofs.Scope.Update

/-!
# The graph of scopes

A scope has links to its parent and, if it is an instance, to its base. As long as they form no
cycle (`Acyclic`), a walk along them ends: on each link there are fewer scopes left to come to
(`Acyclic.rank_lt`), and at first there are no more than were created (`rank_lt_succ`). Scopes that
were created in order, each after its parent and its base, form no cycle (`Ordered.acyclic`).
-/

namespace IslandScript.Scopes

variable {g : Scopes} {s t : ScopeId}

/-- A scope is the parent or the base of another. -/
abbrev Links (g : Scopes) (s t : ScopeId) : Prop :=
  (g.get s).parent = some t ∨ g.base? s = some t

/-- A scope is among the bases of another. -/
abbrev HasBase (g : Scopes) : ScopeId → ScopeId → Prop :=
  Relation.TransGen fun s b => g.base? s = some b

/-- From a scope one comes to another along parents and bases, in any order. -/
abbrev Leads (g : Scopes) : ScopeId → ScopeId → Prop := Relation.TransGen g.Links

/-- No scope leads back to itself. -/
def Acyclic (g : Scopes) : Prop := ∀ s, ¬ g.Leads s s

/-- Every scope was created after its parent and after its base. -/
structure Ordered (g : Scopes) : Prop where
  parent : ∀ {s p : ScopeId}, (g.get s).parent = some p → p.index < s.index
  base : ∀ {s b : ScopeId}, g.base? s = some b → b.index < s.index

/-- Only scopes that were created have a parent. -/
theorem created_of_parent {p : ScopeId} (h : (g.get s).parent = some p) : s.index < g.size := by
  -- An unused place reads as a scope that is inside no other.
  by_cases hs : s.index < g.size
  · exact hs
  · rw [get_of_size_le (Nat.le_of_not_lt hs)] at h
    cases h

/-- Only scopes that were created have a base. -/
theorem created_of_base {b : ScopeId} (h : g.base? s = some b) : s.index < g.size := by
  by_cases hs : s.index < g.size
  · exact hs
  · unfold base? at h
    rw [get_of_size_le (Nat.le_of_not_lt hs)] at h
    cases h

/-! ## Without cycles -/

section Rank

open scoped Classical

/-- How many scopes there are to come to from a scope, itself among them. -/
noncomputable def rank (g : Scopes) (s : ScopeId) : Nat :=
  ((Finset.range g.size).filter fun i => i = s.index ∨ g.Leads s ⟨i⟩).card

theorem rank_lt_succ (g : Scopes) (s : ScopeId) : g.rank s < g.size + 1 := by
  have hle := Finset.card_filter_le (Finset.range g.size) fun i => i = s.index ∨ g.Leads s ⟨i⟩
  rw [Finset.card_range] at hle
  exact Nat.lt_succ_of_le hle

/-- A link leads to where fewer scopes are to come to: the one it starts from is not among them. -/
theorem Acyclic.rank_lt (hg : g.Acyclic) (h : g.Links s t) : g.rank t < g.rank s := by
  have hs : s.index < g.size := h.elim created_of_parent created_of_base
  apply Finset.card_lt_card
  rw [Finset.ssubset_iff_of_subset]
  · refine ⟨s.index, by simp [hs], ?_⟩
    intro hmem
    rcases (Finset.mem_filter.mp hmem).2 with hsame | hback
    · obtain rfl : s = t := by
        cases s
        cases t
        cases hsame
        rfl
      exact hg s (.single h)
    · exact hg s (.head h hback)
  · intro i hi
    obtain ⟨hi, rfl | hleads⟩ := Finset.mem_filter.mp hi
    · exact Finset.mem_filter.mpr ⟨hi, .inr (.single h)⟩
    · exact Finset.mem_filter.mpr ⟨hi, .inr (.head h hleads)⟩

end Rank

/-! ## In order of creation -/

/-- A graph whose links all go down in some measure has no cycle. -/
theorem acyclic_of_lt {f : ScopeId → Nat} (h : ∀ {s t}, g.Links s t → f t < f s) :
    g.Acyclic := by
  have hlt : ∀ {s t}, g.Leads s t → f t < f s := by
    intro s t hleads
    induction hleads with
    | single hlink => exact h hlink
    | tail _ hlink ih => exact Nat.lt_trans (h hlink) ih
  intro s hs
  exact Nat.lt_irrefl _ (hlt hs)

theorem Ordered.link_lt (hg : g.Ordered) (h : g.Links s t) : t.index < s.index :=
  h.elim hg.parent hg.base

/-- The graph has no cycle, whatever kinds of links are followed. -/
theorem not_leads_self (hg : g.Ordered) (s : ScopeId) : ¬ g.Leads s s :=
  acyclic_of_lt hg.link_lt s

theorem Ordered.acyclic (hg : g.Ordered) : g.Acyclic := not_leads_self hg

end IslandScript.Scopes
