import IslandScript.Proofs.Scope.Assign
import IslandScript.Proofs.Scope.Walk

/-!
# Assignments and borrowed scopes

An assignment walks like a search, but it writes: from the scope it starts in outward it holds every
scope it has come to mutably borrowed until it ends, and it borrows each base it asks for a member.
To borrow a scope that is borrowed is to panic. `MemberAssignment` and `Assignment` describe how the
walk ends, with the scopes held at hand and a panic as an end of its own.

Every scope that is held leads to the one at hand. Where the graph has no cycle, none of those it
goes on to leads back, so none of them is held: no assignment panics.
-/

namespace IslandScript.Scopes

/-- How a walk that borrows scopes ends. -/
inductive Ending where
  | result (r : Except AssignError ScopeId)
  | panic

/-- The end of a walk that found nothing to assign to. -/
abbrev Ending.undefined : Ending := .result (.error .undefined)

/-- An assignment to a member of an instance or its bases ends, while scopes are held. The instance
is borrowed to look at its own members, and once more for its base. -/
inductive MemberAssignment (g : Scopes) (n : Name) (held : List ScopeId) : ScopeId → Ending → Prop
  | panic {s : ScopeId} (hheld : s ∈ held) : MemberAssignment g n held s .panic
  | own {s : ScopeId} {r : Reference} (hfree : s ∉ held) (hown : g.own? s n = some r) :
      MemberAssignment g n held s (.result (g.assignOwn s n))
  | base {s b : ScopeId} {e : Ending} (hfree : s ∉ held) (hown : g.own? s n = none)
      (hbase : g.base? s = some b) (h : MemberAssignment g n held b e) :
      MemberAssignment g n held s e
  | last {s : ScopeId} (hfree : s ∉ held) (hown : g.own? s n = none) (hbase : g.base? s = none) :
      MemberAssignment g n held s .undefined

/-- An assignment to a name ends, while scopes are held, the one at hand among them. If neither the
scope nor its bases have the name, the scope around it is borrowed and held as well. -/
inductive Assignment (g : Scopes) (n : Name) : List ScopeId → ScopeId → Ending → Prop
  | own {held : List ScopeId} {s : ScopeId} {r : Reference} (hown : g.own? s n = some r) :
      Assignment g n held s (.result (g.assignOwn s n))
  | base {held : List ScopeId} {s b : ScopeId} {e : Ending} (hown : g.own? s n = none)
      (hbase : g.base? s = some b) (h : MemberAssignment g n held b e) (he : e ≠ .undefined) :
      Assignment g n held s e
  | panic {held : List ScopeId} {s p : ScopeId} (hown : g.own? s n = none)
      (hbase : ∀ b, g.base? s = some b → MemberAssignment g n held b .undefined)
      (hparent : (g.get s).parent = some p) (hheld : p ∈ held) : Assignment g n held s .panic
  | outer {held : List ScopeId} {s p : ScopeId} {e : Ending} (hown : g.own? s n = none)
      (hbase : ∀ b, g.base? s = some b → MemberAssignment g n held b .undefined)
      (hparent : (g.get s).parent = some p) (hfree : p ∉ held)
      (h : Assignment g n (p :: held) p e) : Assignment g n held s e
  | last {held : List ScopeId} {s : ScopeId} (hown : g.own? s n = none)
      (hbase : ∀ b, g.base? s = some b → MemberAssignment g n held b .undefined)
      (hparent : (g.get s).parent = none) : Assignment g n held s .undefined

variable {g : Scopes} {n : Name} {held : List ScopeId} {s : ScopeId} {found : Option ScopeId}
  {e e' : Ending}

/-! ## One end only -/

theorem MemberAssignment.unique (h : MemberAssignment g n held s e)
    (h' : MemberAssignment g n held s e') : e = e' := by
  induction h with
  | panic hheld =>
      cases h' with
      | panic => rfl
      | own hfree => exact absurd hheld hfree
      | base hfree => exact absurd hheld hfree
      | last hfree => exact absurd hheld hfree
  | own hfree hown =>
      cases h' with
      | panic hheld => exact absurd hheld hfree
      | own => rfl
      | base _ hown' => cases hown.symm.trans hown'
      | last _ hown' => cases hown.symm.trans hown'
  | base hfree hown hbase _ ih =>
      cases h' with
      | panic hheld => exact absurd hheld hfree
      | own _ hown' => cases hown.symm.trans hown'
      | base _ _ hbase' h' =>
          cases hbase.symm.trans hbase'
          exact ih h'
      | last _ _ hbase' => cases hbase.symm.trans hbase'
  | last hfree hown hbase =>
      cases h' with
      | panic hheld => exact absurd hheld hfree
      | own _ hown' => cases hown.symm.trans hown'
      | base _ _ hbase' => cases hbase.symm.trans hbase'
      | last => rfl

/-- If one walk ends among the bases, with or without a panic, every walk does. -/
theorem Assignment.base_unique {b : ScopeId} (hbase : g.base? s = some b)
    (h : MemberAssignment g n held b e) (he : e ≠ .undefined)
    (hnone : ∀ b, g.base? s = some b → MemberAssignment g n held b .undefined) : False :=
  he (h.unique (hnone b hbase))

theorem Assignment.unique (h : Assignment g n held s e) (h' : Assignment g n held s e') :
    e = e' := by
  induction h with
  | own hown =>
      cases h' with
      | own => rfl
      | base hown' => cases hown.symm.trans hown'
      | panic hown' => cases hown.symm.trans hown'
      | outer hown' => cases hown.symm.trans hown'
      | last hown' => cases hown.symm.trans hown'
  | base hown hbase h he =>
      cases h' with
      | own hown' => cases hown.symm.trans hown'
      | base _ hbase' h' =>
          cases hbase.symm.trans hbase'
          exact h.unique h'
      | panic _ hnone => exact (base_unique hbase h he hnone).elim
      | outer _ hnone => exact (base_unique hbase h he hnone).elim
      | last _ hnone => exact (base_unique hbase h he hnone).elim
  | panic hown hnone hparent hheld =>
      cases h' with
      | own hown' => cases hown.symm.trans hown'
      | base _ hbase h' he => exact (base_unique hbase h' he hnone).elim
      | panic => rfl
      | outer _ _ hparent' hfree =>
          cases hparent.symm.trans hparent'
          exact absurd hheld hfree
      | last _ _ hparent' => cases hparent.symm.trans hparent'
  | outer hown hnone hparent hfree _ ih =>
      cases h' with
      | own hown' => cases hown.symm.trans hown'
      | base _ hbase h' he => exact (base_unique hbase h' he hnone).elim
      | panic _ _ hparent' hheld =>
          cases hparent.symm.trans hparent'
          exact absurd hheld hfree
      | outer _ _ hparent' _ h' =>
          cases hparent.symm.trans hparent'
          exact ih h'
      | last _ _ hparent' => cases hparent.symm.trans hparent'
  | last hown hnone hparent =>
      cases h' with
      | own hown' => cases hown.symm.trans hown'
      | base _ hbase h' he => exact (base_unique hbase h' he hnone).elim
      | panic _ _ hparent' => cases hparent.symm.trans hparent'
      | outer _ _ hparent' => cases hparent.symm.trans hparent'
      | last => rfl

/-! ## No panic -/

/-- A scope that all scopes held lead to is not held. -/
theorem Acyclic.not_mem (hg : g.Acyclic) (hheld : ∀ u ∈ held, g.Leads u s) : s ∉ held := by
  intro hs
  exact hg s (hheld s hs)

/-- Where a search for a member ends, an assignment to it ends without a panic, provided that all
scopes held lead to the instance. -/
theorem MemberWalk.assignment (hg : g.Acyclic) (h : MemberWalk g n s found)
    (hheld : ∀ u ∈ held, g.Leads u s) :
    MemberAssignment g n held s (.result (g.assignFound n found)) := by
  induction h with
  | own hown => exact .own (hg.not_mem hheld) hown
  | base hown hbase _ ih =>
      apply MemberAssignment.base (hg.not_mem hheld) hown hbase
      apply ih
      intro u hu
      exact (hheld u hu).tail (.inr hbase)
  | last hown hbase => exact .last (hg.not_mem hheld) hown hbase

/-- Whatever comes to a scope comes to where a link from there leads. -/
theorem leads_of_link {t : ScopeId} (hlink : g.Links s t)
    (hheld : ∀ u ∈ held, Relation.ReflTransGen g.Links u s) : ∀ u ∈ held, g.Leads u t := by
  intro u hu
  exact .tail' (hheld u hu) hlink

/-- With a scope held as well, all that is held still comes to it. -/
theorem comes_held_cons (hheld : ∀ u ∈ held, g.Leads u s) :
    ∀ u ∈ s :: held, Relation.ReflTransGen g.Links u s := by
  intro u hu
  cases hu with
  | head => exact .refl
  | tail _ hu => exact (hheld u hu).to_reflTransGen

/-- What the walk of an assignment does with the bases of a scope that have no such member. -/
theorem MemberWalk.no_base (hg : g.Acyclic) (h : MemberWalk g n s none)
    (hheld : ∀ u ∈ held, Relation.ReflTransGen g.Links u s) :
    g.own? s n = none ∧ ∀ b, g.base? s = some b → MemberAssignment g n held b .undefined := by
  cases h with
  | base hown hbase h =>
      refine ⟨hown, ?_⟩
      intro b hb
      cases hbase.symm.trans hb
      exact h.assignment hg (leads_of_link (.inr hb) hheld)
  | last hown hbase => exact ⟨hown, fun b hb => nomatch hbase.symm.trans hb⟩

/-- **No assignment panics.** Where a search for a name ends, an assignment to it ends without a
panic, provided that all scopes held come to the one it starts in. -/
theorem LookupWalk.assignment (hg : g.Acyclic) (h : LookupWalk g n s found)
    (hheld : ∀ u ∈ held, Relation.ReflTransGen g.Links u s) :
    Assignment g n held s (.result (g.assignFound n found)) := by
  -- The scopes held grow on the way outward, so the induction is over all of them.
  induction h generalizing held with
  | member h =>
      cases h with
      | own hown => exact .own hown
      | base hown hbase h =>
          obtain ⟨r, hr⟩ := h.bound
          have hend := h.assignment hg (leads_of_link (.inr hbase) hheld)
          apply Assignment.base hown hbase hend
          intro he
          exact assignFound_some_ne hr (Ending.result.inj he)
  | outer h hparent _ ih =>
      obtain ⟨hown, hbase⟩ := h.no_base hg hheld
      have hlead := leads_of_link (.inl hparent) hheld
      exact .outer hown hbase hparent (hg.not_mem hlead) (ih (comes_held_cons hlead))
  | last h hparent =>
      obtain ⟨hown, hbase⟩ := h.no_base hg hheld
      exact .last hown hbase hparent

theorem memberAssignment_iff (hg : g.Acyclic) :
    MemberAssignment g n [] s e ↔ e = .result (g.assignFound n (g.memberHolder? s n)) := by
  have hwalk : MemberWalk g n s (g.memberHolder? s n) := (memberWalk_iff hg).mpr rfl
  exact iff_eq_of_unique (hwalk.assignment hg fun _ hu => nomatch hu) MemberAssignment.unique

/-- An assignment that starts with nothing but the scope at hand borrowed ends in one way: with what
a name can be assigned to. -/
theorem assignment_iff (hg : g.Acyclic) :
    Assignment g n [s] s e ↔ e = .result (g.assignable s n) := by
  have hwalk : LookupWalk g n s (g.holder? s n) := (lookupWalk_iff hg).mpr rfl
  rw [assignable_eq]
  have hheld : ∀ u ∈ [s], Relation.ReflTransGen g.Links u s := comes_held_cons (nofun)
  exact iff_eq_of_unique (hwalk.assignment hg hheld) Assignment.unique

/-! ## The scopes held -/

/-- An assignment that started at a scope has come to another, and holds all scopes on its way. -/
inductive Holding (g : Scopes) (s : ScopeId) : List ScopeId → ScopeId → Prop
  | start : Holding g s [s] s
  | outer {held : List ScopeId} {t p : ScopeId} (h : Holding g s held t)
      (hparent : (g.get t).parent = some p) : Holding g s (p :: held) p

theorem HasBase.leads {b : ScopeId} (h : g.HasBase s b) : g.Leads s b :=
  Relation.TransGen.mono (fun _ _ => .inr) s b h

/-- What is held comes to the scope at hand. -/
theorem Holding.comes {t : ScopeId} (h : g.Holding s held t) :
    ∀ u ∈ held, Relation.ReflTransGen g.Links u t := by
  induction h with
  | start => exact comes_held_cons (fun _ hu => nomatch hu)
  | outer _ hparent ih => exact comes_held_cons (leads_of_link (.inl hparent) ih)

/-- None of the scopes held is among the bases that are asked next, or the parent gone to next. -/
theorem Holding.apart (hg : g.Acyclic) {t : ScopeId} (h : g.Holding s held t) :
    (∀ b, g.HasBase t b → b ∉ held) ∧ ∀ p, (g.get t).parent = some p → p ∉ held := by
  constructor
  · intro b hb hin
    exact hg b (.trans_right (h.comes b hin) hb.leads)
  · intro p hp
    exact hg.not_mem (leads_of_link (.inl hp) h.comes)

/-- Every walk along scopes ends, and in one way: with what the functions with a bound compute. No
assignment ends with a panic: what it borrows next is not among the scopes it holds. -/
structure WalksEnd (g : Scopes) : Prop where
  lookup : ∀ s n found, g.LookupWalk n s found ↔ found = g.holder? s n
  member : ∀ s n found, g.MemberWalk n s found ↔ found = g.memberHolder? s n
  nearest : ∀ s found, g.InstanceWalk s found ↔ found = g.nearestInstance? s
  assign : ∀ s n e, g.Assignment n [s] s e ↔ e = .result (g.assignable s n)
  assignMember : ∀ s n e,
    g.MemberAssignment n [] s e ↔ e = .result (g.assignFound n (g.memberHolder? s n))
  apart : ∀ s held t, g.Holding s held t →
    (∀ b, g.HasBase t b → b ∉ held) ∧ ∀ p, (g.get t).parent = some p → p ∉ held

theorem Acyclic.walksEnd (hg : g.Acyclic) : g.WalksEnd where
  lookup _ _ _ := lookupWalk_iff hg
  member _ _ _ := memberWalk_iff hg
  nearest _ _ := instanceWalk_iff hg
  assign _ _ _ := assignment_iff hg
  assignMember _ _ _ := memberAssignment_iff hg
  apart _ _ _ h := h.apart hg

theorem Ordered.walksEnd (hg : g.Ordered) : g.WalksEnd := hg.acyclic.walksEnd

end IslandScript.Scopes
