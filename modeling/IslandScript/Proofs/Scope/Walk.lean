import IslandScript.Proofs.Scope.Graph

/-!
# Walks along scopes

Names are found by walking from a scope along its bases and outward along parents. As the language
means them, these walks have no bound: they go on as long as there is a scope to go to, which in a
graph with a cycle is forever. `MemberWalk`, `LookupWalk` and `InstanceWalk` describe those that
end.

Where the graph has no cycle, all of them end, and where they end is what the functions with a bound
on their steps compute.
-/

namespace IslandScript.Scopes

/-- A search for a member ends: at the first of an instance and its bases that binds the name, or
at an instance without a base. -/
inductive MemberWalk (g : Scopes) (n : Name) : ScopeId → Option ScopeId → Prop
  | own {s : ScopeId} {r : Reference} (hown : g.own? s n = some r) : MemberWalk g n s (some s)
  | base {s b : ScopeId} {found : Option ScopeId} (hown : g.own? s n = none)
      (hbase : g.base? s = some b) (h : MemberWalk g n b found) : MemberWalk g n s found
  | last {s : ScopeId} (hown : g.own? s n = none) (hbase : g.base? s = none) :
      MemberWalk g n s none

/-- A search for a name ends: at a scope or one of its bases, or else around that scope. -/
inductive LookupWalk (g : Scopes) (n : Name) : ScopeId → Option ScopeId → Prop
  | member {s t : ScopeId} (h : MemberWalk g n s (some t)) : LookupWalk g n s (some t)
  | outer {s p : ScopeId} {found : Option ScopeId} (hmember : MemberWalk g n s none)
      (hparent : (g.get s).parent = some p) (h : LookupWalk g n p found) : LookupWalk g n s found
  | last {s : ScopeId} (hmember : MemberWalk g n s none) (hparent : (g.get s).parent = none) :
      LookupWalk g n s none

/-- A search for the nearest instance ends: at a scope that is one, or else around that scope. -/
inductive InstanceWalk (g : Scopes) : ScopeId → Option ScopeId → Prop
  | here {s : ScopeId} {f : Frame} (hframe : (g.get s).frame = some f) : InstanceWalk g s (some s)
  | outer {s p : ScopeId} {found : Option ScopeId} (hframe : (g.get s).frame = none)
      (hparent : (g.get s).parent = some p) (h : InstanceWalk g p found) : InstanceWalk g s found
  | last {s : ScopeId} (hframe : (g.get s).frame = none) (hparent : (g.get s).parent = none) :
      InstanceWalk g s none

variable {g : Scopes} {n : Name} {s : ScopeId} {found found' : Option ScopeId}

/-- What holds of one thing only holds of that thing and no other. -/
theorem iff_eq_of_unique {α : Type} {P : α → Prop} {a b : α} (ha : P a)
    (hunique : ∀ {a b}, P a → P b → a = b) : P b ↔ b = a := by
  refine ⟨fun hb => hunique hb ha, ?_⟩
  rintro rfl
  exact ha

/-! ## Members -/

/-- A search ends in one way only. -/
theorem MemberWalk.unique (h : MemberWalk g n s found) (h' : MemberWalk g n s found') :
    found = found' := by
  induction h with
  | own hown =>
      cases h' with
      | own => rfl
      | base hown' => cases hown.symm.trans hown'
      | last hown' => cases hown.symm.trans hown'
  | base hown hbase _ ih =>
      cases h' with
      | own hown' => cases hown.symm.trans hown'
      | base _ hbase' h' =>
          cases hbase.symm.trans hbase'
          exact ih h'
      | last _ hbase' => cases hbase.symm.trans hbase'
  | last hown hbase =>
      cases h' with
      | own hown' => cases hown.symm.trans hown'
      | base _ hbase' => cases hbase.symm.trans hbase'
      | last => rfl

/-- With more steps than there are scopes to come to, the search with a bound comes to its end. -/
theorem memberWalk_within (hg : g.Acyclic) (n : Name) (steps : Nat) (s : ScopeId)
    (hs : g.rank s < steps) : MemberWalk g n s (g.memberHolderWithin n steps s) := by
  -- From the next scope there are fewer to come to, so the steps last until the walk ends.
  induction steps generalizing s with
  | zero => exact absurd hs (Nat.not_lt_zero _)
  | succ steps ih =>
      unfold memberHolderWithin
      split
      next hown =>
        obtain ⟨r, hr⟩ := Option.isSome_iff_exists.mp hown
        exact .own hr
      next hown =>
        have hnone : g.own? s n = none := Option.not_isSome_iff_eq_none.mp hown
        split
        next hbase => exact .last hnone hbase
        next b hbase =>
          have hb : g.rank b < g.rank s := hg.rank_lt (.inr hbase)
          exact .base hnone hbase (ih b (by omega))

theorem memberWalk_iff (hg : g.Acyclic) : MemberWalk g n s found ↔ found = g.memberHolder? s n :=
  iff_eq_of_unique (memberWalk_within hg n (g.size + 1) s (g.rank_lt_succ s)) MemberWalk.unique

/-- Where a member is found it is bound. -/
theorem MemberWalk.bound {t : ScopeId} (h : MemberWalk g n s (some t)) :
    ∃ r, g.own? t n = some r := by
  generalize hf : some t = found at h
  induction h with
  | own hown =>
      cases hf
      exact ⟨_, hown⟩
  | base _ _ _ ih => exact ih hf
  | last => cases hf

/-! ## Names -/

/-- A search ends in one way only. -/
theorem LookupWalk.unique (h : LookupWalk g n s found) (h' : LookupWalk g n s found') :
    found = found' := by
  induction h with
  | member hmember =>
      cases h' with
      | member hmember' => exact hmember.unique hmember'
      | outer hmember' => cases hmember.unique hmember'
      | last hmember' => cases hmember.unique hmember'
  | outer hmember hparent _ ih =>
      cases h' with
      | member hmember' => cases hmember.unique hmember'
      | outer _ hparent' h' =>
          cases hparent.symm.trans hparent'
          exact ih h'
      | last _ hparent' => cases hparent.symm.trans hparent'
  | last hmember hparent =>
      cases h' with
      | member hmember' => cases hmember.unique hmember'
      | outer _ hparent' => cases hparent.symm.trans hparent'
      | last => rfl

theorem lookupWalk_within (hg : g.Acyclic) (n : Name) (steps : Nat) (s : ScopeId)
    (hs : g.rank s < steps) : LookupWalk g n s (g.holderWithin n steps s) := by
  induction steps generalizing s with
  | zero => exact absurd hs (Nat.not_lt_zero _)
  | succ steps ih =>
      unfold holderWithin
      split
      next t hmember => exact .member ((memberWalk_iff hg).mpr hmember.symm)
      next hmember =>
        have hnone : MemberWalk g n s none := (memberWalk_iff hg).mpr hmember.symm
        split
        next hparent => exact .last hnone hparent
        next p hparent =>
          have hp : g.rank p < g.rank s := hg.rank_lt (.inl hparent)
          exact .outer hnone hparent (ih p (by omega))

theorem lookupWalk_iff (hg : g.Acyclic) : LookupWalk g n s found ↔ found = g.holder? s n :=
  iff_eq_of_unique (lookupWalk_within hg n (g.size + 1) s (g.rank_lt_succ s)) LookupWalk.unique

/-- Where a name is found it is bound. -/
theorem LookupWalk.bound {t : ScopeId} (h : LookupWalk g n s (some t)) :
    ∃ r, g.own? t n = some r := by
  generalize hf : some t = found at h
  induction h with
  | member hmember =>
      cases hf
      exact hmember.bound
  | outer _ _ _ ih => exact ih hf
  | last => cases hf

/-! ## Instances -/

/-- A search ends in one way only. -/
theorem InstanceWalk.unique (h : InstanceWalk g s found) (h' : InstanceWalk g s found') :
    found = found' := by
  induction h with
  | here hframe =>
      cases h' with
      | here => rfl
      | outer hframe' => cases hframe.symm.trans hframe'
      | last hframe' => cases hframe.symm.trans hframe'
  | outer hframe hparent _ ih =>
      cases h' with
      | here hframe' => cases hframe.symm.trans hframe'
      | outer _ hparent' h' =>
          cases hparent.symm.trans hparent'
          exact ih h'
      | last _ hparent' => cases hparent.symm.trans hparent'
  | last hframe hparent =>
      cases h' with
      | here hframe' => cases hframe.symm.trans hframe'
      | outer _ hparent' => cases hparent.symm.trans hparent'
      | last => rfl

theorem instanceWalk_within (hg : g.Acyclic) (steps : Nat) (s : ScopeId) (hs : g.rank s < steps) :
    InstanceWalk g s (g.instanceWithin steps s) := by
  induction steps generalizing s with
  | zero => exact absurd hs (Nat.not_lt_zero _)
  | succ steps ih =>
      unfold instanceWithin
      split
      next hframe =>
        obtain ⟨f, hf⟩ := Option.isSome_iff_exists.mp hframe
        exact .here hf
      next hframe =>
        have hnone : (g.get s).frame = none := Option.not_isSome_iff_eq_none.mp hframe
        split
        next hparent => exact .last hnone hparent
        next p hparent =>
          have hp : g.rank p < g.rank s := hg.rank_lt (.inl hparent)
          exact .outer hnone hparent (ih p (by omega))

theorem instanceWalk_iff (hg : g.Acyclic) : InstanceWalk g s found ↔ found = g.nearestInstance? s :=
  iff_eq_of_unique (instanceWalk_within hg (g.size + 1) s (g.rank_lt_succ s)) InstanceWalk.unique

end IslandScript.Scopes
