import Mathlib.Data.List.Forall2
import Mathlib.Data.List.Perm.Subperm
import Mathlib.Logic.Relation
import IslandScript.Proofs.Number.Equality
import IslandScript.Value.Equality

/-!
# Equality is bisimilarity

A list may hold itself, so equal lists are not those with the same tree of contents: the trees may be
endless. They are the bisimilar ones, those that some relation pairs whose pairs have equal contents
again. The comparison of tables finds that out. It takes the pairs under comparison to be equal, so
what it decides at each stage is bisimilarity up to these pairs (`equalUnder_iff`); a pair may be
added to them as soon as its contents are looked at (`bisimilarUpTo_iff`). When no pair is left and
nothing that is not a number can be come to, this is bisimilarity itself.
-/

namespace IslandScript

/-! ## Equality of values and tables up to a relation of lists -/

/-- Values are equal up to a relation of lists: plain data by value, lists by the relation, all
others if they are the same. -/
inductive Value.EqualUpTo (R : TableId → TableId → Prop) : Value → Value → Prop where
  | unit : EqualUpTo R .unit .unit
  | null : EqualUpTo R .null .null
  | bool (b : Bool) : EqualUpTo R (.bool b) (.bool b)
  | number {m n : Float} (h : (m == n) = true) : EqualUpTo R (.number m) (.number n)
  | string (s : String) : EqualUpTo R (.string s) (.string s)
  | list {a b : TableId} (h : R a b) : EqualUpTo R (.list a) (.list b)
  | function (f : FunctionId) : EqualUpTo R (.function f) (.function f)
  | cls (c : ClassId) : EqualUpTo R (.cls c) (.cls c)
  | inst (s : ScopeId) : EqualUpTo R (.inst s) (.inst s)

namespace Value

variable {R S : TableId → TableId → Prop}

/-- Equality of values over an equality of lists is equality up to it. -/
theorem equalBy_iff {same : TableId → TableId → Bool} {v w : Value} :
    v.equalBy same w = true ↔ EqualUpTo (fun a b => same a b = true) v w := by
  constructor
  · fun_cases Value.equalBy same v w
    case case1 => exact fun _ => .unit
    case case2 => exact fun _ => .null
    case case4 => exact .number
    case case6 => exact fun h => .list h
    case case10 => exact fun h => absurd h Bool.false_ne_true
    all_goals
      intro h
      cases eq_of_beq h
      constructor
  · rintro (_ | _ | _ | h | _ | h | _ | _ | _) <;> simp [Value.equalBy, *]

/-- Only the lists of two values matter to whether they are equal up to a relation. -/
theorem EqualUpTo.imp {v w : Value} (h : EqualUpTo R v w)
    (hRS : ∀ a b, v = .list a → R a b → S a b) : EqualUpTo S v w := by
  cases h with
  | number h => exact .number h
  | list h => exact .list (hRS _ _ rfl h)
  | _ => constructor

/-- A value is equal to itself up to a relation that has its list with itself, unless it is the
number that is not one. -/
theorem EqualUpTo.refl {v : Value} (hnumber : ∀ n, v = .number n → n.isNaN = false)
    (hlist : ∀ a, v = .list a → R a a) : EqualUpTo R v v := by
  cases v with
  | number n => exact .number (Number.beq_self (hnumber n rfl))
  | list a => exact .list (hlist a rfl)
  | _ => constructor

theorem EqualUpTo.symm {v w : Value} (h : EqualUpTo R v w) : EqualUpTo (flip R) w v := by
  cases h with
  | number h => exact .number (Number.beq_symm h)
  | list h => exact .list h
  | _ => constructor

theorem EqualUpTo.trans {u v w : Value} (huv : EqualUpTo R u v) (hvw : EqualUpTo S v w) :
    EqualUpTo (Relation.Comp R S) u w := by
  cases huv with
  | number h =>
      cases hvw with
      | number h' => exact .number (Number.beq_trans h h')
  | list h =>
      cases hvw with
      | list h' => exact .list ⟨_, h, h'⟩
  | _ => cases hvw; constructor

end Value

namespace Table

variable {R S : TableId → TableId → Prop} {A B C : Table}

/-- Two tables are alike up to a relation of lists: as many elements, the same keys, and at each
place values that are equal up to it. -/
structure Alike (R : TableId → TableId → Prop) (A B : Table) : Prop where
  items : List.Forall₂ (Value.EqualUpTo R) A.items.toList B.items.toList
  keys : ∀ k, Option.Rel (Value.EqualUpTo R) (A.key? k) (B.key? k)

/-- A value stands in a table, as an element or under a key. -/
def Holds (A : Table) (v : Value) : Prop := v ∈ A.items.toList ∨ ∃ k, A.key? k = some v

/-- Only the lists that the tables hold matter to whether they are alike. -/
theorem Alike.imp (h : Alike R A B) (hRS : ∀ a b, A.Holds (.list a) → R a b → S a b) :
    Alike S A B where
  items := by
    obtain ⟨hlength, hitems⟩ := List.forall₂_iff_zip.mp h.items
    refine List.forall₂_iff_zip.mpr ⟨hlength, fun {v w} hmem => (hitems hmem).imp ?_⟩
    rintro a b rfl
    exact hRS a b (.inl (List.of_mem_zip hmem).1)
  keys k :=
    match hA : A.key? k, B.key? k, h.keys k with
    | none, none, .none => .none
    | some _, some _, .some hvw =>
        .some (hvw.imp fun a b hv => hRS a b (.inr ⟨k, hA.trans (congrArg some hv)⟩))

theorem Alike.refl (hnumber : ∀ n, A.Holds (.number n) → n.isNaN = false)
    (hlist : ∀ a, A.Holds (.list a) → R a a) : Alike R A A where
  items := List.forall₂_same.mpr fun v hv =>
    .refl (fun n h => hnumber n (.inl (h ▸ hv))) (fun a h => hlist a (.inl (h ▸ hv)))
  keys k := by
    cases hA : A.key? k with
    | none => exact .none
    | some v =>
        exact .some (.refl (fun n h => hnumber n (.inr ⟨k, h ▸ hA⟩))
          (fun a h => hlist a (.inr ⟨k, h ▸ hA⟩)))

theorem Alike.symm (h : Alike R A B) : Alike (flip R) B A where
  items := (h.items.imp fun _ _ => .symm).flip
  keys k :=
    match A.key? k, B.key? k, h.keys k with
    | none, none, .none => .none
    | some _, some _, .some hvw => .some hvw.symm

theorem Alike.trans (hAB : Alike R A B) (hBC : Alike S B C) : Alike (Relation.Comp R S) A C where
  items := by
    obtain ⟨hlength, hitems⟩ := List.forall₂_iff_get.mp hAB.items
    obtain ⟨hlength', hitems'⟩ := List.forall₂_iff_get.mp hBC.items
    refine List.forall₂_iff_get.mpr ⟨hlength.trans hlength', fun i hA hC => ?_⟩
    have hB : i < B.items.toList.length := hlength ▸ hA
    exact (hitems i hA hB).trans (hitems' i hB hC)
  keys k :=
    match A.key? k, B.key? k, C.key? k, hAB.keys k, hBC.keys k with
    | none, none, none, .none, .none => .none
    | some _, some _, some _, .some huv, .some hvw => .some (huv.trans hvw)

/-! ## What the comparison of two tables compares -/

/-- As no key occurs twice, a value that stands beside a key is the value under it. -/
theorem key?_eq_some_iff {k : String} {v : Value} : A.key? k = some v ↔ (k, v) ∈ A.entries := by
  obtain ⟨items, entries, hnodup⟩ := A
  unfold key?
  dsimp only
  induction entries with
  | nil => simp
  | cons entry rest ih =>
      obtain ⟨k', v'⟩ := entry
      rw [List.map_cons, List.nodup_cons] at hnodup
      obtain ⟨hnotMem, hnodup⟩ := hnodup
      by_cases hk : k = k'
      · subst hk
        have hrest : (k, v) ∉ rest := fun h => hnotMem (List.mem_map.mpr ⟨(k, v), h, rfl⟩)
        simp [hrest, eq_comm]
      · have hbeq : (k == k') = false := beq_eq_false_iff_ne.mpr hk
        simp [List.lookup_cons, hbeq, hk, ih hnodup]

/-- There is a value under each key of a table, and under no other. -/
theorem mem_keys_iff {k : String} : k ∈ A.entries.map Prod.fst ↔ ∃ v, A.key? k = some v := by
  simp [key?_eq_some_iff]

theorem itemsEqual_iff {equal : Value → Value → Bool} {vs ws : List Value} :
    Tables.itemsEqual equal vs ws = true ↔ List.Forall₂ (fun v w => equal v w = true) vs ws := by
  induction vs generalizing ws with
  | nil => cases ws <;> simp [Tables.itemsEqual]
  | cons v vs ih => cases ws <;> simp [Tables.itemsEqual, ih]

theorem entriesWithin_iff {equal : Value → Value → Bool} :
    Tables.entriesWithin equal A.entries B.entries = true ↔
      ∀ k v, A.key? k = some v → ∃ w, B.key? k = some w ∧ equal v w = true := by
  simp only [Tables.entriesWithin, List.all_eq_true, Prod.forall, ← key?_eq_some_iff,
    Option.any_eq_true]
  rfl

/-- As many entries, each with an equal value under its key in the other table: then the keys are the
same. -/
theorem entriesEqual_iff {equal : Value → Value → Bool} :
    (A.entries.length = B.entries.length ∧
      Tables.entriesWithin equal A.entries B.entries = true) ↔
    ∀ k, Option.Rel (fun v w => equal v w = true) (A.key? k) (B.key? k) := by
  rw [entriesWithin_iff]
  constructor
  · rintro ⟨hlength, hwithin⟩ k
    have hsub : A.entries.map Prod.fst ⊆ B.entries.map Prod.fst := by
      intro k hk
      obtain ⟨v, hv⟩ := mem_keys_iff.mp hk
      obtain ⟨w, hw, -⟩ := hwithin k v hv
      exact mem_keys_iff.mpr ⟨w, hw⟩
    have hperm := (A.keys_nodup.subperm hsub).perm_of_length_le (by simp [hlength])
    cases hA : A.key? k with
    | some v =>
        obtain ⟨w, hw, hequal⟩ := hwithin k v hA
        rw [hw]
        exact .some hequal
    | none =>
        cases hB : B.key? k with
        | none => exact .none
        | some w =>
            obtain ⟨v, hv⟩ := mem_keys_iff.mp (hperm.mem_iff.mpr (mem_keys_iff.mpr ⟨w, hB⟩))
            cases hA.symm.trans hv
  · intro h
    have hkeys : ∀ k, k ∈ A.entries.map Prod.fst ↔ k ∈ B.entries.map Prod.fst := by
      intro k
      rw [mem_keys_iff, mem_keys_iff]
      exact match A.key? k, B.key? k, h k with
        | none, none, .none => by simp
        | some _, some _, .some _ => by simp
    have hperm := (List.perm_ext_iff_of_nodup A.keys_nodup B.keys_nodup).mpr hkeys
    refine ⟨by simpa using hperm.length_eq, fun k v hv => ?_⟩
    exact match A.key? k, B.key? k, h k, hv with
      | some _, some w, .some hequal, rfl => ⟨w, rfl, hequal⟩

/-- The comparison of tables over an equality of lists finds them alike up to it. -/
theorem contentsEqual_iff {same : TableId → TableId → Bool} :
    Tables.contentsEqual (Value.equalBy same) A B = true ↔
      Alike (fun a b => same a b = true) A B := by
  have hkeys := @entriesEqual_iff A B (Value.equalBy same)
  simp only [Value.equalBy_iff] at hkeys
  simp only [Tables.contentsEqual, Bool.and_eq_true, beq_iff_eq, itemsEqual_iff,
    Value.equalBy_iff, hkeys]
  constructor
  · rintro ⟨⟨-, hitems⟩, hkeys⟩
    exact ⟨hitems, hkeys⟩
  · rintro ⟨hitems, hkeys⟩
    exact ⟨⟨by simpa using hitems.length_eq, hitems⟩, hkeys⟩

end Table

namespace Tables

variable {ts : Tables}

/-! ## Bisimilarity -/

/-- A relation of lists is a bisimulation if the lists that it pairs are alike up to it. -/
def Bisimulation (ts : Tables) (R : TableId → TableId → Prop) : Prop :=
  ∀ a b, R a b → (ts.get a).Alike R (ts.get b)

/-- Two lists are bisimilar if a bisimulation pairs them: as many elements, the same keys, and at
each place equal values or lists that are bisimilar again. -/
def Bisimilar (ts : Tables) (a b : TableId) : Prop := ∃ R, ts.Bisimulation R ∧ R a b

theorem Bisimilar.symm {a b : TableId} : ts.Bisimilar a b → ts.Bisimilar b a := by
  rintro ⟨R, hR, hab⟩
  exact ⟨flip R, fun _ _ h => (hR _ _ h).symm, hab⟩

theorem Bisimilar.trans {a b c : TableId} :
    ts.Bisimilar a b → ts.Bisimilar b c → ts.Bisimilar a c := by
  rintro ⟨R, hR, hab⟩ ⟨S, hS, hbc⟩
  refine ⟨Relation.Comp R S, ?_, b, hab, hbc⟩
  rintro x z ⟨y, hxy, hyz⟩
  exact (hR x y hxy).trans (hS y z hyz)

/-! ## Bisimilarity up to the pairs under comparison -/

/-- Two lists are bisimilar up to some pairs if a relation pairs them whose pairs are one list, or
among these pairs, or alike up to it. -/
def BisimilarUpTo (ts : Tables) (active : List (TableId × TableId)) (a b : TableId) : Prop :=
  ∃ R : TableId → TableId → Prop, R a b ∧
    ∀ x y, R x y → x = y ∨ (x, y) ∈ active ∨ (ts.get x).Alike R (ts.get y)

/-- Bisimilarity up to pairs is itself a relation of the kind that defines it. -/
theorem BisimilarUpTo.unfold {active : List (TableId × TableId)} {a b : TableId}
    (h : ts.BisimilarUpTo active a b) :
    a = b ∨ (a, b) ∈ active ∨ (ts.get a).Alike (ts.BisimilarUpTo active) (ts.get b) := by
  obtain ⟨R, hab, hR⟩ := h
  rcases hR a b hab with h | h | h
  · exact .inl h
  · exact .inr (.inl h)
  · exact .inr (.inr (h.imp fun x y _ hxy => ⟨R, hxy, hR⟩))

theorem BisimilarUpTo.mono {active active' : List (TableId × TableId)} {a b : TableId}
    (h : ts.BisimilarUpTo active a b) (hsub : active ⊆ active') : ts.BisimilarUpTo active' a b := by
  obtain ⟨R, hab, hR⟩ := h
  refine ⟨R, hab, fun x y hxy => ?_⟩
  exact (hR x y hxy).imp_right (Or.imp_left fun hmem => hsub hmem)

/-- A pair may count as known while its contents are compared. -/
theorem bisimilarUpTo_iff {active : List (TableId × TableId)} {a b : TableId} :
    ts.BisimilarUpTo active a b ↔
      a = b ∨ (a, b) ∈ active ∨
        (ts.get a).Alike (ts.BisimilarUpTo ((a, b) :: active)) (ts.get b) := by
  constructor
  · intro h
    refine h.unfold.imp_right (Or.imp_right fun halike => ?_)
    exact halike.imp fun x y _ hxy => hxy.mono (List.subset_cons_self _ _)
  · intro h
    -- The relation that has the pair for known is one that need not: what it is spared there is
    -- what the hypothesis gives.
    refine ⟨ts.BisimilarUpTo ((a, b) :: active), ?_, fun x y hxy => ?_⟩
    · exact ⟨fun x y => x = a ∧ y = b, ⟨rfl, rfl⟩, by
        rintro x y ⟨rfl, rfl⟩
        exact .inr (.inl List.mem_cons_self)⟩
    · rcases hxy.unfold with hxy | hxy | hxy
      · exact .inl hxy
      · rcases List.mem_cons.mp hxy with hxy | hxy
        · cases hxy
          exact h
        · exact .inr (.inl hxy)
      · exact .inr (.inr hxy)

/-- At a place without a table nothing is held. -/
theorem not_holds_of_size_le {a : TableId} {v : Value} (h : ts.size ≤ a.index) :
    ¬ (ts.get a).Holds v := by
  have hget : ts.get a = default := by
    unfold get
    rw [Array.getElem?_eq_none h]
    rfl
  rw [hget]
  rintro (hmem | ⟨k, hk⟩)
  · cases hmem
  · cases hk

/-- Where one of two places has no table it does not matter how lists are related. -/
theorem alike_of_unplaced {R S : TableId → TableId → Prop} {a b : TableId}
    (h : ¬(a.index < ts.size ∧ b.index < ts.size)) (halike : (ts.get a).Alike R (ts.get b)) :
    (ts.get a).Alike S (ts.get b) := by
  rcases Decidable.not_and_iff_or_not.mp h with ha | hb
  · exact halike.imp fun _ _ hheld => absurd hheld (not_holds_of_size_le (Nat.le_of_not_lt ha))
  · refine Table.Alike.symm (R := flip S) (halike.symm.imp fun _ _ hheld => ?_)
    exact absurd hheld (not_holds_of_size_le (Nat.le_of_not_lt hb))

/-- What is decided while some pairs are under comparison is bisimilarity up to them. -/
theorem equalUnder_iff {active : List (TableId × TableId)} {a b : TableId} :
    equalUnder ts active a b = true ↔ ts.BisimilarUpTo active a b := by
  -- The comparison ends because fewer pairs are left each time, and so does this proof.
  induction hn : (ts.pending active).length using Nat.strongRecOn generalizing active a b with
  | ind n ih =>
      rw [bisimilarUpTo_iff, equalUnder]
      by_cases hknown : a = b ∨ (a, b) ∈ active
      · rw [dif_pos hknown, ← or_assoc]
        exact iff_of_true rfl (.inl hknown)
      rw [dif_neg hknown, ← or_assoc, or_iff_right hknown]
      by_cases hplaced : a.index < ts.size ∧ b.index < ts.size
      · have hfewer : (ts.pending ((a, b) :: active)).length < n :=
          hn ▸ length_pending_cons (mem_pending.mpr ⟨hplaced, fun h => hknown (.inr h)⟩)
        rw [dif_pos hplaced, Table.contentsEqual_iff]
        simp only [ih _ hfewer rfl]
      · rw [dif_neg hplaced, Table.contentsEqual_iff]
        exact ⟨alike_of_unplaced hplaced, alike_of_unplaced hplaced⟩

/-! ## Without what is not a number -/

/-- One list holds the other, directly or through lists that it holds. -/
def Reaches (ts : Tables) : TableId → TableId → Prop :=
  Relation.ReflTransGen fun a b => (ts.get a).Holds (.list b)

/-- From a list nothing can be reached that is not a number. -/
def NaNFree (ts : Tables) (a : TableId) : Prop :=
  ∀ b n, ts.Reaches a b → (ts.get b).Holds (.number n) → n.isNaN = false

theorem NaNFree.held {a b : TableId} (h : ts.NaNFree a) (hb : (ts.get a).Holds (.list b)) :
    ts.NaNFree b :=
  fun c n hc => h c n (.head hb hc)

theorem Bisimilar.upTo_nil {a b : TableId} : ts.Bisimilar a b → ts.BisimilarUpTo [] a b := by
  rintro ⟨R, hR, hab⟩
  exact ⟨R, hab, fun x y hxy => .inr (.inr (hR x y hxy))⟩

/-- The shortcut for one list with itself is sound where all numbers equal themselves. -/
theorem BisimilarUpTo.bisimilar {a b : TableId} (hfree : ts.NaNFree a)
    (h : ts.BisimilarUpTo [] a b) : ts.Bisimilar a b := by
  refine ⟨fun x y => ts.NaNFree x ∧ ts.BisimilarUpTo [] x y, ?_, hfree, h⟩
  rintro x y ⟨hx, hxy⟩
  rcases hxy.unfold with rfl | hmem | halike
  · exact .refl (fun n hn => hx x n .refl hn)
      fun c hc => ⟨hx.held hc, bisimilarUpTo_iff.mpr (.inl rfl)⟩
  · cases hmem
  · exact halike.imp fun c d hc hcd => ⟨hx.held hc, hcd⟩

theorem equal_iff_bisimilar {a b : TableId} (hfree : ts.NaNFree a) :
    ts.equal a b = true ↔ ts.Bisimilar a b :=
  equalUnder_iff.trans ⟨BisimilarUpTo.bisimilar hfree, Bisimilar.upTo_nil⟩

/-- A list that holds itself, and two lists that hold each other. -/
def loops : Tables := #[.ofList [.list ⟨0⟩], .ofList [.list ⟨2⟩], .ofList [.list ⟨1⟩]]

theorem nanFree_loops (a : TableId) : loops.NaNFree a := by
  intro b n _ hheld
  rcases hheld with hmem | ⟨k, hk⟩
  · match b with
    | ⟨0⟩ | ⟨1⟩ | ⟨2⟩ => simp [loops, get, Table.ofList] at hmem
    | ⟨_ + 3⟩ => simp [loops, get, default, Table.ofList] at hmem
  · match b with
    | ⟨0⟩ | ⟨1⟩ | ⟨2⟩ => simp [loops, get, Table.ofList, Table.key?] at hk
    | ⟨_ + 3⟩ => simp [loops, get, default, Table.ofList, Table.key?] at hk

end Tables

/-- Where nothing that is not a number can be reached, lists are equal if and only if they are
bisimilar. So equality of such lists is an equivalence. -/
theorem equal_lists_bisimilar (ts : Tables) :
    (∀ a b, ts.NaNFree a →
      (Value.equal ts (.list a) (.list b) = true ↔ ts.Bisimilar a b)) ∧
    Equivalence fun a b : {t // ts.NaNFree t} => Value.equal ts (.list a) (.list b) = true where
  left _ _ hfree := Tables.equal_iff_bisimilar hfree
  right := {
    refl := fun _ => Tables.equalUnder_iff.mpr (Tables.bisimilarUpTo_iff.mpr (.inl rfl))
    symm := by
      rintro ⟨a, ha⟩ ⟨b, hb⟩ hab
      exact (Tables.equal_iff_bisimilar hb).mpr ((Tables.equal_iff_bisimilar ha).mp hab).symm
    trans := by
      rintro ⟨a, ha⟩ ⟨b, hb⟩ ⟨c, hc⟩ hab hbc
      exact (Tables.equal_iff_bisimilar ha).mpr
        (((Tables.equal_iff_bisimilar ha).mp hab).trans ((Tables.equal_iff_bisimilar hb).mp hbc)) }

/-- A list that holds itself is equal to each of two lists that hold each other: all have one
element, and it is such a list. -/
theorem loops_equal : Value.equal Tables.loops (.list ⟨0⟩) (.list ⟨1⟩) = true := by
  refine ((equal_lists_bisimilar Tables.loops).1 ⟨0⟩ ⟨1⟩ (Tables.nanFree_loops _)).mpr ?_
  refine ⟨fun a b => a = ⟨0⟩ ∧ (b = ⟨1⟩ ∨ b = ⟨2⟩), ?_, rfl, .inl rfl⟩
  rintro _ _ ⟨rfl, rfl | rfl⟩
  · exact ⟨.cons (.list ⟨rfl, .inr rfl⟩) .nil, fun _ => .none⟩
  · exact ⟨.cons (.list ⟨rfl, .inl rfl⟩) .nil, fun _ => .none⟩

end IslandScript
