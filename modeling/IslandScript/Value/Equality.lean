import IslandScript.Value.Table

/-!
# Equality of values

Lists are equal if they have equal elements in the same order and equal values under the same
keys. A list may hold itself, so the comparison keeps the pairs of lists it is comparing: a pair
met again is taken to be equal. Each comparison within another adds a pair, of which there are no
more than pairs of tables, so the comparison ends. Functions, classes and instances are equal only to
themselves, and a number that is not a number equals nothing.
-/

namespace IslandScript

/-- Equality of values over an equality of tables. -/
def Value.equalBy (same : TableId → TableId → Bool) : Value → Value → Bool
  | .unit, .unit => true
  | .null, .null => true
  | .bool a, .bool b => a == b
  | .number a, .number b => a == b
  | .string a, .string b => a == b
  | .list a, .list b => same a b
  | .function a, .function b => a == b
  | .cls a, .cls b => a == b
  | .inst a, .inst b => a == b
  | _, _ => false

namespace Tables

/-- Whether two lists have equal elements in the same order. -/
def itemsEqual (equal : Value → Value → Bool) : List Value → List Value → Bool
  | [], [] => true
  | v :: vs, w :: ws => equal v w && itemsEqual equal vs ws
  | _, _ => false

/-- Whether the second entries have an equal value under each key of the first. -/
def entriesWithin (equal : Value → Value → Bool) (entries others : List (String × Value)) : Bool :=
  entries.all fun (k, v) => (others.lookup k).any (equal v)

/-- Whether two tables have equal contents. -/
def contentsEqual (equal : Value → Value → Bool) (a b : Table) : Bool :=
  a.items.size == b.items.size && itemsEqual equal a.items.toList b.items.toList &&
    (a.entries.length == b.entries.length && entriesWithin equal a.entries b.entries)

/-- The pairs of tables that are not under comparison. -/
def pending (ts : Tables) (active : List (TableId × TableId)) : List (TableId × TableId) :=
  ((List.range ts.size).flatMap fun i => (List.range ts.size).map fun j => (⟨i⟩, ⟨j⟩)).filter
    fun pair => pair ∉ active

theorem mem_pending {ts : Tables} {active : List (TableId × TableId)} {a b : TableId} :
    (a, b) ∈ ts.pending active ↔ (a.index < ts.size ∧ b.index < ts.size) ∧ (a, b) ∉ active := by
  obtain ⟨i⟩ := a
  obtain ⟨j⟩ := b
  simp [pending, and_assoc]

/-- To compare another pair leaves fewer pairs. -/
theorem length_pending_cons {ts : Tables} {active : List (TableId × TableId)} {a b : TableId}
    (h : (a, b) ∈ ts.pending active) :
    (ts.pending ((a, b) :: active)).length < (ts.pending active).length := by
  have hcons : ts.pending ((a, b) :: active) =
      (ts.pending active).filter fun pair => pair ≠ (a, b) := by
    unfold pending
    rw [List.filter_filter]
    refine List.filter_congr fun pair _ => ?_
    simp [not_or]
  rw [hcons, List.length_filter_lt_length_iff_exists]
  exact ⟨(a, b), h, by simp⟩

/-- Whether two tables are equal, `active` being the pairs under comparison. At a place without a
table there are no contents, so nothing is compared there. -/
def equalUnder (ts : Tables) (active : List (TableId × TableId)) (a b : TableId) : Bool :=
  if _ : a = b ∨ (a, b) ∈ active then true
  else if _ : a.index < ts.size ∧ b.index < ts.size then
    contentsEqual (Value.equalBy fun a' b' => equalUnder ts ((a, b) :: active) a' b')
      (ts.get a) (ts.get b)
  else contentsEqual (Value.equalBy fun _ _ => true) (ts.get a) (ts.get b)
termination_by (ts.pending active).length
decreasing_by
  rename_i hmet hplaced
  exact length_pending_cons (mem_pending.mpr ⟨hplaced, fun h => hmet (.inr h)⟩)

/-- Whether two tables are equal. -/
def equal (ts : Tables) (a b : TableId) : Bool := equalUnder ts [] a b

end Tables

/-- Whether two values are equal. -/
def Value.equal (ts : Tables) (v w : Value) : Bool :=
  v.equalBy (ts.equal) w

/-- Whether a list has an element equal to a value. -/
def Tables.contains (ts : Tables) (t : TableId) (v : Value) : Bool :=
  (ts.items t).any (·.equal ts v)

end IslandScript
