import IslandScript.Value.Basic

/-!
# Tables

The contents of lists: elements in order, and beside them values under string keys. A list is
the place of its table, so a change through one alias is seen through all.
-/

namespace IslandScript

/-- The contents of a list. No key occurs twice. -/
structure Table where
  items : Array Value
  entries : List (String × Value)
  keys_nodup : (entries.map Prod.fst).Nodup := by simp
  deriving DecidableEq, Repr

namespace Table

/-- A table of elements, without keys. -/
def ofList (items : List Value) : Table := { items := items.toArray, entries := [] }

instance : Inhabited Table := ⟨ofList []⟩

/-- The value under a key. -/
def key? (t : Table) (k : String) : Option Value := t.entries.lookup k

/-- Puts a value under a key, in the place of the one that was there. -/
def setEntry (k : String) (v : Value) : List (String × Value) → List (String × Value)
  | [] => [(k, v)]
  | entry :: rest => if entry.1 == k then (k, v) :: rest else entry :: setEntry k v rest

/-- A key that was not there comes last; the others stay. -/
theorem keys_setEntry (k : String) (v : Value) (entries : List (String × Value)) :
    (setEntry k v entries).map Prod.fst =
      if k ∈ entries.map Prod.fst then entries.map Prod.fst else entries.map Prod.fst ++ [k] := by
  induction entries with
  | nil => rfl
  | cons entry rest ih =>
      unfold setEntry
      by_cases h : entry.1 = k
      · simp [h]
      · have hk : k ≠ entry.1 := fun h' => h h'.symm
        simp only [beq_iff_eq, h, if_false, List.map_cons, ih, List.mem_cons, hk, false_or]
        split <;> rfl

theorem nodup_setEntry {k : String} {v : Value} {entries : List (String × Value)}
    (h : (entries.map Prod.fst).Nodup) : ((setEntry k v entries).map Prod.fst).Nodup := by
  rw [keys_setEntry]
  split
  · exact h
  next hk =>
    refine List.nodup_append.mpr ⟨h, by simp, ?_⟩
    rintro k' hk' _ hmem rfl
    rw [List.mem_singleton] at hmem
    exact hk (hmem ▸ hk')

/-- Puts a value under a key. -/
def setKey (t : Table) (k : String) (v : Value) : Table :=
  { t with entries := setEntry k v t.entries, keys_nodup := nodup_setEntry t.keys_nodup }

/-- Adds an element at the end. -/
def push (t : Table) (v : Value) : Table := { t with items := t.items.push v }

/-- Takes the last element away, if there is one. -/
def pop (t : Table) : Table := { t with items := t.items.pop }

/-- Replaces the element at a position; a position outside changes nothing. -/
def set (t : Table) (i : Nat) (v : Value) : Table := { t with items := t.items.setIfInBounds i v }

end Table

/-- The tables made so far, each at its place. -/
abbrev Tables := Array Table

namespace Tables

/-- The table at a place; an unused place holds no contents. -/
def get (ts : Tables) (t : TableId) : Table := (ts[t.index]?).getD default

/-- The elements of a list. -/
def items (ts : Tables) (t : TableId) : List Value := (ts.get t).items.toList

/-- The number of elements of a list. -/
def length (ts : Tables) (t : TableId) : Nat := (ts.get t).items.size

/-- Makes a list of elements: its place, and the tables with it. -/
def alloc (ts : Tables) (items : List Value) : TableId × Tables :=
  (⟨ts.size⟩, ts.push (Table.ofList items))

/-- Changes the table at a place. -/
def update (ts : Tables) (t : TableId) (f : Table → Table) : Tables :=
  ts.modify t.index f

theorem get_update_of_ne {ts : Tables} {t u : TableId} (h : u ≠ t) (f : Table → Table) :
    (ts.update t f).get u = ts.get u := by
  have hne : t.index ≠ u.index := fun heq => h (by cases t; cases u; cases heq; rfl)
  unfold get update
  rw [Array.getElem?_modify, if_neg hne]

end Tables

/-- The items of a value that can be spread: the characters of a string, or the elements of a
list. -/
def Value.spread? (ts : Tables) : Value → Option (List Value)
  | .string s => some (s.toList.map .ofChar)
  | .list t => some (ts.items t)
  | _ => none

end IslandScript
