import IslandScript.Proofs.Number.Equality
import IslandScript.Value.Index

/-!
# What an index selects

An index that is accepted selects something: the value under a key, the element at a position of a list, or
the character at a position of a string (`Selects`). A position that is accepted is inside the sequence, so
there is an element or a character there. Null stands only for a key that a list does not have.
-/

namespace IslandScript.Value

variable {ts : Tables} {i target v : Value} {n : Float} {p size : Nat}

/-! ## Positions -/

theorem not_neg_of_wholeIndex? (h : wholeIndex? n = some p) : ¬n < 0 := by
  unfold wholeIndex? at h
  split at h
  next htest =>
    rw [Bool.and_eq_true, decide_eq_true_eq] at htest
    exact Number.not_lt_of_le htest.1
  next => cases h

/-- A number that is a whole index is not refused for its sign. -/
theorem position_of_whole (h : wholeIndex? n = some p) :
    (number n).position size = if p < size then .ok p else .error (.outOfBounds size) := by
  rw [position, if_neg (not_neg_of_wholeIndex? h), h]

theorem position_of_not_whole (h : wholeIndex? n = none) :
    (number n).position size = .error (if n < 0 then .negative else .invalid) := by
  rw [position, h]
  split <;> rfl

/-- A position is a whole number inside the sequence. -/
theorem position_eq_ok_iff :
    i.position size = .ok p ↔ ∃ n, i = .number n ∧ wholeIndex? n = some p ∧ p < size := by
  cases i with
  | number n =>
      simp only [number.injEq, exists_eq_left']
      cases hwhole : wholeIndex? n with
      | none => simp [position_of_not_whole hwhole]
      | some q =>
          rw [position_of_whole hwhole, Option.some_inj]
          constructor
          · intro h
            split at h
            next hq =>
              cases h
              exact ⟨rfl, hq⟩
            next => cases h
          · rintro ⟨rfl, hq⟩
            exact if_pos hq
  | _ => simp [position]

theorem position_lt (h : i.position size = .ok p) : p < size := by
  obtain ⟨_, -, -, hp⟩ := position_eq_ok_iff.mp h
  exact hp

/-! ## Selection -/

/-- What an index selects from a value. -/
inductive Selects (ts : Tables) : Value → Value → Value → Prop where
  | entry (t : TableId) (k : String) : Selects ts (.list t) (.string k) (((ts.get t).key? k).getD .null)
  | element {t : TableId} {i v : Value} {p : Nat} (hp : i.position (ts.length t) = .ok p)
      (hv : (ts.items t)[p]? = some v) : Selects ts (.list t) i v
  | character {s : String} {i : Value} {p : Nat} {c : Char} (hp : i.position s.length = .ok p)
      (hc : s.toList[p]? = some c) : Selects ts (.string s) i (.ofChar c)

/-- What is computed from a position that is accepted is computed from a place inside the sequence. -/
theorem map_position_eq_ok_iff {f : Nat → Value} :
    (i.position size).map f = .ok v ↔ ∃ p < size, i.position size = .ok p ∧ f p = v := by
  cases hposition : i.position size with
  | error e => simp [Except.map]
  | ok p => simp [Except.map, position_lt hposition]

theorem index_list_number (t : TableId) (n : Float) :
    index ts (.list t) (.number n) =
      ((number n).position (ts.length t)).map fun p => ((ts.get t).items[p]?).getD .null :=
  rfl

theorem index_list_eq_ok_iff {t : TableId} (hi : ∀ k, i ≠ .string k) :
    index ts (.list t) i = .ok v ↔
      ∃ p, i.position (ts.length t) = .ok p ∧ (ts.items t)[p]? = some v := by
  have hindex : index ts (.list t) i =
      (i.position (ts.length t)).map fun p => ((ts.get t).items[p]?).getD .null := by
    cases i with
    | string k => exact absurd rfl (hi k)
    | _ => rfl
  rw [hindex, map_position_eq_ok_iff]
  constructor
  · rintro ⟨p, hp, hposition, rfl⟩
    refine ⟨p, hposition, ?_⟩
    rw [Tables.items, Array.getElem?_toList, Array.getElem?_eq_getElem hp]
    rfl
  · rintro ⟨p, hposition, hv⟩
    rw [Tables.items, Array.getElem?_toList] at hv
    exact ⟨p, position_lt hposition, hposition, by rw [hv]; rfl⟩

theorem index_string_eq_ok_iff {s : String} :
    index ts (.string s) i = .ok v ↔
      ∃ p c, i.position s.length = .ok p ∧ s.toList[p]? = some c ∧ v = .ofChar c := by
  have hindex : index ts (.string s) i =
      (i.position s.length).map fun p => (s.toList[p]?).elim .null .ofChar := rfl
  rw [hindex, map_position_eq_ok_iff]
  constructor
  · rintro ⟨p, hp, hposition, rfl⟩
    rw [← String.length_toList] at hp
    have hc : s.toList[p]? = some s.toList[p] := List.getElem?_eq_getElem hp
    exact ⟨p, _, hposition, hc, by rw [hc]; rfl⟩
  · rintro ⟨p, c, hposition, hc, rfl⟩
    exact ⟨p, position_lt hposition, hposition, by rw [hc]; rfl⟩

/-- To look for a character at a whole number is to test the position first. -/
theorem whole_bind_eq_some_iff {s : String} {c : Char} :
    (wholeIndex? n).bind (s.toList[·]?) = some c ↔
      ∃ p, (number n).position s.length = .ok p ∧ s.toList[p]? = some c := by
  rw [Option.bind_eq_some_iff]
  constructor
  · rintro ⟨p, hwhole, hc⟩
    obtain ⟨hp, -⟩ := List.getElem?_eq_some_iff.mp hc
    rw [String.length_toList] at hp
    exact ⟨p, position_eq_ok_iff.mpr ⟨n, rfl, hwhole, hp⟩, hc⟩
  · rintro ⟨p, hposition, hc⟩
    obtain ⟨_, hn, hwhole, -⟩ := position_eq_ok_iff.mp hposition
    cases hn
    exact ⟨p, hwhole, hc⟩

/-- Indexing gives what the index selects, and nothing else. -/
theorem index_eq_ok_iff : index ts target i = .ok v ↔ Selects ts target i v := by
  constructor
  · intro h
    cases target with
    | list t =>
        by_cases hkey : ∃ k, i = .string k
        · obtain ⟨k, rfl⟩ := hkey
          cases h
          exact .entry t k
        · obtain ⟨p, hp, hv⟩ := (index_list_eq_ok_iff (not_exists.mp hkey)).mp h
          exact .element hp hv
    | string s =>
        obtain ⟨p, c, hp, hc, rfl⟩ := index_string_eq_ok_iff.mp h
        exact .character hp hc
    | _ => cases h
  · intro h
    cases h with
    | entry t k => rfl
    | element hp hv =>
        refine (index_list_eq_ok_iff fun k hk => ?_).mpr ⟨_, hp, hv⟩
        obtain ⟨n, hn, -⟩ := position_eq_ok_iff.mp hp
        rw [hk] at hn
        cases hn
    | character hp hc => exact index_string_eq_ok_iff.mpr ⟨_, _, hp, hc, rfl⟩

end IslandScript.Value
