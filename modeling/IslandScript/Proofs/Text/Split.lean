import Mathlib.Data.List.Infix
import Mathlib.Data.List.Pairwise
import Mathlib.Data.List.Sort
import IslandScript.Text.Search

/-!
# Splitting and joining

A text that is split at a separator is the parts with the separator between neighbours. The parts are cut
out by the occurrences that a search from the left finds, each of which starts behind the one before
(`Leftmost`): they do not overlap, and every other occurrence overlaps one of them that starts before it.
So there is one part more than there are such occurrences, and no separator is left in any of them.
-/

namespace IslandScript.Text

variable {separator s part rest : List Char} {parts : List (List Char)} {places others : List Nat}

/-- A text occurs at a place of another. -/
def OccursAt (separator s : List Char) (place : Nat) : Prop := separator <+: s.drop place

instance (separator s : List Char) (place : Nat) : Decidable (OccursAt separator s place) :=
  inferInstanceAs (Decidable (_ <+: _))

/-- The places of the leftmost occurrences that do not overlap. -/
structure Leftmost (separator s : List Char) (places : List Nat) : Prop where
  occurs : ∀ place ∈ places, OccursAt separator s place
  apart : places.Pairwise fun place next => place + separator.length ≤ next
  /-- Any occurrence is one of them, or overlaps one that starts before it. -/
  covers : ∀ other, OccursAt separator s other →
    ∃ place ∈ places, place ≤ other ∧ other < place + separator.length

/-- A text is made of parts with a separator between neighbours, and the separator behind each part is the
first that occurs from there on. -/
inductive Splits (separator : List Char) : List Char → List (List Char) → Prop where
  | last {s : List Char} (h : ∀ place, ¬OccursAt separator s place) : Splits separator s [s]
  | next {part rest : List Char} {parts : List (List Char)}
      (hfirst : ∀ place < part.length, ¬OccursAt separator (part ++ separator ++ rest) place)
      (hrest : Splits separator rest parts) :
      Splits separator (part ++ separator ++ rest) (part :: parts)

/-! ## The places of occurrences -/

theorem occursAt_append (u : List Char) (place : Nat) :
    OccursAt separator (u ++ s) (u.length + place) ↔ OccursAt separator s place := by
  rw [OccursAt, OccursAt, List.drop_append, List.drop_of_length_le (Nat.le_add_right _ _),
    Nat.add_sub_cancel_left, List.nil_append]

/-- A text occurs behind what stands before it. -/
theorem occursAt_length (separator u v : List Char) : OccursAt separator (u ++ separator ++ v) u.length := by
  rw [OccursAt, List.append_assoc, List.drop_left]
  exact List.prefix_append _ _

/-- A text that occurs within another occurs at a place of it. -/
theorem infix_iff_exists_occursAt : separator <:+: s ↔ ∃ place, OccursAt separator s place := by
  constructor
  · rintro ⟨u, v, rfl⟩
    exact ⟨u.length, occursAt_length separator u v⟩
  · rintro ⟨place, h⟩
    exact h.isInfix.trans (List.drop_suffix place s).isInfix

/-- An occurrence within a part of a text is one of the text. -/
theorem OccursAt.append {place : Nat} (h : OccursAt separator s place) (v : List Char) :
    OccursAt separator (s ++ v) place := by
  by_cases hplace : place ≤ s.length
  · rw [OccursAt, List.drop_append_of_le_length hplace]
    exact h.trans (List.prefix_append _ _)
  · rw [OccursAt, List.drop_of_length_le (by omega), List.prefix_nil] at h
    rw [h]
    exact List.nil_prefix

/-- What is not empty occurs before the end. -/
theorem OccursAt.lt_length {place : Nat} (h : OccursAt separator s place) (hne : separator ≠ []) :
    place < s.length := by
  have hlength := h.length_le
  have hpos := List.length_pos_of_ne_nil hne
  rw [List.length_drop] at hlength
  omega

/-- What is first found behind a part is not within it. -/
theorem not_infix_of_first (hne : separator ≠ [])
    (hfirst : ∀ place < part.length, ¬OccursAt separator (part ++ rest) place) :
    ¬separator <:+: part := by
  intro hinfix
  obtain ⟨place, hplace⟩ := infix_iff_exists_occursAt.mp hinfix
  exact hfirst place (hplace.lt_length hne) (hplace.append rest)

namespace Leftmost

theorem apart_of_mem (h : Leftmost separator s places) {place other : Nat} (hplace : place ∈ places)
    (hother : other ∈ places) (hne : place ≠ other) :
    place + separator.length ≤ other ∨ other + separator.length ≤ place := by
  have hsymm : Std.Symm fun place other : Nat =>
      place + separator.length ≤ other ∨ other + separator.length ≤ place := ⟨fun _ _ => Or.symm⟩
  have hapart : places.Pairwise fun place other =>
      place + separator.length ≤ other ∨ other + separator.length ≤ place := h.apart.imp .inl
  exact hapart.forall hplace hother hne

/-- A leftmost occurrence is one wherever they are listed. -/
theorem mem_of_mem (h : Leftmost separator s places) (h' : Leftmost separator s others) {place : Nat}
    (hbefore : ∀ before < place, before ∈ others → before ∈ places) (hplace : place ∈ places) :
    place ∈ others := by
  obtain ⟨before, hmem, hle, hlt⟩ := h'.covers place (h.occurs place hplace)
  rcases Nat.eq_or_lt_of_le hle with rfl | hlt'
  · exact hmem
  · -- one that starts before it is listed in both, and it does not overlap that one
    have hapart := h.apart_of_mem (hbefore before hlt' hmem) hplace (Nat.ne_of_lt hlt')
    omega

theorem mem_iff (h : Leftmost separator s places) (h' : Leftmost separator s others) (place : Nat) :
    place ∈ places ↔ place ∈ others := by
  induction place using Nat.strong_induction_on with
  | _ place ih =>
      exact ⟨h.mem_of_mem h' fun before hlt => (ih before hlt).mpr,
        h'.mem_of_mem h fun before hlt => (ih before hlt).mp⟩

/-- There is one list of the leftmost occurrences. -/
theorem unique (hne : separator ≠ []) (h : Leftmost separator s places)
    (h' : Leftmost separator s others) : others = places := by
  have hpos := List.length_pos_of_ne_nil hne
  have hsorted {places : List Nat} (h : Leftmost separator s places) : places.Pairwise (· < ·) :=
    h.apart.imp fun hle => by omega
  exact (hsorted h').eq_of_mem_iff (hsorted h) (h'.mem_iff h)

end Leftmost

/-! ## Parts and separators -/

namespace Splits

/-- Joined with the separator between them, the parts are the text. -/
theorem intercalate_eq (h : Splits separator s parts) : separator.intercalate parts = s := by
  induction h with
  | last => simp [List.intercalate]
  | next _ hrest ih =>
      cases hrest with
      | last => simp [List.intercalate]
      | next => rw [List.intercalate_cons_cons, ih]

/-- No separator is left in a part. -/
theorem not_infix (hne : separator ≠ []) (h : Splits separator s parts) :
    ∀ part ∈ parts, ¬separator <:+: part := by
  induction h with
  | last hnone =>
      intro part hpart hinfix
      rw [List.mem_singleton.mp hpart] at hinfix
      obtain ⟨place, hplace⟩ := infix_iff_exists_occursAt.mp hinfix
      exact hnone place hplace
  | @next part rest _ hfirst _ ih =>
      rw [List.append_assoc] at hfirst
      exact List.forall_mem_cons.mpr ⟨not_infix_of_first hne hfirst, ih⟩

/-- There is one part more than there are leftmost occurrences. -/
theorem exists_leftmost (h : Splits separator s parts) :
    ∃ places, Leftmost separator s places ∧ parts.length = places.length + 1 := by
  induction h with
  | last hnone => exact ⟨[], ⟨by simp, .nil, fun other hother => absurd hother (hnone other)⟩, rfl⟩
  | @next part rest parts hfirst _ ih =>
      obtain ⟨places, hplaces, hlength⟩ := ih
      have hshift (place : Nat) : OccursAt separator (part ++ separator ++ rest)
          ((part ++ separator).length + place) ↔ OccursAt separator rest place :=
        occursAt_append (part ++ separator) place
      refine ⟨part.length :: places.map ((part ++ separator).length + ·), ⟨?_, ?_, ?_⟩,
        by simp [hlength]⟩
      · exact List.forall_mem_cons.mpr ⟨occursAt_length separator part rest,
          List.forall_mem_map.mpr fun place hplace => (hshift place).mpr (hplaces.occurs place hplace)⟩
      · refine List.pairwise_cons.mpr ⟨?_, ?_⟩
        · rw [List.forall_mem_map]
          intro place _
          rw [List.length_append]
          omega
        · rw [List.pairwise_map]
          exact hplaces.apart.imp fun hle => by omega
      · intro other hother
        by_cases hbefore : other < part.length
        · exact absurd hother (hfirst other hbefore)
        by_cases hwithin : other < part.length + separator.length
        · exact ⟨part.length, List.mem_cons_self, by omega, hwithin⟩
        · -- behind the first separator the occurrences are those of the rest
          obtain ⟨behind, rfl⟩ : ∃ behind, other = (part ++ separator).length + behind :=
            ⟨other - (part ++ separator).length, by rw [List.length_append]; omega⟩
          obtain ⟨place, hplace, hle, hlt⟩ := hplaces.covers behind ((hshift behind).mp hother)
          exact ⟨_, List.mem_cons_of_mem _ (List.mem_map_of_mem hplace), by omega, by omega⟩

end Splits

/-! ## The search for separators -/

/-- One more character in front of a text belongs to its first part, unless a separator starts there. -/
theorem Splits.cons (h : Splits separator s parts) {x : Char} (hx : ¬separator <+: x :: s) :
    ∃ part more, parts = part :: more ∧ Splits separator (x :: s) ((x :: part) :: more) := by
  cases h with
  | last hnone =>
      refine ⟨s, [], rfl, .last fun place => ?_⟩
      cases place with
      | zero => exact hx
      | succ place => exact hnone place
  | @next part rest parts hfirst hrest =>
      have hfirst' : ∀ place < (x :: part).length,
          ¬OccursAt separator (x :: part ++ separator ++ rest) place := by
        intro place hplace
        cases place with
        | zero => exact hx
        | succ place => exact hfirst place (Nat.lt_of_succ_lt_succ hplace)
      exact ⟨part, parts, rfl, .next hfirst' hrest⟩

/-- Behind what still belongs to a separator, a search from the left splits a text at its separators. -/
theorem splits_partsBetween (hne : separator ≠ []) (k : Nat) (s : List Char) :
    Splits separator (s.drop k) (partsBetween separator k s) := by
  induction s generalizing k with
  | nil =>
      rw [List.drop_nil, partsBetween]
      refine .last fun place h => ?_
      rw [OccursAt, List.drop_nil, List.prefix_nil] at h
      exact hne h
  | cons x s ih =>
      cases k with
      | succ k => exact ih k
      | zero =>
          rw [List.drop_zero, partsBetween]
          split
          next hprefix =>
            obtain ⟨rest, hrest⟩ := List.isPrefixOf_iff_prefix.mp hprefix
            obtain ⟨y, more, rfl⟩ := List.exists_cons_of_ne_nil hne
            obtain ⟨rfl, rfl⟩ := List.cons.inj hrest
            have hsplits := ih more.length
            rw [List.append_eq, List.drop_left] at hsplits
            have hfirst : ∀ place < ([] : List Char).length,
                ¬OccursAt (y :: more) ([] ++ y :: more ++ rest) place :=
              fun place hplace => absurd hplace (Nat.not_lt_zero place)
            exact .next hfirst hsplits
          next hprefix =>
            rw [List.isPrefixOf_iff_prefix] at hprefix
            obtain ⟨part, more, hparts, hsplits⟩ := (ih 0).cons hprefix
            rw [hparts]
            exact hsplits

/-! ## Strings -/

theorem toList_join (separator : String) (parts : List (List Char)) :
    (join separator (parts.map String.ofList)).toList = separator.toList.intercalate parts := by
  rw [join, String.toList_intercalate, List.map_map]
  have hsame : String.toList ∘ String.ofList = id := funext fun _ => String.toList_ofList
  rw [hsame, List.map_id]

/-- Joining the characters of a string gives it back. -/
theorem join_characters (s : String) : join "" (s.toList.map String.singleton) = s := by
  have hcharacters (cs : List Char) : ([] : List Char).intercalate (cs.map ([·])) = cs := by
    induction cs with
    | nil => rfl
    | cons x cs ih =>
        cases cs with
        | nil => rfl
        | cons y cs =>
            have hrest : ([] : List Char).intercalate ([y] :: cs.map ([·])) = y :: cs := ih
            rw [List.map_cons, List.map_cons, List.intercalate_cons_cons, List.append_nil, hrest]
            rfl
  have hsingleton : String.toList ∘ String.singleton = ([·]) := funext String.toList_singleton
  rw [← String.toList_inj, join, String.toList_intercalate, List.map_map, hsingleton]
  exact hcharacters s.toList

/-- Joined again with the separator it was split at, a string is as it was. -/
theorem join_split (s separator : String) : join separator (split s separator) = s := by
  unfold split
  split
  next hempty =>
    obtain rfl := String.isEmpty_iff.mp hempty
    exact join_characters s
  next hne =>
    have hne' : separator.toList ≠ [] := by simpa using hne
    rw [← String.toList_inj, toList_join]
    exact (splits_partsBetween hne' 0 s.toList).intercalate_eq

/-- A separator that is not empty is in no part, and leaves as many parts as it has leftmost occurrences
and one more. -/
theorem split_parts {s separator : String} (hne : separator ≠ "") :
    (∀ part ∈ split s separator, ¬separator.toList <:+: part.toList) ∧
      ∃ places, Leftmost separator.toList s.toList places ∧
        (∀ others, Leftmost separator.toList s.toList others → others = places) ∧
        (split s separator).length = places.length + 1 := by
  have hchars : separator.toList ≠ [] := by simpa using hne
  have hsplit : split s separator =
      (partsBetween separator.toList 0 s.toList).map String.ofList := by
    rw [split, if_neg (by simpa using hne)]
  have hsplits := splits_partsBetween hchars 0 s.toList
  obtain ⟨places, hplaces, hlength⟩ := hsplits.exists_leftmost
  rw [hsplit]
  refine ⟨List.forall_mem_map.mpr fun part hpart => ?_, places, hplaces,
    fun others => hplaces.unique hchars, by rw [List.length_map, hlength]⟩
  rw [String.toList_ofList]
  exact hsplits.not_infix hchars part hpart

end IslandScript.Text
