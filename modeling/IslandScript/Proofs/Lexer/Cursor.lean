import Mathlib.Data.List.TakeWhile
import Mathlib.Data.List.Count
import IslandScript.Proofs.Lexer.Lexeme
import IslandScript.Proofs.Text.Split

/-!
# Where a cursor stands behind some characters

However characters are consumed, one after the other or as a whole, the cursor behind them is
`Cursor.skipping`: as many rows on as they hold newlines, and on the last row behind the characters
that follow the last of those. So two readers that consume the same characters leave the same cursor,
and a token covers as many characters as it was read from, unless it breaks its row.
-/

namespace IslandScript.Cursor

/-! ## Rows and columns -/

theorem rest_skipping (c : Cursor) (u v : List Char) : (c.skipping u v).rest = v := by
  simp only [skipping]
  split <;> rfl

theorem row_skipping (c : Cursor) (u v : List Char) :
    (c.skipping u v).row = c.row + u.count '\n' := by
  simp only [skipping]
  split
  next h =>
    rw [beq_iff_eq] at h
    simp [h]
  next => rfl

/-- The column does not depend on what was on the row before it began. -/
theorem column_skipping_of_mem {u : List Char} (h : '\n' ∈ u) (c : Cursor) (v : List Char) :
    (c.skipping u v).column = 1 + (u.reverse.takeWhile (· != '\n')).length := by
  have hcount : u.count '\n' ≠ 0 := fun h0 => List.count_eq_zero.mp h0 h
  simp [skipping, hcount]

theorem column_skipping_of_notMem {u : List Char} (h : '\n' ∉ u) (c : Cursor) (v : List Char) :
    (c.skipping u v).column = c.column + u.length := by
  simp [skipping, List.count_eq_zero.mpr h]

theorem ext {c d : Cursor} (hrow : c.row = d.row) (hcolumn : c.column = d.column)
    (hrest : c.rest = d.rest) : c = d := by
  cases c
  cases d
  simp_all

theorem skipping_nil (c : Cursor) : c.skipping [] c.rest = c := by
  apply ext
  · simp [row_skipping]
  · simp [column_skipping_of_notMem]
  · exact rest_skipping c [] c.rest

/-- The characters of the last row of two texts are those of the second if that breaks a row. -/
theorem takeWhile_reverse_append_of_mem {v : List Char} (h : '\n' ∈ v) (u : List Char) :
    (u ++ v).reverse.takeWhile (· != '\n') = v.reverse.takeWhile (· != '\n') := by
  rw [List.reverse_append, List.takeWhile_append, if_neg]
  intro hlength
  have hall := List.takeWhile_eq_self_iff.mp
    ((List.takeWhile_prefix _).eq_of_length hlength) '\n' (List.mem_reverse.mpr h)
  simp at hall

/-- The characters of the last row of two texts go on from those of the first if the second breaks
no row. -/
theorem takeWhile_reverse_append_of_notMem {v : List Char} (h : '\n' ∉ v) (u : List Char) :
    (u ++ v).reverse.takeWhile (· != '\n') = v.reverse ++ u.reverse.takeWhile (· != '\n') := by
  rw [List.reverse_append, List.takeWhile_append_of_pos]
  intro x hx
  rw [List.mem_reverse] at hx
  simp only [bne_iff_ne]
  rintro rfl
  exact h hx

/-- To go on behind some characters is to go on behind all of them. -/
theorem skipping_skipping (c : Cursor) (u v w x : List Char) :
    (c.skipping u x).skipping v w = c.skipping (u ++ v) w := by
  apply ext
  · rw [row_skipping, row_skipping, row_skipping, List.count_append, Nat.add_assoc]
  · by_cases hv : '\n' ∈ v
    · rw [column_skipping_of_mem hv, column_skipping_of_mem (List.mem_append_right u hv),
        takeWhile_reverse_append_of_mem hv]
    · rw [column_skipping_of_notMem hv]
      by_cases hu : '\n' ∈ u
      · rw [column_skipping_of_mem hu, column_skipping_of_mem (List.mem_append_left v hu),
          takeWhile_reverse_append_of_notMem hv, List.length_append, List.length_reverse]
        omega
      · have huv : '\n' ∉ u ++ v := by simp [hu, hv]
        rw [column_skipping_of_notMem hu, column_skipping_of_notMem huv, List.length_append]
        omega
  · rw [rest_skipping, rest_skipping]

/-- A character behind the cursor, in the words of `skipping`. -/
theorem after_eq_skipping (c : Cursor) (x : Char) (v : List Char) :
    c.after x v = c.skipping [x] v := by
  by_cases hx : x = '\n'
  · subst hx
    rfl
  · have hmem : '\n' ∉ [x] := by
      rw [List.mem_singleton]
      exact Ne.symm hx
    apply ext
    · simp [after, hx, row_skipping]
    · simp [after, hx, column_skipping_of_notMem hmem]
    · rw [after_rest, rest_skipping]

/-! ## Consuming characters -/

theorem bump?_cons {c : Cursor} {x : Char} {v : List Char} (h : c.rest = x :: v) :
    c.bump? = some (x, c.skipping [x] v) := by
  rw [← after_eq_skipping]
  unfold bump?
  rw [h]

theorem bump?_nil {c : Cursor} (h : c.rest = []) : c.bump? = none := by
  unfold bump?
  rw [h]

/-- Characters are consumed as far as there are any. -/
theorem take_eq (c : Cursor) (n : Nat) :
    c.take n = (c.rest.take n, c.skipping (c.rest.take n) (c.rest.drop n)) := by
  induction n generalizing c with
  | zero => simp [take, skipping_nil]
  | succ n ih =>
      cases hrest : c.rest with
      | nil =>
          have hstays := skipping_nil c
          rw [hrest] at hstays
          simp [take, bump?_nil hrest, hstays]
      | cons x v =>
          simp only [take, bump?_cons hrest, ih, rest_skipping, skipping_skipping,
            List.take_succ_cons, List.drop_succ_cons, List.singleton_append]

theorem take_append {c : Cursor} {u v : List Char} (h : c.rest = u ++ v) :
    c.take u.length = (u, c.skipping u v) := by
  rw [take_eq, h, List.take_left, List.drop_left]

theorem eat?_cons {c : Cursor} {x : Char} {v : List Char} (h : c.rest = x :: v) :
    c.eat? x = some (c.skipping [x] v) := by
  simp [eat?, bump?_cons h]

/-- The characters consumed by a test are the longest run that it holds for. -/
theorem takeWhile_of_append {c : Cursor} {test : Char → Bool} {u v : List Char}
    (h : c.rest = u ++ v) (hu : ∀ x ∈ u, test x = true) (hv : ∀ x ∈ v.head?, test x = false) :
    c.takeWhile test = (u, c.skipping u v) := by
  have hrun : c.rest.takeWhile test = u := by
    rw [h, List.takeWhile_append_of_pos hu]
    cases v with
    | nil => simp
    | cons x v => simp [hv x rfl]
  unfold takeWhile
  rw [hrun, take_append h]

theorem takeWhile_eq (c : Cursor) (test : Char → Bool) :
    c.takeWhile test = (c.rest.takeWhile test,
      c.skipping (c.rest.takeWhile test) (c.rest.dropWhile test)) := by
  unfold takeWhile
  exact take_append List.takeWhile_append_dropWhile.symm

/-! ## Skipping as a whole -/

/-- To skip a line is to go behind all that comes before the next newline. -/
theorem skipLine_eq {c : Cursor} {u v : List Char} (h : c.rest = u ++ v) (hu : '\n' ∉ u)
    (hv : ∀ x ∈ v.head?, x = '\n') : c.skipLine = c.skipping u v := by
  have htest : ∀ x ∈ u, (x != '\n') = true := by
    intro x hx
    rw [bne_iff_ne]
    rintro rfl
    exact hu hx
  have htake : c.rest.takeWhile (· != '\n') = u ∧ c.rest.dropWhile (· != '\n') = v := by
    rw [h, List.takeWhile_append_of_pos htest, List.dropWhile_append_of_pos htest]
    cases v with
    | nil => simp
    | cons x v =>
        cases hv x rfl
        simp
  apply ext
  · simp [skipLine, row_skipping, List.count_eq_zero.mpr hu]
  · simp [skipLine, htake.1, column_skipping_of_notMem hu]
  · simp [skipLine, htake.2, rest_skipping]

/-- A character in front of a text moves what occurs in it by one place. -/
theorem not_occursAt_cons {terminator cs : List Char} {x : Char} {n : Nat} :
    (∀ place < n + 1, ¬Text.OccursAt terminator (x :: cs) place) ↔
      ¬terminator <+: x :: cs ∧ ∀ place < n, ¬Text.OccursAt terminator cs place := by
  constructor
  · intro h
    exact ⟨h 0 (Nat.succ_pos n), fun place hplace => h (place + 1) (Nat.succ_lt_succ hplace)⟩
  · rintro ⟨hfirst, hrest⟩ place hplace
    cases place with
    | zero => exact hfirst
    | succ place => exact hrest place (Nat.lt_of_succ_lt_succ hplace)

/-- What is split off ends with the first occurrence of the terminator. -/
theorem splitThrough?_eq_some {terminator cs skipped rest : List Char} (hne : terminator ≠ []) :
    splitThrough? terminator cs = some (skipped, rest) ↔ ∃ u, skipped = u ++ terminator ∧
      cs = u ++ terminator ++ rest ∧ ∀ place < u.length, ¬Text.OccursAt terminator cs place := by
  induction cs generalizing skipped with
  | nil =>
      refine iff_of_false nofun ?_
      rintro ⟨u, -, hcs, -⟩
      exact hne (List.append_eq_nil_iff.mp (List.append_eq_nil_iff.mp hcs.symm).1).2
  | cons x cs ih =>
      rw [splitThrough?]
      by_cases hstarts : terminator <+: x :: cs
      · obtain ⟨rest', hrest⟩ := hstarts
        have htest : terminator.isPrefixOf (x :: cs) = true :=
          List.isPrefixOf_iff_prefix.mpr ⟨rest', hrest⟩
        rw [if_pos htest, ← hrest, List.drop_left, Option.some_inj, Prod.mk.injEq]
        constructor
        · rintro ⟨rfl, rfl⟩
          exact ⟨[], rfl, rfl, nofun⟩
        · rintro ⟨u, rfl, hcs, hfirst⟩
          -- behind other characters it would not be the first
          have hu : u = [] := by
            cases u with
            | nil => rfl
            | cons y u => exact absurd (List.prefix_append _ _) (hfirst 0 (Nat.succ_pos _))
          subst hu
          exact ⟨rfl, List.append_cancel_left hcs⟩
      · have htest : terminator.isPrefixOf (x :: cs) = false := by
          rw [Bool.eq_false_iff, ne_eq, List.isPrefixOf_iff_prefix]
          exact hstarts
        rw [htest, if_neg Bool.false_ne_true, Option.map_eq_some_iff]
        constructor
        · rintro ⟨⟨skipped', rest'⟩, hsplit, heq⟩
          cases heq
          obtain ⟨u, rfl, hcs, hfirst⟩ := ih.mp hsplit
          exact ⟨x :: u, rfl, by rw [hcs]; rfl, not_occursAt_cons.mpr ⟨hstarts, hfirst⟩⟩
        · rintro ⟨u, rfl, hcs, hfirst⟩
          cases u with
          | nil => exact absurd ⟨rest, hcs.symm⟩ hstarts
          | cons y u =>
              obtain ⟨rfl, hcs'⟩ := List.cons.inj hcs
              exact ⟨(u ++ terminator, rest),
                ih.mpr ⟨u, rfl, hcs', (not_occursAt_cons.mp hfirst).2⟩, rfl⟩

/-- Nothing is split off if the terminator does not occur. -/
theorem splitThrough?_eq_none {terminator cs : List Char} (hne : terminator ≠ []) :
    splitThrough? terminator cs = none ↔ ∀ place, ¬Text.OccursAt terminator cs place := by
  induction cs with
  | nil =>
      refine iff_of_true rfl fun place hoccurs => hne ?_
      rw [Text.OccursAt, List.drop_nil] at hoccurs
      exact List.prefix_nil.mp hoccurs
  | cons x cs ih =>
      rw [splitThrough?]
      split
      next hstarts =>
        rw [List.isPrefixOf_iff_prefix] at hstarts
        exact iff_of_false (Option.some_ne_none _) fun h => h 0 hstarts
      next hstarts =>
        rw [List.isPrefixOf_iff_prefix] at hstarts
        rw [Option.map_eq_none_iff, ih]
        refine ⟨fun h place => ?_, fun h place => h (place + 1)⟩
        cases place with
        | zero => exact hstarts
        | succ place => exact h place

/-! ## Spans -/

/-- The span of characters from here on: as many as there are, or the first one alone if they break
the row. -/
def spanOf (c : Cursor) (u : List Char) : Span :=
  ⟨c.row, c.column, if '\n' ∈ u then 1 else u.length⟩

/-- A token that was read from some characters has the span of these. -/
theorem spanFrom_here {u : List Char} (hu : u ≠ []) (c : Cursor) (v : List Char) :
    (c.skipping u v).spanFrom c.here = c.spanOf u := by
  unfold spanFrom spanOf
  by_cases h : '\n' ∈ u
  · have hcount := List.count_pos_iff.mpr h
    have hrow : (c.skipping u v).row ≠ c.here.row := by
      rw [row_skipping]
      simp only [here, Span.point]
      omega
    have hother : ((c.skipping u v).row == c.here.row) = false := beq_eq_false_iff_ne.mpr hrow
    rw [hother, Bool.false_and, if_neg Bool.false_ne_true, if_pos h]
    rfl
  · have hlength := List.length_pos_of_ne_nil hu
    have hrow : (c.skipping u v).row = c.row := by
      rw [row_skipping, List.count_eq_zero.mpr h, Nat.add_zero]
    simp [hrow, column_skipping_of_notMem h, h, here, Span.point, hlength]

end IslandScript.Cursor
