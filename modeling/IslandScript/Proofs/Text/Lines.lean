import Mathlib.Data.List.Basic
import Mathlib.Data.List.TakeWhile
import Mathlib.Data.List.Count
import IslandScript.Text.Lines

/-!
# The lines of a text, newline by newline

Whatever stands before a newline gives the lines that it gives with the newline behind it, and what comes
behind that gives its own (`linesOf_append`). A row without a newline in it is one line, but for a
carriage return right before the newline that ends it (`withoutReturn`).
-/

namespace IslandScript.Text

/-- A row without the carriage return that may stand at its end. -/
def withoutReturn (row : List Char) : List Char :=
  if row.getLast? = some '\r' then row.dropLast else row

theorem withoutReturn_of_getLast {row : List Char} (h : ∀ x ∈ row.getLast?, x ≠ '\r') :
    withoutReturn row = row := by
  unfold withoutReturn
  rw [if_neg]
  intro hreturn
  exact h '\r' hreturn rfl

theorem withoutReturn_cons_cons (x y : Char) (row : List Char) :
    withoutReturn (x :: y :: row) = x :: withoutReturn (y :: row) := by
  unfold withoutReturn
  rw [List.getLast?_cons_cons]
  split <;> rfl

/-- A carriage return is taken from what comes last. -/
theorem withoutReturn_append {u : List Char} (h : ∀ x ∈ u.getLast?, x ≠ '\r') (v : List Char) :
    withoutReturn (u ++ v) = u ++ withoutReturn v := by
  cases v with
  | nil =>
      rw [List.append_nil, withoutReturn_of_getLast h]
      simp [withoutReturn]
  | cons y v =>
      have hlast : (u ++ y :: v).getLast? = (y :: v).getLast? :=
        List.getLast?_append_of_ne_nil u (by simp)
      unfold withoutReturn
      rw [hlast]
      split
      next => rw [List.dropLast_append_of_ne_nil (by simp)]
      next => rfl

/-- A character that ends no line belongs to the first one. -/
theorem linesOf_cons {x : Char} (hx : x ≠ '\n') {cs : List Char}
    (hreturn : x = '\r' → ∀ y ∈ cs.head?, y ≠ '\n') {line : List Char} {rest : List (List Char)}
    (h : linesOf cs = line :: rest) : linesOf (x :: cs) = (x :: line) :: rest := by
  have hpair : ∀ more, x = '\r' → cs = '\n' :: more → False := by
    rintro more hx rfl
    exact hreturn hx '\n' rfl rfl
  rw [linesOf, h]
  · exact hx
  · exact hpair

/-- A row that a newline ends is a line. -/
theorem linesOf_row {u : List Char} (hu : '\n' ∉ u) (v : List Char) :
    linesOf (u ++ '\n' :: v) = withoutReturn u :: linesOf v := by
  induction u with
  | nil => simp [linesOf, withoutReturn]
  | cons x u ih =>
      rw [List.mem_cons, not_or] at hu
      have hmore := ih hu.2
      cases u with
      | nil =>
          by_cases hx : x = '\r'
          · subst hx
            simp [linesOf, withoutReturn]
          · rw [List.cons_append, linesOf_cons (Ne.symm hu.1) (fun h => absurd h hx) hmore]
            simp [withoutReturn, hx]
      | cons y u =>
          rw [List.mem_cons, not_or] at hu
          rw [List.cons_append, linesOf_cons (Ne.symm hu.1) ?_ hmore, withoutReturn_cons_cons]
          intro _ z hz
          cases hz
          exact Ne.symm hu.2.1

/-- The last row of a text is a line if there is anything on it, with a carriage return at its end. -/
theorem linesOf_last {u : List Char} (hu : '\n' ∉ u) (hne : u ≠ []) : linesOf u = [u] := by
  induction u with
  | nil => exact absurd rfl hne
  | cons x u ih =>
      rw [List.mem_cons, not_or] at hu
      cases u with
      | nil =>
          rw [linesOf]
          · rfl
          · exact Ne.symm hu.1
          · exact fun more _ hmore => nomatch hmore
      | cons y u =>
          rw [List.mem_cons, not_or] at hu
          have hmore := ih (by simp [hu.2]) (by simp)
          rw [linesOf_cons (Ne.symm hu.1) ?_ hmore]
          intro _ z hz
          cases hz
          exact Ne.symm hu.2.1

/-- The lines of a text are those of what stands through a newline in it and those of what stands behind
that. -/
theorem linesOf_append (u v : List Char) :
    linesOf (u ++ '\n' :: v) = linesOf (u ++ ['\n']) ++ linesOf v := by
  induction hlength : u.length using Nat.strongRecOn generalizing u with
  | ind n ih =>
      by_cases hu : '\n' ∈ u
      · obtain ⟨row, more, rfl, hrow⟩ := List.eq_append_cons_of_mem hu
        have hmore := ih more.length (by rw [← hlength, List.length_append, List.length_cons]; omega)
          more rfl
        rw [List.append_assoc, List.append_assoc, List.cons_append, List.cons_append,
          linesOf_row hrow, linesOf_row hrow, hmore, List.cons_append]
      · rw [linesOf_row hu, linesOf_row hu]
        rfl

/-- No newline is left in a line. -/
theorem notMem_of_mem_linesOf {cs row : List Char} (h : row ∈ linesOf cs) : '\n' ∉ row := by
  induction cs using linesOf.induct generalizing row with
  | case1 => cases h
  | case2 cs ih | case3 cs ih =>
      rcases List.mem_cons.mp h with rfl | h
      · exact List.not_mem_nil
      · exact ih h
  | case4 x cs hx hreturn hnil ih =>
      rw [linesOf, hnil, List.mem_singleton] at h
      · rw [h, List.mem_singleton]
        exact fun heq => hx heq.symm
      · exact hx
      · exact hreturn
  | case5 x cs hx hreturn line rest hlines ih =>
      rw [linesOf, hlines] at h
      · rcases List.mem_cons.mp h with rfl | h
        · rw [List.mem_cons, not_or]
          exact ⟨fun heq => hx heq.symm, ih (by rw [hlines]; exact List.mem_cons_self)⟩
        · exact ih (by rw [hlines]; exact List.mem_cons_of_mem line h)
      · exact hx
      · exact hreturn

/-- A row that is a line as it is once a newline ends it. -/
structure Unbroken (row : List Char) : Prop where
  newline : '\n' ∉ row
  /-- What stands last does not belong to the line end. -/
  stops : ∀ x ∈ row.getLast?, x ≠ '\r'

/-- Such rows, each with a newline behind it, are the lines of their text. -/
theorem linesOf_flatMap {rows : List (List Char)} (h : ∀ row ∈ rows, Unbroken row) :
    linesOf (rows.flatMap (· ++ ['\n'])) = rows := by
  induction rows with
  | nil => rfl
  | cons row rows ih =>
      obtain ⟨hrow, hrows⟩ := List.forall_mem_cons.mp h
      rw [List.flatMap_cons, List.append_assoc, List.cons_append, List.nil_append,
        linesOf_row hrow.newline, withoutReturn_of_getLast hrow.stops, ih hrows]

/-- The characters of a text behind its last newline. -/
def lastRow (cs : List Char) : List Char := (cs.reverse.takeWhile (· != '\n')).reverse

theorem lastRow_of_notMem {cs : List Char} (h : '\n' ∉ cs) : lastRow cs = cs := by
  have hall : ∀ x ∈ cs.reverse, (x != '\n') = true := by
    intro x hx
    rw [bne_iff_ne]
    rintro rfl
    exact h (List.mem_reverse.mp hx)
  rw [lastRow, List.takeWhile_eq_self_iff.mpr hall, List.reverse_reverse]

theorem lastRow_append_cons (row cs : List Char) :
    lastRow (row ++ '\n' :: cs) = lastRow cs := by
  have hsplit : (row ++ '\n' :: cs).reverse = cs.reverse ++ '\n' :: row.reverse := by simp
  rw [lastRow, lastRow, hsplit, List.takeWhile_append]
  split
  next h =>
    rw [(List.takeWhile_prefix _).eq_of_length h]
    simp
  next => rfl

theorem notMem_lastRow (cs : List Char) : '\n' ∉ lastRow cs := by
  intro h
  have hnot := List.mem_takeWhile_imp (List.mem_reverse.mp h)
  simp at hnot

/-- The line that some characters of a text are followed on: as many lines before it as they hold
newlines. -/
theorem linesOf_getElem? (before v : List Char) :
    (linesOf (before ++ v))[before.count '\n']? = (linesOf (lastRow before ++ v))[0]? := by
  induction hlength : before.length using Nat.strongRecOn generalizing before with
  | ind n ih =>
      by_cases hmem : '\n' ∈ before
      · obtain ⟨row, more, rfl, hrow⟩ := List.eq_append_cons_of_mem hmem
        have hmore := ih more.length (by rw [← hlength, List.length_append, List.length_cons]; omega)
          more rfl
        rw [List.append_assoc, List.cons_append, linesOf_row hrow, List.count_append,
          List.count_eq_zero.mpr hrow, List.count_cons_self, Nat.zero_add, List.getElem?_cons_succ,
          hmore, lastRow_append_cons]
      · rw [List.count_eq_zero.mpr hmem, lastRow_of_notMem hmem]

end IslandScript.Text
