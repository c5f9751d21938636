import IslandScript.Proofs.Lexer.Tiling
import IslandScript.Proofs.Text.Bytes
import IslandScript.Proofs.Text.Lines

/-!
# Skipping is bumping

A comment is skipped as a whole: its end is searched for among the bytes, and its rows and columns are
counted afterwards. That leaves the cursor where it would be if the characters had been consumed one by one
(`Bumps`), as all other operations do it. So whatever a lexer does with a cursor, it stands between two
characters of the text, in the row and column of the next one (`Placed`).
-/

namespace IslandScript.Cursor

open IslandScript.Lexer (rowBehind columnBehind cursorBehind)
open IslandScript.Text (OccursAt BytesOccurAt byteSize)

variable {text : String} {c d : Cursor} {u v terminator : List Char} {x : Char}

/-! ## Characters consumed one by one -/

/-- One character after the other is consumed. -/
inductive Bumps : Cursor → List Char → Cursor → Prop where
  | refl (c : Cursor) : Bumps c [] c
  | cons {c d e : Cursor} {x : Char} {u : List Char} (hx : c.bump? = some (x, d)) (h : Bumps d u e) :
      Bumps c (x :: u) e

theorem bump?_eq_some : c.bump? = some (x, d) ↔ c.rest = x :: d.rest ∧ d = c.skipping [x] d.rest := by
  cases hrest : c.rest with
  | nil => simp [bump?_nil hrest]
  | cons y v =>
      rw [bump?_cons hrest]
      constructor
      · intro h
        cases h
        rw [rest_skipping]
        exact ⟨rfl, rfl⟩
      · rintro ⟨hv, hd⟩
        cases hv
        rw [← hd]

/-- Consumed one by one, characters are passed as they are passed as a whole. -/
theorem bumps_iff : Bumps c u d ↔ c.rest = u ++ d.rest ∧ d = c.skipping u d.rest := by
  constructor
  · intro h
    induction h with
    | refl c => exact ⟨rfl, (skipping_nil c).symm⟩
    | @cons c d e x u hx _ ih =>
        obtain ⟨hrest, hd⟩ := bump?_eq_some.mp hx
        refine ⟨by rw [hrest, ih.1]; rfl, ih.2.trans ?_⟩
        rw [hd, skipping_skipping]
        rfl
  · rintro ⟨hrest, hd⟩
    induction u generalizing c with
    | nil =>
        have hsame := skipping_nil c
        rw [hrest, List.nil_append, ← hd] at hsame
        rw [hsame]
        exact .refl c
    | cons x u ih =>
        refine .cons (bump?_cons hrest) (ih (rest_skipping _ _ _) ?_)
        rw [skipping_skipping]
        exact hd

theorem Bumps.single (h : c.bump? = some (x, d)) : Bumps c [x] d := .cons h (.refl d)

theorem bumps_skipping (h : c.rest = u ++ v) : Bumps c u (c.skipping u v) :=
  bumps_iff.mpr ⟨by rw [rest_skipping, h], by rw [rest_skipping]⟩

theorem bumps_take (c : Cursor) (n : Nat) : Bumps c (c.take n).1 (c.take n).2 := by
  rw [take_eq]
  exact bumps_skipping (List.take_append_drop n c.rest).symm

/-! ## Skipping -/

/-- To skip a line is to consume what there is before a newline or the end. -/
theorem eq_skipLine_iff :
    d = c.skipLine ↔ ∃ u, Bumps c u d ∧ '\n' ∉ u ∧ ∀ x ∈ d.rest.head?, x = '\n' := by
  constructor
  · rintro rfl
    have hsplit : c.rest = c.rest.takeWhile (· != '\n') ++ c.rest.dropWhile (· != '\n') :=
      List.takeWhile_append_dropWhile.symm
    have hu : '\n' ∉ c.rest.takeWhile (· != '\n') := fun h => by simpa using List.mem_takeWhile_imp h
    have hv : ∀ x ∈ (c.rest.dropWhile (· != '\n')).head?, x = '\n' := by
      intro x hx
      have hnot := List.head?_dropWhile_not (· != '\n') c.rest
      rw [hx] at hnot
      simpa using hnot
    rw [skipLine_eq hsplit hu hv]
    exact ⟨_, bumps_skipping hsplit, hu, by rwa [rest_skipping]⟩
  · rintro ⟨u, hbumps, hu, hv⟩
    obtain ⟨hrest, hd⟩ := bumps_iff.mp hbumps
    rw [skipLine_eq hrest hu hv]
    exact hd

/-- To skip through a terminator is to consume what there is through its first occurrence. -/
theorem skipThrough_eq_true_iff (hne : terminator ≠ []) :
    c.skipThrough terminator = (true, d) ↔
      ∃ u, Bumps c (u ++ terminator) d ∧ ∀ place < u.length, ¬OccursAt terminator c.rest place := by
  unfold skipThrough
  constructor
  · intro h
    split at h
    next skipped rest hsplit =>
      cases h
      obtain ⟨u, rfl, hrest, hfirst⟩ := (splitThrough?_eq_some hne).mp hsplit
      exact ⟨u, bumps_skipping hrest, hfirst⟩
    next => cases h
  · rintro ⟨u, hbumps, hfirst⟩
    obtain ⟨hrest, hd⟩ := bumps_iff.mp hbumps
    rw [(splitThrough?_eq_some hne).mpr ⟨u, rfl, hrest, hfirst⟩]
    dsimp only
    rw [← hd]

/-- If there is no terminator, all that is left is consumed. -/
theorem skipThrough_eq_false_iff (hne : terminator ≠ []) :
    c.skipThrough terminator = (false, d) ↔
      Bumps c c.rest d ∧ ∀ place, ¬OccursAt terminator c.rest place := by
  unfold skipThrough
  constructor
  · intro h
    split at h
    next => cases h
    next hsplit =>
      cases h
      exact ⟨bumps_skipping (List.append_nil _).symm, (splitThrough?_eq_none hne).mp hsplit⟩
  · rintro ⟨hbumps, hnone⟩
    obtain ⟨hrest, hd⟩ := bumps_iff.mp hbumps
    have hend : d.rest = [] := by simpa using hrest
    rw [(splitThrough?_eq_none hne).mpr hnone]
    dsimp only
    rw [← hend, ← hd]

/-! ## Where a cursor stands -/

/-- The place of a cursor among the bytes of a text. -/
def bytePosition (c : Cursor) (text : String) : Nat := text.utf8ByteSize - byteSize c.rest

/-- A cursor stands behind some characters of a text, in the row and column of the next one. -/
structure Placed (text : String) (u : List Char) (c : Cursor) : Prop where
  split : text.toList = u ++ c.rest
  row : c.row = rowBehind u
  column : c.column = columnBehind u

namespace Placed

theorem start (text : String) : Placed text [] (Cursor.start text) := ⟨rfl, rfl, rfl⟩

/-- A newline opens a row, any other character takes a column. -/
theorem bump (h : Placed text u c) (hx : c.bump? = some (x, d)) : Placed text (u ++ [x]) d := by
  obtain ⟨hrest, hd⟩ := bump?_eq_some.mp hx
  have hc : c = cursorBehind u c.rest := Cursor.ext h.row h.column rfl
  rw [hc, Lexer.cursorBehind_skipping] at hd
  refine ⟨?_, congrArg Cursor.row hd, congrArg Cursor.column hd⟩
  rw [h.split, hrest, List.append_assoc, List.singleton_append]

theorem bumps (h : Placed text u c) (hv : Bumps c v d) : Placed text (u ++ v) d := by
  induction hv generalizing u with
  | refl => rwa [List.append_nil]
  | @cons c d e x v hx _ ih =>
      have hnext := ih (h.bump hx)
      rwa [List.append_assoc, List.singleton_append] at hnext

theorem bytePosition_eq (h : Placed text u c) : c.bytePosition text = byteSize u := by
  rw [bytePosition, ← Text.byteSize_toList, h.split, Text.byteSize_append, Nat.add_sub_cancel]

/-- A cursor stands between two characters. -/
theorem isValid (h : Placed text u c) : String.Pos.Raw.IsValid text ⟨c.bytePosition text⟩ := by
  refine String.Pos.Raw.isValid_iff_exists_append.mpr ⟨String.ofList u, String.ofList c.rest, ?_, ?_⟩
  · rw [← String.toList_inj, h.split, String.toList_append, String.toList_ofList, String.toList_ofList]
  · rw [h.bytePosition_eq]
    rfl

theorem bytePosition_bumps (h : Placed text u c) (hv : Bumps c v d) :
    d.bytePosition text = c.bytePosition text + byteSize v := by
  rw [(h.bumps hv).bytePosition_eq, h.bytePosition_eq, Text.byteSize_append]

/-- No row and no column is greater than the number of characters by more than one. -/
theorem bounded (h : Placed text u c) : c.row ≤ text.length + 1 ∧ c.column ≤ text.length + 1 := by
  have hlength : u.length ≤ text.length := by
    rw [← String.length_toList, h.split, List.length_append]
    exact Nat.le_add_right _ _
  have hrow : u.count '\n' ≤ u.length := List.count_le_length
  have hcolumn : (u.reverse.takeWhile (· != '\n')).length ≤ u.length :=
    (List.takeWhile_prefix _).length_le.trans_eq List.length_reverse
  rw [h.row, h.column, rowBehind, columnBehind]
  omega

end Placed

/-! ## The operations -/

/-- What a lexer does with its cursor. -/
inductive Step where
  | bump
  | eat (x : Char)
  | eatText (text : List Char)
  | takeWhile (test : Char → Bool)
  | skipLine
  | skipThrough (terminator : List Char) (hne : terminator ≠ [])

/-- The cursor behind an operation. One that consumes nothing leaves it. -/
def Step.run : Step → Cursor → Cursor
  | bump, c => (c.bump?.map Prod.snd).getD c
  | eat x, c => (c.eat? x).getD c
  | eatText text, c => (c.eatText? text).getD c
  | takeWhile test, c => (c.takeWhile test).2
  | skipLine, c => c.skipLine
  | skipThrough terminator _, c => (c.skipThrough terminator).2

/-- Each operation consumes characters as if one by one. -/
theorem Step.bumps (step : Step) (c : Cursor) : ∃ u, Bumps c u (step.run c) := by
  cases step with
  | bump =>
      show ∃ u, Bumps c u ((c.bump?.map Prod.snd).getD c)
      cases hx : c.bump? with
      | none => exact ⟨[], .refl c⟩
      | some consumed => exact ⟨[consumed.1], .single hx⟩
  | eat x =>
      show ∃ u, Bumps c u ((c.eat? x).getD c)
      unfold eat?
      cases hx : c.bump? with
      | none => exact ⟨[], .refl c⟩
      | some consumed =>
          dsimp only
          split
          next => exact ⟨[consumed.1], .single hx⟩
          next => exact ⟨[], .refl c⟩
  | eatText text =>
      show ∃ u, Bumps c u ((c.eatText? text).getD c)
      unfold eatText?
      split
      next => exact ⟨_, bumps_take c text.length⟩
      next => exact ⟨[], .refl c⟩
  | takeWhile test => exact ⟨_, bumps_take c _⟩
  | skipLine =>
      obtain ⟨u, hbumps, -⟩ := eq_skipLine_iff.mp (rfl : c.skipLine = c.skipLine)
      exact ⟨u, hbumps⟩
  | skipThrough terminator hne =>
      show ∃ u, Bumps c u (c.skipThrough terminator).2
      cases hskip : c.skipThrough terminator with
      | mk found d =>
          cases found with
          | true =>
              obtain ⟨u, hbumps, -⟩ := (skipThrough_eq_true_iff hne).mp hskip
              exact ⟨_, hbumps⟩
          | false => exact ⟨_, ((skipThrough_eq_false_iff hne).mp hskip).1⟩

/-- The cursors that operations reach from the start of a text. -/
inductive Reached (text : String) : Cursor → Prop where
  | start : Reached text (Cursor.start text)
  | step {c : Cursor} (step : Step) (h : Reached text c) : Reached text (step.run c)

theorem Reached.placed (h : Reached text c) : ∃ u, Placed text u c := by
  induction h with
  | start => exact ⟨[], .start text⟩
  | step step _ ih =>
      obtain ⟨u, hu⟩ := ih
      obtain ⟨v, hv⟩ := step.bumps _
      exact ⟨u ++ v, hu.bumps hv⟩

/-! ## The search among bytes -/

theorem occursAt_singleton {s : List Char} {place : Nat} (h : OccursAt [x] s place) : s[place]? = some x := by
  obtain ⟨rest, hrest⟩ := h
  rw [← List.head?_drop, ← hrest]
  rfl

/-- A line is skipped up to the first byte of a newline. -/
theorem Placed.skipLine_bytes (h : Placed text u c) :
    ∃ offset, c.skipLine.bytePosition text = c.bytePosition text + offset ∧
      (∀ k < offset, ¬BytesOccurAt ['\n'] c.rest k) ∧
      (BytesOccurAt ['\n'] c.rest offset ∨ c.skipLine.rest = []) := by
  obtain ⟨v, hbumps, hv, hend⟩ := eq_skipLine_iff.mp (rfl : c.skipLine = c.skipLine)
  obtain ⟨hrest, -⟩ := bumps_iff.mp hbumps
  have hne : ['\n'] ≠ [] := List.cons_ne_nil _ _
  have hnone {place : Nat} (hplace : place < v.length) : ¬OccursAt ['\n'] c.rest place := by
    intro hoccurs
    have hget := occursAt_singleton hoccurs
    rw [hrest, List.getElem?_append_left hplace] at hget
    exact hv (List.mem_of_getElem? hget)
  refine ⟨byteSize v, h.bytePosition_bumps hbumps, ?_⟩
  cases hbehind : c.skipLine.rest with
  | nil =>
      rw [hbehind, List.append_nil] at hrest
      refine ⟨fun k _ => Text.not_bytesOccurAt hne (fun place hoccurs => ?_) k, .inr rfl⟩
      refine hnone (Nat.lt_of_not_le fun hle => ?_) hoccurs
      have hget := occursAt_singleton hoccurs
      rw [hrest, List.getElem?_eq_none hle] at hget
      cases hget
  | cons y w =>
      rw [hbehind] at hrest hend
      obtain rfl := hend y rfl
      have hsplit : c.rest = v ++ ['\n'] ++ w := by rw [hrest, List.append_assoc, List.singleton_append]
      obtain ⟨hfound, hfirst⟩ := Text.bytesOccurAt_first (u := v) (v := w) hne
        fun place hplace => hsplit ▸ hnone hplace
      rw [hsplit]
      exact ⟨hfirst, .inl hfound⟩

/-- A comment is skipped through the first place at which the bytes of the terminator stand. -/
theorem Placed.skipThrough_bytes (h : Placed text u c) (hne : terminator ≠ [])
    (hskip : c.skipThrough terminator = (true, d)) :
    ∃ offset, d.bytePosition text = c.bytePosition text + (offset + byteSize terminator) ∧
      BytesOccurAt terminator c.rest offset ∧ ∀ k < offset, ¬BytesOccurAt terminator c.rest k := by
  obtain ⟨v, hbumps, hfirst⟩ := (skipThrough_eq_true_iff hne).mp hskip
  obtain ⟨hrest, -⟩ := bumps_iff.mp hbumps
  rw [hrest] at hfirst ⊢
  refine ⟨byteSize v, ?_, Text.bytesOccurAt_first hne hfirst⟩
  rw [h.bytePosition_bumps hbumps, Text.byteSize_append]

/-! ## The skips -/

/-- The skips from a cursor, in terms of characters consumed one by one, and of a search among bytes. -/
structure SkipsByBumping (text : String) (c : Cursor) : Prop where
  /-- A line is consumed up to a newline or the end. -/
  line : ∀ d, d = c.skipLine ↔ ∃ u, Bumps c u d ∧ '\n' ∉ u ∧ ∀ x ∈ d.rest.head?, x = '\n'
  /-- A comment is consumed through the first occurrence of its terminator. -/
  found : ∀ terminator, terminator ≠ [] → ∀ d, c.skipThrough terminator = (true, d) ↔
    ∃ u, Bumps c (u ++ terminator) d ∧ ∀ place < u.length, ¬OccursAt terminator c.rest place
  /-- If there is no occurrence, all that is left is consumed. -/
  missing : ∀ terminator, terminator ≠ [] → ∀ d, c.skipThrough terminator = (false, d) ↔
    Bumps c c.rest d ∧ ∀ place, ¬OccursAt terminator c.rest place
  lineBytes : ∃ offset, c.skipLine.bytePosition text = c.bytePosition text + offset ∧
    (∀ k < offset, ¬BytesOccurAt ['\n'] c.rest k) ∧
    (BytesOccurAt ['\n'] c.rest offset ∨ c.skipLine.rest = [])
  foundBytes : ∀ terminator, terminator ≠ [] → ∀ d, c.skipThrough terminator = (true, d) →
    ∃ offset, d.bytePosition text = c.bytePosition text + (offset + byteSize terminator) ∧
      BytesOccurAt terminator c.rest offset ∧ ∀ k < offset, ¬BytesOccurAt terminator c.rest k
  missingBytes : ∀ terminator, terminator ≠ [] → ∀ d, c.skipThrough terminator = (false, d) →
    ∀ k, ¬BytesOccurAt terminator c.rest k

/-- **Skipping is bumping.** Whatever operations a cursor was moved by, it stands between two characters of
its text: the row is one more than the newlines behind it, the column one more than the characters since the
last of them, and neither is greater than the number of characters by more than one, so that 32 bits hold
them for every text that has fewer than `2 ^ 32 - 1`. From there a line is skipped by consuming one
character after the other up to a newline or the end, and a comment by consuming them through the first
occurrence of the terminator, or to the end if there is none; and that is where a search among the bytes
leads. -/
theorem skips_equal_bumps (h : Reached text c) :
    (∃ u, text.toList = u ++ c.rest ∧ c.row = 1 + u.count '\n' ∧
      c.column = 1 + (Text.lastRow u).length ∧ c.bytePosition text = byteSize u) ∧
    String.Pos.Raw.IsValid text ⟨c.bytePosition text⟩ ∧
    (c.row ≤ text.length + 1 ∧ c.column ≤ text.length + 1) ∧
    SkipsByBumping text c := by
  obtain ⟨u, hu⟩ := h.placed
  refine ⟨⟨u, hu.split, hu.row, ?_, hu.bytePosition_eq⟩, hu.isValid, hu.bounded, ?_⟩
  · rw [hu.column, columnBehind, Text.lastRow, List.length_reverse]
  · exact
      { line := fun d => eq_skipLine_iff
        found := fun terminator hne d => skipThrough_eq_true_iff hne
        missing := fun terminator hne d => skipThrough_eq_false_iff hne
        lineBytes := hu.skipLine_bytes
        foundBytes := fun terminator hne d => hu.skipThrough_bytes hne
        missingBytes := fun terminator hne d hskip =>
          Text.not_bytesOccurAt hne ((skipThrough_eq_false_iff hne).mp hskip).2 }

/-- A comment that holds a newline and characters of two bytes is skipped into the second row. -/
theorem skips_equal_bumps_comment :
    Reached "é/*\nπ*/x" ⟨2, 4, ['x']⟩ ∧ bytePosition ⟨2, 4, ['x']⟩ "é/*\nπ*/x" = 9 ∧
      String.Pos.Raw.IsValid "é/*\nπ*/x" ⟨9⟩ ∧ SkipsByBumping "é/*\nπ*/x" ⟨2, 4, ['x']⟩ := by
  have hreached : Reached "é/*\nπ*/x" ⟨2, 4, ['x']⟩ :=
    .step (.skipThrough ['*', '/'] (List.cons_ne_nil _ _)) (.step (.eatText ['/', '*']) (.step .bump .start))
  obtain ⟨-, hvalid, -, hskips⟩ := skips_equal_bumps hreached
  have hposition : bytePosition ⟨2, 4, ['x']⟩ "é/*\nπ*/x" = 9 := by decide
  rw [hposition] at hvalid
  exact ⟨hreached, hposition, hvalid, hskips⟩

end IslandScript.Cursor
