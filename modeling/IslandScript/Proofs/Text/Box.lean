import IslandScript.Text.Box
import IslandScript.Proofs.Text.Lines

/-!
# What a box is around a message

A box is drawn line by line and read as one text. Its lines are the ones that were drawn (`lines_box`): a
line of a message holds no newline, and behind the right border no carriage return is left to belong to a
line end. All of them are as wide as the longest line of the message and four characters more; each line of
the message is in the box as it is, or a divider stands for it if it is empty (`box_rectangular`).
-/

namespace IslandScript.Text

variable {body : List String} {line boxed : String} {width : Nat}

/-! ## The longest line -/

/-- The length of the longest of some lines, which is 0 if there are none. -/
structure IsWidth (body : List String) (width : Nat) : Prop where
  le : ∀ line ∈ body, line.length ≤ width
  attained : width = 0 ∨ ∃ line ∈ body, line.length = width

theorem IsWidth.le_of_isWidth {other : Nat} (h : IsWidth body width) (h' : IsWidth body other) :
    width ≤ other := by
  rcases h.attained with rfl | ⟨line, hline, rfl⟩
  · exact Nat.zero_le other
  · exact h'.le line hline

theorem IsWidth.unique {other : Nat} (h : IsWidth body width) (h' : IsWidth body other) :
    width = other :=
  Nat.le_antisymm (h.le_of_isWidth h') (h'.le_of_isWidth h)

theorem widest_eq (body : List String) : widest body = (body.map String.length).max?.getD 0 := by
  rw [widest, ← List.foldl_map, List.foldl_max, Nat.zero_max]

theorem isWidth_widest (body : List String) : IsWidth body (widest body) := by
  cases hmax : (body.map String.length).max? with
  | none =>
      obtain rfl : body = [] := by simpa using hmax
      exact ⟨by simp, .inl rfl⟩
  | some width =>
      obtain ⟨hmem, hle⟩ := List.max?_eq_some_iff.mp hmax
      rw [widest_eq, hmax, Option.getD_some]
      exact ⟨fun line hline => hle line.length (List.mem_map_of_mem hline), .inr (List.mem_map.mp hmem)⟩

/-! ## The lines that are drawn -/

/-- A line drawn from one corner to another. -/
def IsRule (left right : Char) (line : String) : Prop :=
  ∃ n, line.toList = left :: (List.replicate n '─' ++ [right])

theorem isRule_rule (left right : Char) (width : Nat) : IsRule left right (rule left right width) :=
  ⟨width + 2, String.toList_ofList⟩

@[simp] theorem length_rule (left right : Char) (width : Nat) :
    (rule left right width).length = width + 4 := by
  rw [rule, String.length_ofList, List.length_cons, List.length_append, List.length_replicate,
    List.length_singleton]

/-- A text is padded to a width unless it is wider. -/
@[simp] theorem length_padEnd (s : String) (width : Nat) :
    (padEnd s width).length = max s.length width := by
  rw [padEnd, String.length_append, String.length_ofList, List.length_replicate]
  omega

@[simp] theorem boxLine_empty (width : Nat) : boxLine width "" = rule '├' '┤' width := rfl

theorem boxLine_of_ne (h : line ≠ "") : boxLine width line = "│ " ++ padEnd line width ++ " │" := by
  rw [boxLine, if_neg]
  simpa using h

/-- A line that is not too wide fills the width between its borders. -/
theorem length_boxLine (h : line.length ≤ width) : (boxLine width line).length = width + 4 := by
  by_cases hline : line = ""
  · rw [hline, boxLine_empty, length_rule]
  · have hborders : "│ ".length = 2 ∧ " │".length = 2 := ⟨rfl, rfl⟩
    rw [boxLine_of_ne hline, String.length_append, String.length_append, length_padEnd]
    omega

/-- A divider stands for an empty line and for no other. -/
theorem isRule_boxLine_iff : IsRule '├' '┤' (boxLine width line) ↔ line = "" := by
  constructor
  · rintro ⟨n, hrule⟩
    by_contra hline
    rw [boxLine_of_ne hline, String.append_assoc, String.toList_append] at hrule
    have hleft : '│' = '├' := (List.cons.inj hrule).1
    exact absurd hleft (by decide)
  · rintro rfl
    exact isRule_rule '├' '┤' width

/-- What a box draws is a rule between two corners or is drawn for a line of the message. -/
theorem mem_boxLines : boxed ∈ boxLines body ↔
    boxed = rule '╭' '╮' (widest body) ∨ (∃ line ∈ body, boxLine (widest body) line = boxed) ∨
      boxed = rule '╰' '╯' (widest body) := by
  simp only [boxLines, List.mem_cons, List.mem_append, List.mem_map, List.not_mem_nil, or_false]

/-! ## The box around some lines -/

/-- Some lines are drawn as a box of a width around others. -/
structure Encloses (width : Nat) (body box : List String) : Prop where
  length_eq : box.length = body.length + 2
  rectangular : ∀ boxed ∈ box, boxed.length = width + 4
  top : ∃ boxed, box.head? = some boxed ∧ IsRule '╭' '╮' boxed
  bottom : ∃ boxed, box.getLast? = some boxed ∧ IsRule '╰' '╯' boxed
  /-- Behind the upper border every line comes in its turn, as a divider or between the other borders. -/
  between : ∀ k line, body[k]? = some line → ∃ boxed, box[k + 1]? = some boxed ∧
    (IsRule '├' '┤' boxed ↔ line = "") ∧
    (line ≠ "" → boxed =
      "│ " ++ line ++ String.ofList (List.replicate (width - line.length) ' ') ++ " │")

theorem encloses_boxLines (body : List String) : Encloses (widest body) body (boxLines body) where
  length_eq := by simp [boxLines]
  rectangular boxed hboxed := by
    rcases mem_boxLines.mp hboxed with rfl | ⟨line, hline, rfl⟩ | rfl
    · exact length_rule _ _ _
    · exact length_boxLine ((isWidth_widest body).le line hline)
    · exact length_rule _ _ _
  top := ⟨_, rfl, isRule_rule '╭' '╮' (widest body)⟩
  bottom := by
    refine ⟨_, ?_, isRule_rule '╰' '╯' (widest body)⟩
    rw [boxLines, ← List.cons_append, List.getLast?_concat]
  between k line hline := by
    have hboxed : (boxLines body)[k + 1]? = some (boxLine (widest body) line) := by
      have hlength := (List.getElem?_eq_some_iff.mp hline).1
      rw [boxLines, List.getElem?_cons_succ, List.getElem?_append_left (by simpa using hlength),
        List.getElem?_map, hline, Option.map_some]
    refine ⟨_, hboxed, isRule_boxLine_iff, fun hne => ?_⟩
    simp only [boxLine_of_ne hne, padEnd, String.append_assoc]

/-! ## The lines of a box -/

/-- Behind a border nothing of a row belongs to the line end. -/
theorem unbroken_append {row : List Char} (hrow : '\n' ∉ row) {border : Char} (hnewline : border ≠ '\n')
    (hreturn : border ≠ '\r') : Unbroken (row ++ [border]) where
  newline := by
    rw [List.mem_append, List.mem_singleton, not_or]
    exact ⟨hrow, hnewline.symm⟩
  stops := by simpa using hreturn

theorem unbroken_rule {left right : Char} (hleft : left ≠ '\n') (hnewline : right ≠ '\n')
    (hreturn : right ≠ '\r') (width : Nat) : Unbroken (rule left right width).toList := by
  rw [rule, String.toList_ofList, ← List.cons_append]
  apply unbroken_append _ hnewline hreturn
  simp [hleft.symm]

theorem unbroken_boxLine (h : '\n' ∉ line.toList) (width : Nat) :
    Unbroken (boxLine width line).toList := by
  by_cases hline : line = ""
  · rw [hline, boxLine_empty]
    exact unbroken_rule (by decide) (by decide) (by decide) width
  · have hborder : " │".toList = [' '] ++ ['│'] := rfl
    rw [boxLine_of_ne hline, String.toList_append, hborder, ← List.append_assoc]
    apply unbroken_append _ (by decide) (by decide)
    simp [padEnd, h]

theorem unbroken_of_mem_boxLines (h : ∀ line ∈ body, '\n' ∉ line.toList)
    (hboxed : boxed ∈ boxLines body) : Unbroken boxed.toList := by
  rcases mem_boxLines.mp hboxed with rfl | ⟨line, hline, rfl⟩ | rfl
  · exact unbroken_rule (by decide) (by decide) (by decide) _
  · exact unbroken_boxLine (h line hline) _
  · exact unbroken_rule (by decide) (by decide) (by decide) _

/-- Lines that newlines end as they are can be read back from the text made of them. -/
theorem lines_join {rows : List String} (h : ∀ row ∈ rows, Unbroken row.toList) :
    lines (String.join (rows.map (· ++ "\n"))) = rows := by
  have hrows : ∀ row ∈ rows.map String.toList, Unbroken row := List.forall_mem_map.mpr h
  have htext : (String.join (rows.map (· ++ "\n"))).toList =
      (rows.map String.toList).flatMap (· ++ ['\n']) := by
    rw [String.toList_join, List.flatMap_map, List.flatMap_map]
    simp only [String.toList_append]
    rfl
  rw [lines, htext, linesOf_flatMap hrows, List.map_map]
  have hsame : String.ofList ∘ String.toList = id := funext fun _ => String.ofList_toList
  rw [hsame, List.map_id]

/-- A box that is read as a text has the lines that were drawn. -/
theorem lines_box (message : String) : lines (box message) = boxLines (lines message) := by
  apply lines_join
  intro boxed hboxed
  apply unbroken_of_mem_boxLines _ hboxed
  intro line hline
  obtain ⟨row, hrow, rfl⟩ := List.mem_map.mp hline
  rw [String.toList_ofList]
  exact notMem_of_mem_linesOf hrow

/-- A box is a rectangle: two lines more than the message has, all of them as wide as its longest line and
four characters more, each with a newline behind it. Between the borders every line of the message is in
its place, as a divider exactly if it is empty and else unchanged. -/
theorem box_rectangular (message : String) :
    ∃ width, IsWidth (lines message) width ∧ Encloses width (lines message) (lines (box message)) ∧
      box message = String.join ((lines (box message)).map (· ++ "\n")) := by
  rw [lines_box]
  exact ⟨widest (lines message), isWidth_widest _, encloses_boxLines _, rfl⟩

/-- An empty line, a carriage return within a line and one that belongs to a line end. -/
theorem box_rectangular_mixed :
    lines "né\n\na\rb\r\n" = ["né", "", "a\rb"] ∧
      Encloses 3 ["né", "", "a\rb"] (lines (box "né\n\na\rb\r\n")) ∧
      ∃ boxed, (lines (box "né\n\na\rb\r\n"))[1]? = some boxed ∧ boxed = "│ né  │" := by
  have hlines : lines "né\n\na\rb\r\n" = ["né", "", "a\rb"] := by rfl
  have hthree : IsWidth ["né", "", "a\rb"] 3 := ⟨by decide, .inr ⟨"a\rb", by decide, rfl⟩⟩
  obtain ⟨width, hwidth, hbox, -⟩ := box_rectangular "né\n\na\rb\r\n"
  rw [hlines] at hwidth hbox
  obtain rfl := hwidth.unique hthree
  obtain ⟨boxed, hboxed, -, hshown⟩ := hbox.between 0 "né" rfl
  exact ⟨hlines, hbox, boxed, hboxed, hshown (by decide)⟩

end IslandScript.Text
