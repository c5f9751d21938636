import IslandScript.Command.Characters
import IslandScript.Diagnostic
import IslandScript.Proofs.Lexer.Tiling
import IslandScript.Proofs.Text.Box

/-!
# What an error underlines

An error about a token shows the line that the token stands on, and below it an underline. Three counts
of the same characters meet here: the row and the column that the lexer gave the token, the lines that
the text is split into, and the spaces in front of the underline. They agree for every token that does
not break its row (`renderError_underlines`). The line is shown as it is, but for a carriage return at
its end: a line that ends its text keeps one, and the box takes it off
(`renderError_underlines_carriageReturn`).
-/

namespace IslandScript

open Lexer Text

/-! ## Where a token stands -/

/-- A token of a text is read from a piece of it. -/
structure StandsAt [Text.CharNames]
    (text : String) (t : Token String) (before piece after : List Char) : Prop where
  text_eq : text.toList = before ++ (piece ++ after)
  span : t.span = spanBehind before piece
  alone : tokenize (String.ofList piece) = .ok [⟨⟨1, 1, t.span.length⟩, t.kind⟩,
    ⟨.point (rowBehind piece) (columnBehind piece), .endOfFile⟩]

/-- Every token that was read stands somewhere behind where the lexer started. -/
theorem exists_piece_of_mem_scanAll [Text.CharNames]
    {bound : List Char} {before rest : List Char} {t : Token String}
    (ht : t ∈ (scanAll bound (cursorBehind before rest)).tokens) :
    ∃ more piece after, rest = more ++ (piece ++ after) ∧ Piece piece after t.kind ∧
      StartsNone (piece ++ after) ∧ t.span = spanBehind (before ++ more) piece := by
  induction bound generalizing before rest with
  | nil => cases ht
  | cons x bound ih =>
      cases hscan : scanNext (cursorBehind before rest) with
      | error e =>
          rw [scanAll_error hscan] at ht
          cases ht
      | ok next =>
          cases next with
          | finish here =>
              rw [scanAll_finish hscan] at ht
              cases ht
          | token first next =>
              obtain ⟨gap, u, hrest, hgap, hstarts, hpiece, hspan, hnext⟩ := exists_readsFrom hscan
              rw [cursorBehind_skipping] at hspan hnext
              rw [scanAll_token hscan] at ht
              rcases List.mem_cons.mp ht with rfl | ht
              · exact ⟨gap, u, next.rest, hrest, hpiece, hstarts, hspan⟩
              · rw [hnext] at ht
                obtain ⟨more, piece, after, hmore, hpiece', hstarts', hspan'⟩ := ih ht
                have hrest' : rest = gap ++ (u ++ next.rest) := hrest
                refine ⟨gap ++ u ++ more, piece, after, ?_, hpiece', hstarts', ?_⟩
                · rw [hrest', hmore]
                  simp only [List.append_assoc]
                · rw [hspan']
                  simp only [List.append_assoc]

/-! ## The line of a token -/

/-- The line of a row is the one that the characters before it are followed on. -/
theorem line?_rowBehind (name text : String) {before v : List Char} (h : text.toList = before ++ v) :
    (Source.mk name text).line? (rowBehind before) =
      ((linesOf (lastRow before ++ v))[0]?).map String.ofList := by
  have hrow : (rowBehind before == 0) = false := by
    rw [beq_eq_false_iff_ne]
    unfold rowBehind
    omega
  have hindex : rowBehind before - 1 = before.count '\n' := by
    unfold rowBehind
    omega
  rw [Source.line?, hrow, if_neg Bool.false_ne_true, hindex, lines, List.getElem?_map, h,
    linesOf_getElem?]

/-- The first line of a text holds what the text starts with, if that breaks no row and does not end
with a carriage return. -/
theorem exists_linesOf_append {u : List Char} (hne : u ≠ []) (hu : '\n' ∉ u)
    (hreturn : ∀ x ∈ u.getLast?, x ≠ '\r') (v : List Char) :
    ∃ right, (linesOf (u ++ v))[0]? = some (u ++ right) ∧ '\n' ∉ right := by
  obtain ⟨row, rest, rfl, hrow, hrest⟩ := exists_run (· != '\n') v
  have hmem : '\n' ∉ row := fun hmem => by simpa using hrow _ hmem
  cases rest with
  | nil =>
      rw [List.append_nil]
      have hboth : '\n' ∉ u ++ row := by simp [hu, hmem]
      have hne' : u ++ row ≠ [] := by simp [hne]
      rw [linesOf_last hboth hne']
      exact ⟨row, rfl, hmem⟩
  | cons x rest =>
      obtain rfl : x = '\n' := by simpa using hrest x rfl
      have hboth : '\n' ∉ u ++ row := by simp [hu, hmem]
      rw [← List.append_assoc, linesOf_row hboth, withoutReturn_append hreturn]
      refine ⟨withoutReturn row, rfl, ?_⟩
      intro hin
      refine hmem ?_
      unfold withoutReturn at hin
      split at hin
      · exact List.mem_of_mem_dropLast hin
      · exact hin

/-! ## The box of an error -/

/-- The lines of a box, one below the other. -/
def stacked (boxed : List String) : String := String.join (boxed.map (· ++ "\n"))

/-- How a box shows a line: behind its row, and without a carriage return at its end. -/
def quotedLine (row : Nat) (line : String) : String :=
  toString row ++ "| " ++ String.ofList (withoutReturn line.toList)

/-- The width of what stands in front of a line. -/
def marginWidth (row : Nat) : Nat := (toString row ++ "| ").length

/-- An underline behind a number of spaces. -/
def underline (spaces width : Nat) : String :=
  String.ofList (List.replicate spaces ' ' ++ List.replicate width '═')

theorem notMem_margin (row : Nat) : '\n' ∉ (toString row ++ "| ").toList := by
  intro h
  simp only [String.toList_append, List.mem_append] at h
  rcases h with h | h
  · have hdigits : (toString row).toList = Nat.toDigits 10 row := by simp [toString, Nat.repr]
    rw [hdigits] at h
    exact absurd (Nat.isDigit_of_mem_toDigits (by decide) (by decide) h) (by decide)
  · exact absurd h (by decide)

theorem toList_quotation {span : Span} (line : String) (hcolumn : 1 ≤ span.column)
    (hlength : 1 ≤ span.length) :
    (Diagnostic.quotation span line).toList =
      (toString span.row ++ "| ").toList ++ line.toList ++
        '\n' :: (underline (marginWidth span.row + (span.column - 1)) span.length).toList := by
  have hwidth : max span.length 1 = span.length := Nat.max_eq_left hlength
  have hspaces : span.column + (toString span.row).length + 1 =
      marginWidth span.row + (span.column - 1) := by
    have htwo : "| ".length = 2 := rfl
    rw [marginWidth, String.length_append, htwo]
    omega
  have htext : Diagnostic.quotation span line = toString span.row ++ "| " ++ line ++ "\n" ++
      String.ofList (List.replicate (span.column + (toString span.row).length + 1) ' ') ++
        String.ofList (List.replicate (max span.length 1) '═') := rfl
  have hbreak : "\n".toList = ['\n'] := rfl
  rw [htext, hwidth, hspaces]
  simp only [underline, String.toList_append, String.toList_ofList, hbreak, List.append_assoc,
    List.cons_append, List.nil_append]

/-- The lines of a quotation: the quoted line and the underline. -/
theorem linesOf_quotation {span : Span} {line : String} (hline : '\n' ∉ line.toList)
    (hcolumn : 1 ≤ span.column) (hlength : 1 ≤ span.length) :
    (linesOf (Diagnostic.quotation span line).toList).map String.ofList =
      [quotedLine span.row line, underline (marginWidth span.row + (span.column - 1)) span.length] := by
  have hrow : '\n' ∉ (toString span.row ++ "| ").toList ++ line.toList := by
    rw [List.mem_append, not_or]
    exact ⟨notMem_margin span.row, hline⟩
  have hmargin : ∀ x ∈ (toString span.row ++ "| ").toList.getLast?, x ≠ '\r' := by
    intro x hx
    rw [String.toList_append, List.getLast?_append_of_ne_nil _ (by decide)] at hx
    cases hx
    decide
  have hunder : '\n' ∉ (underline (marginWidth span.row + (span.column - 1)) span.length).toList := by
    simp [underline]
  have hne : (underline (marginWidth span.row + (span.column - 1)) span.length).toList ≠ [] := by
    have hpos : span.length ≠ 0 := Nat.ne_of_gt hlength
    simp [underline, hpos]
  rw [toList_quotation line hcolumn hlength, linesOf_row hrow, linesOf_last hunder hne,
    withoutReturn_append hmargin]
  simp only [quotedLine, List.map_cons, List.map_nil, String.ofList_append, String.ofList_toList]

/-- An error at a place on a line of the source is drawn over that line. -/
theorem Diagnostic.renderError_of_line {d : Diagnostic} {source : Source} {span : Span}
    {line : String} (hspan : d.span = some span) (hline : source.line? span.row = some line) :
    d.renderError (some source) = box (d.header ++ "\n\n" ++ Diagnostic.quotation span line) := by
  simp [Diagnostic.renderError, hspan, hline]

/-- The box of an error with a line shows the line and the underline last. -/
theorem exists_head_renderError {d : Diagnostic} {source : Source} {span : Span} {line : String}
    (hspan : d.span = some span) (hsource : source.line? span.row = some line)
    (hline : '\n' ∉ line.toList) (hcolumn : 1 ≤ span.column) (hlength : 1 ≤ span.length) :
    ∃ head, d.renderError (some source) =
      stacked (boxLines (head ++ [quotedLine span.row line,
        underline (marginWidth span.row + (span.column - 1)) span.length])) := by
  refine ⟨(linesOf (d.header.toList ++ ['\n'] ++ ['\n'])).map String.ofList, ?_⟩
  have hlines : lines (d.header ++ "\n\n" ++ Diagnostic.quotation span line) =
      (linesOf (d.header.toList ++ ['\n'] ++ ['\n'])).map String.ofList ++
        [quotedLine span.row line,
          underline (marginWidth span.row + (span.column - 1)) span.length] := by
    have htext : (d.header ++ "\n\n" ++ Diagnostic.quotation span line).toList =
        d.header.toList ++ ['\n'] ++ '\n' :: (Diagnostic.quotation span line).toList := by
      simp [String.toList_append]
    rw [lines, htext, linesOf_append, List.map_append, linesOf_quotation hline hcolumn hlength]
  rw [Diagnostic.renderError_of_line hspan hsource, box, hlines]
  rfl

/-! ## The underline of a token -/

/-- An error about a token that does not break its row shows, as the last two lines of its box, the row
and the line that the token stands on and an underline, which covers the characters of the token and
no others. In the line itself the token stands where its span says. A carriage return at the end of the
line is not shown. -/
theorem renderError_underlines [Text.CharNames] {text : String} {ts : List (Token String)}
    (h : tokenize text = .ok ts) {t : Token String} (ht : t ∈ ts) (hline : t.kind ≠ .endOfLine)
    (hend : t.kind ≠ .endOfFile) (name : String) (stage : Stage) (message : String) :
    ∃ before piece after, StandsAt text t before piece after ∧
      ('\n' ∉ piece →
        ∃ line, (Source.mk name text).line? t.span.row = some line ∧
          (line.toList.drop (t.span.column - 1)).take t.span.length = piece ∧
          ∃ head spaces, (Diagnostic.error stage message t.span).render (some ⟨name, text⟩) =
              stacked (boxLines (head ++ [quotedLine t.span.row line, underline spaces piece.length])) ∧
            spaces = marginWidth t.span.row + (t.span.column - 1) ∧
            ((quotedLine t.span.row line).toList.drop spaces).take piece.length = piece) := by
  obtain ⟨here, -, rfl⟩ := exists_scan_of_tokenize h
  have hmem : t ∈ (scanAll text.toList (cursorBehind [] text.toList)).tokens := by
    rcases List.mem_append.mp ht with ht | ht
    · exact ht
    · rw [List.mem_singleton] at ht
      exact absurd (congrArg Token.kind ht) hend
  obtain ⟨before, piece, after, htext, hpiece, hstarts, hspan⟩ := exists_piece_of_mem_scanAll hmem
  rw [List.nil_append] at hspan
  have halone := tokenize_piece hpiece hstarts
  refine ⟨before, piece, after, ⟨htext, hspan, ?_⟩, ?_⟩
  · rw [halone, hspan]
    rfl
  · intro hbreak
    -- The line is what stands before the token on its row, the token and what comes behind it.
    have hlast : ∀ x ∈ (lastRow before ++ piece).getLast?, x ≠ '\r' := by
      rw [List.getLast?_append_of_ne_nil _ hpiece.ne_nil]
      exact hpiece.getLast_ne hline
    have hrow : '\n' ∉ lastRow before ++ piece := by
      rw [List.mem_append, not_or]
      exact ⟨notMem_lastRow before, hbreak⟩
    obtain ⟨right, hfirst, hright⟩ := exists_linesOf_append (by simp [hpiece.ne_nil]) hrow hlast after
    have hlength : t.span.length = piece.length := by
      rw [hspan]
      exact if_neg hbreak
    have hcolumn : t.span.column = 1 + (lastRow before).length := by
      rw [hspan, lastRow, List.length_reverse]
      rfl
    have hsource : (Source.mk name text).line? t.span.row =
        some (String.ofList (lastRow before ++ piece ++ right)) := by
      rw [hspan]
      have hline := line?_rowBehind name text htext
      rw [← List.append_assoc, hfirst] at hline
      exact hline
    have hplace : (Diagnostic.error stage message t.span).span = some t.span := by
      have hrow : t.span.isNone = false := by
        rw [hspan, Span.isNone, beq_eq_false_iff_ne]
        simp only [spanBehind, rowBehind]
        omega
      simp only [Diagnostic.error, Diagnostic.place, hrow, Bool.false_eq_true, if_false]
    have hline : '\n' ∉ (String.ofList (lastRow before ++ piece ++ right)).toList := by
      rw [String.toList_ofList, List.mem_append, not_or]
      exact ⟨hrow, hright⟩
    have hpos := List.length_pos_of_ne_nil hpiece.ne_nil
    obtain ⟨head, hbox⟩ := exists_head_renderError hplace hsource hline (by omega) (by omega)
    rw [hlength] at hbox
    have hbefore : t.span.column - 1 = (lastRow before).length := by omega
    refine ⟨_, hsource, ?_, head, _, hbox, rfl, ?_⟩
    · rw [String.toList_ofList, hbefore, hlength, List.append_assoc, List.drop_left, List.take_left]
    · have hquoted : (quotedLine t.span.row (String.ofList (lastRow before ++ piece ++ right))).toList =
          (toString t.span.row ++ "| ").toList ++ lastRow before ++ (piece ++ withoutReturn right) := by
        rw [quotedLine, String.toList_append, String.toList_ofList, String.toList_ofList,
          withoutReturn_append hlast]
        simp only [List.append_assoc]
      have hwidth : marginWidth t.span.row + (t.span.column - 1) =
          ((toString t.span.row ++ "| ").toList ++ lastRow before).length := by
        rw [hbefore, List.length_append, String.length_toList]
        rfl
      rw [hquoted, hwidth, List.drop_left, List.take_left]

section

attribute [local instance] Command.charNames

attribute [local instance] Command.charNames

/-- On the second row the underline is as far to the right as the token is. -/
theorem renderError_underlines_secondRow :
    tokenize "ab\n cd" = .ok [⟨⟨1, 1, 2⟩, .name "ab"⟩, ⟨⟨1, 3, 1⟩, .endOfLine⟩, ⟨⟨2, 2, 2⟩, .name "cd"⟩,
        ⟨⟨2, 4, 1⟩, .endOfFile⟩] ∧
      ∃ before piece after, StandsAt "ab\n cd" ⟨⟨2, 2, 2⟩, .name "cd"⟩ before piece after ∧
        ('\n' ∉ piece →
          ∃ line, (Source.mk "notes" "ab\n cd").line? 2 = some line ∧
            (line.toList.drop (2 - 1)).take 2 = piece ∧
            ∃ head spaces,
              (Diagnostic.error .parser "No" ⟨2, 2, 2⟩).render (some ⟨"notes", "ab\n cd"⟩) =
                stacked (boxLines (head ++ [quotedLine 2 line, underline spaces piece.length])) ∧
              spaces = marginWidth 2 + (2 - 1) ∧
              ((quotedLine 2 line).toList.drop spaces).take piece.length = piece) := by
  have htokens : tokenize "ab\n cd" = .ok [⟨⟨1, 1, 2⟩, .name "ab"⟩, ⟨⟨1, 3, 1⟩, .endOfLine⟩,
      ⟨⟨2, 2, 2⟩, .name "cd"⟩, ⟨⟨2, 4, 1⟩, .endOfFile⟩] := by rfl
  exact ⟨htokens, renderError_underlines htokens (by simp) (by simp) (by simp) "notes" .parser "No"⟩

end

/-- What a line of a box holds is in the box. -/
theorem mem_stacked_boxLines {body : List String} {line : String} (hline : line ∈ body) {x : Char}
    (hx : x ∈ line.toList) : x ∈ (stacked (boxLines body)).toList := by
  have hne : line ≠ "" := by
    rintro rfl
    cases hx
  have hboxed : boxLine (widest body) line ∈ boxLines body :=
    mem_boxLines.mpr (.inr (.inl ⟨line, hline, rfl⟩))
  have hin : x ∈ (boxLine (widest body) line ++ "\n").toList := by
    simp [boxLine_of_ne hne, padEnd, hx]
  rw [stacked, String.toList_join, List.mem_flatMap]
  exact ⟨_, List.mem_map_of_mem hboxed, hin⟩

/-- The characters that a box is drawn with. -/
def boxCharacters : List Char := ['╭', '╮', '├', '┤', '╰', '╯', '│', '─', ' ', '\n']

theorem mem_boxCharacters {text : String} (h : text.toList.all boxCharacters.contains = true) {x : Char}
    (hx : x ∈ text.toList) : x ∈ boxCharacters := by
  have hcontains := List.all_eq_true.mp h x hx
  exact List.contains_iff_mem.mp hcontains

theorem mem_rule {left right x : Char} {width : Nat} (hleft : left ∈ boxCharacters)
    (hright : right ∈ boxCharacters) (hx : x ∈ (rule left right width).toList) :
    x ∈ boxCharacters := by
  rw [rule, String.toList_ofList, List.mem_cons, List.mem_append, List.mem_singleton] at hx
  rcases hx with rfl | hx | rfl
  · exact hleft
  · rw [List.eq_of_mem_replicate hx]
    decide
  · exact hright

/-- A line of a box holds what it is drawn with and the line that it is drawn for. -/
theorem mem_of_mem_boxLine {line : String} {width : Nat} {x : Char}
    (hx : x ∈ (boxLine width line).toList) : x ∈ boxCharacters ∨ x ∈ line.toList := by
  by_cases hline : line = ""
  · rw [hline, boxLine_empty] at hx
    exact .inl (mem_rule (by decide) (by decide) hx)
  · rw [boxLine_of_ne hline] at hx
    simp only [padEnd, String.toList_append, String.toList_ofList, List.mem_append] at hx
    rcases hx with (hx | hx | hx) | hx
    · exact .inl (mem_boxCharacters (by decide) hx)
    · exact .inr hx
    · rw [List.eq_of_mem_replicate hx]
      exact .inl (by decide)
    · exact .inl (mem_boxCharacters (by decide) hx)

/-- A box holds its lines and what it is drawn with, and nothing else. -/
theorem mem_of_mem_stacked_boxLines {body : List String} {x : Char}
    (hx : x ∈ (stacked (boxLines body)).toList) :
    x ∈ boxCharacters ∨ ∃ line ∈ body, x ∈ line.toList := by
  rw [stacked, String.toList_join, List.mem_flatMap] at hx
  obtain ⟨_, hmem, hx⟩ := hx
  obtain ⟨boxed, hboxed, rfl⟩ := List.mem_map.mp hmem
  rw [String.toList_append, List.mem_append] at hx
  rcases hx with hx | hx
  · rcases mem_boxLines.mp hboxed with rfl | ⟨line, hline, rfl⟩ | rfl
    · exact .inl (mem_rule (by decide) (by decide) hx)
    · exact (mem_of_mem_boxLine hx).imp_right fun hx => ⟨line, hline, hx⟩
    · exact .inl (mem_rule (by decide) (by decide) hx)
  · exact .inl (mem_boxCharacters (by decide) hx)

attribute [local instance] Command.charNames

attribute [local instance] Command.charNames

/-- The last line of a text keeps a carriage return at its end, and an error does not show that. -/
theorem renderError_underlines_carriageReturn :
    tokenize "ab\r" =
        .ok [⟨⟨1, 1, 2⟩, .name "ab"⟩, ⟨⟨1, 3, 1⟩, .endOfLine⟩, ⟨⟨1, 4, 1⟩, .endOfFile⟩] ∧
      StandsAt "ab\r" ⟨⟨1, 1, 2⟩, .name "ab"⟩ [] ['a', 'b'] ['\r'] ∧
      (Source.mk "notes" "ab\r").line? 1 = some "ab\r" ∧
      ¬ ∃ head last, (Diagnostic.error .parser "No" ⟨1, 1, 2⟩).render (some ⟨"notes", "ab\r"⟩) =
        stacked (boxLines (head ++ ["1| " ++ "ab\r", last])) := by
  refine ⟨by rfl, ⟨rfl, rfl, by rfl⟩, by rfl, ?_⟩
  rintro ⟨head, last, hbox⟩
  have hshown : (Diagnostic.error .parser "No" ⟨1, 1, 2⟩).render (some ⟨"notes", "ab\r"⟩) =
      stacked (boxLines ["O'ahu Parser Error ✿ No!", "", "1| ab", "   ══"]) := by rfl
  have hmem : "1| " ++ "ab\r" ∈ head ++ ["1| " ++ "ab\r", last] := by simp
  have hreturn : '\r' ∈ (stacked (boxLines (head ++ ["1| " ++ "ab\r", last]))).toList :=
    mem_stacked_boxLines hmem (by decide)
  rw [← hbox, hshown] at hreturn
  rcases mem_of_mem_stacked_boxLines hreturn with hframe | hline
  · exact absurd hframe (by decide)
  · exact absurd hline (by decide)

end IslandScript
