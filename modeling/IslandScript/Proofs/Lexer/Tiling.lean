import IslandScript.Command.Characters
import IslandScript.Proofs.Lexer.Trivia

/-!
# Tokens tile their text

A text that has tokens is nothing but the pieces they were read from, in order, with blanks and comments
between and around them (`Tiles`). Each token stands where its piece does, covers as many characters as
this has, and is what the piece alone is read as.
-/

namespace IslandScript.Lexer

/-! ## Positions -/

/-- The row behind some characters of a text: one more than they hold newlines. -/
def rowBehind (before : List Char) : Nat := 1 + before.count '\n'

/-- The column behind some characters of a text: one more than there are since the last newline. -/
def columnBehind (before : List Char) : Nat := 1 + (before.reverse.takeWhile (· != '\n')).length

/-- The span of a piece behind some characters of a text. A piece that breaks its row covers one
character. -/
def spanBehind (before piece : List Char) : Span :=
  ⟨rowBehind before, columnBehind before, if '\n' ∈ piece then 1 else piece.length⟩

/-- The cursor behind some characters of a text. -/
def cursorBehind (before rest : List Char) : Cursor := ⟨rowBehind before, columnBehind before, rest⟩

theorem cursorBehind_eq_skipping (before rest : List Char) (text : String) :
    cursorBehind before rest = (Cursor.start text).skipping before rest := by
  apply Cursor.ext
  · rw [Cursor.row_skipping]
    rfl
  · by_cases h : '\n' ∈ before
    · rw [Cursor.column_skipping_of_mem h]
      rfl
    · have hall : ∀ x ∈ before.reverse, (x != '\n') = true := by
        intro x hx
        rw [bne_iff_ne]
        rintro rfl
        exact h (List.mem_reverse.mp hx)
      rw [Cursor.column_skipping_of_notMem h]
      simp [cursorBehind, columnBehind, Cursor.start, List.takeWhile_eq_self_iff.mpr hall]
  · rw [Cursor.rest_skipping]
    rfl

theorem cursorBehind_skipping (before rest u v : List Char) :
    (cursorBehind before rest).skipping u v = cursorBehind (before ++ u) v := by
  rw [cursorBehind_eq_skipping before rest "", cursorBehind_eq_skipping (before ++ u) v "",
    Cursor.skipping_skipping]

/-! ## Tokens and their pieces -/

/-- Behind the characters `before`, a text goes on with the pieces of the tokens, blanks and comments
between and around them. -/
inductive Tiles [Text.CharNames] : List Char → List (Token String) → List Char → Prop where
  /-- At the end there are only blanks and comments left. -/
  | finish {before gap : List Char} (hgap : Trivia gap []) :
      Tiles before
        [⟨.point (rowBehind (before ++ gap)) (columnBehind (before ++ gap)), .endOfFile⟩] gap
  /-- A token stands where its piece does, and is what the piece alone is read as. -/
  | token {before gap piece rest : List Char} {t : Token String} {ts : List (Token String)}
      (hgap : Trivia gap (piece ++ rest)) (hpiece : piece ≠ []) (hkind : t.kind ≠ .endOfFile)
      (hspan : t.span = spanBehind (before ++ gap) piece)
      (halone : tokenize (String.ofList piece) = .ok [⟨⟨1, 1, t.span.length⟩, t.kind⟩,
        ⟨.point (rowBehind piece) (columnBehind piece), .endOfFile⟩])
      (hrest : Tiles (before ++ gap ++ piece) ts rest) :
      Tiles before (t :: ts) (gap ++ piece ++ rest)

/-- A piece alone is read as one token, at the start of the text that it is. -/
theorem tokenize_piece [Text.CharNames]
    {u v : List Char} {k : TokenKind String} (hpiece : Piece u v k)
    (hstarts : StartsNone (u ++ v)) :
    tokenize (String.ofList u) =
      .ok [⟨spanBehind [] u, k⟩, ⟨.point (rowBehind u) (columnBehind u), .endOfFile⟩] := by
  have hstart : Cursor.start (String.ofList u) = cursorBehind [] u := by
    rw [Cursor.start, String.toList_ofList]
    rfl
  have hrest : (cursorBehind [] u).rest = [] ++ (u ++ []) := by simp [cursorBehind]
  have hscan := scanNext_of_piece (.none _) hstarts hpiece (.ends v) hrest
  rw [cursorBehind_skipping, cursorBehind_skipping, List.nil_append, List.nil_append] at hscan
  have hall : scan (String.ofList u) =
      ⟨[⟨spanBehind [] u, k⟩], .ok (.point (rowBehind u) (columnBehind u))⟩ := by
    obtain ⟨x, more, hu⟩ := List.exists_cons_of_ne_nil hpiece.ne_nil
    have hbound : (Cursor.start (String.ofList u)).rest = x :: more := by
      rw [hstart, ← hu]
      rfl
    unfold scan
    dsimp only
    rw [hbound, hstart, scanAll_token hscan, scanAll_of_end rfl]
    rfl
  rw [tokenize_eq, hall]
  rfl

/-- What the lexer reads tiles what it reads it from. -/
theorem tiles_of_scanAll [Text.CharNames]
    {bound : List Char} {before rest : List Char} {here : Span}
    (hbound : rest.length < bound.length)
    (h : (scanAll bound (cursorBehind before rest)).ending = .ok here) :
    Tiles before ((scanAll bound (cursorBehind before rest)).tokens ++ [⟨here, .endOfFile⟩]) rest := by
  induction bound generalizing before rest with
  | nil => exact absurd hbound (Nat.not_lt_zero _)
  | cons x bound ih =>
      cases hscan : scanNext (cursorBehind before rest) with
      | error e =>
          rw [scanAll_error hscan] at h
          cases h
      | ok next =>
          cases next with
          | finish span =>
              obtain ⟨htrivia, rfl⟩ := trivia_of_finish hscan
              rw [scanAll_finish hscan] at h ⊢
              cases h
              rw [cursorBehind_skipping]
              exact .finish htrivia
          | token t next =>
              obtain ⟨gap, u, hreads⟩ := exists_readsFrom hscan
              have hlength := hreads.length_lt
              obtain ⟨hrest, hgap, hstarts, hpiece, hspan, hnext⟩ := hreads
              rw [cursorBehind_skipping] at hspan hnext
              rw [scanAll_token hscan, hnext] at h ⊢
              have hrest' : rest = gap ++ u ++ next.rest := by
                rw [List.append_assoc]
                exact hrest
              have hlength' : next.rest.length < bound.length :=
                Nat.lt_of_lt_of_le hlength (Nat.le_of_lt_succ hbound)
              have halone := tokenize_piece hpiece hstarts
              have hmore := ih hlength' h
              rw [hrest']
              refine .token hgap hpiece.ne_nil hpiece.kind_ne hspan ?_ ?_
              · rw [halone, hspan]
                rfl
              · rwa [List.append_assoc]

/-- The tokens of a text tile it. -/
theorem tokenize_tiles [Text.CharNames]
    {text : String} {ts : List (Token String)} (h : tokenize text = .ok ts) :
    Tiles [] ts text.toList := by
  obtain ⟨here, hending, rfl⟩ := exists_scan_of_tokenize h
  have hscan : scan text = scanAll ('\n' :: text.toList) (cursorBehind [] text.toList) :=
    scan_eq_scanAll rfl (Nat.le_succ _)
  rw [hscan] at hending ⊢
  exact tiles_of_scanAll (Nat.lt_succ_self _) hending

attribute [local instance] Command.charNames

/-- A string that breaks its row covers one character, and what follows stands on the next row. -/
theorem tokenize_tiles_brokenRow :
    tokenize "\"a\nb\"1 // c" = .ok [⟨⟨1, 1, 1⟩, .value (.string "a\nb")⟩,
        ⟨⟨2, 3, 1⟩, .value (.number 1)⟩, ⟨⟨2, 9, 1⟩, .endOfFile⟩] ∧
      Tiles [] [⟨⟨1, 1, 1⟩, .value (.string "a\nb")⟩, ⟨⟨2, 3, 1⟩, .value (.number 1)⟩,
        ⟨⟨2, 9, 1⟩, .endOfFile⟩] "\"a\nb\"1 // c".toList := by
  have htokens : tokenize "\"a\nb\"1 // c" = .ok [⟨⟨1, 1, 1⟩, .value (.string "a\nb")⟩,
      ⟨⟨2, 3, 1⟩, .value (.number 1)⟩, ⟨⟨2, 9, 1⟩, .endOfFile⟩] := by rfl
  exact ⟨htokens, tokenize_tiles htokens⟩

end IslandScript.Lexer
