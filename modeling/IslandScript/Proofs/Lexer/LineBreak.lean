import IslandScript.Command.Characters
import IslandScript.Proofs.Lexer.Trivia

/-!
# Texts one below the other

What the lexer makes of a text does not depend on the row that it starts on: on a later row it makes the
same of it, that many rows further down (`scanAll_down`). And no token and no comment that ends goes on
behind the text it is in when a newline follows that. So the tokens of two texts, one below the other,
are those of the first, a line end, and those of the second further down (`tokenize_lineBreak`).
-/

namespace IslandScript

variable {α : Type}

/-! ## Further down -/

/-- A span that many rows further down. -/
def Span.down (k : Nat) (s : Span) : Span := { s with row := s.row + k }

/-- A token that many rows further down. -/
def Token.down (k : Nat) (t : Token String) : Token String := { t with span := t.span.down k }

/-- An error that many rows further down. -/
def LexError.down (k : Nat) (e : LexError) : LexError := { e with span := e.span.down k }

/-- A cursor that many rows further down. -/
def Cursor.down (k : Nat) (c : Cursor) : Cursor := { c with row := c.row + k }

/-- A cursor in a text with others behind it. -/
def Cursor.followedBy (c : Cursor) (w : List Char) : Cursor := { c with rest := c.rest ++ w }

namespace Cursor

variable (k : Nat) (c : Cursor)

@[simp] theorem rest_down : (c.down k).rest = c.rest := rfl

@[simp] theorem current?_down : (c.down k).current? = c.current? := rfl

@[simp] theorem peek?_down (n : Nat) : (c.down k).peek? n = c.peek? n := rfl

@[simp] theorem startsWith_down (text : List Char) : (c.down k).startsWith text = c.startsWith text :=
  rfl

@[simp] theorem here_down : (c.down k).here = c.here.down k := rfl

@[simp] theorem skipLine_down : (c.down k).skipLine = c.skipLine.down k := rfl

@[simp] theorem spanFrom_down (s : Span) : (c.down k).spanFrom (s.down k) = (c.spanFrom s).down k := by
  have hsame : ((c.down k).row == (s.down k).row && (s.down k).column < (c.down k).column) =
      (c.row == s.row && s.column < c.column) := by
    rw [Bool.eq_iff_iff, Bool.and_eq_true, Bool.and_eq_true, beq_iff_eq, beq_iff_eq]
    exact and_congr_left fun _ => Nat.add_right_cancel_iff
  unfold spanFrom
  rw [hsame]
  split <;> rfl

@[simp] theorem skipping_down (u v : List Char) :
    (c.down k).skipping u v = (c.skipping u v).down k := by
  apply ext
  · simp only [row_skipping, down]
    omega
  · by_cases h : '\n' ∈ u
    · rw [column_skipping_of_mem h]
      exact (column_skipping_of_mem h c v).symm
    · rw [column_skipping_of_notMem h]
      exact (column_skipping_of_notMem h c v).symm
  · rw [rest_skipping, rest_down, rest_skipping]

@[simp] theorem bump?_down : (c.down k).bump? = c.bump?.map fun (x, c) => (x, c.down k) := by
  cases h : c.rest with
  | nil => rw [bump?_nil h, bump?_nil (c := c.down k) h, Option.map_none]
  | cons x v =>
      rw [bump?_cons h, bump?_cons (c := c.down k) h, skipping_down, Option.map_some]

@[simp] theorem take_down (n : Nat) : (c.down k).take n = ((c.take n).1, (c.take n).2.down k) := by
  induction n generalizing c with
  | zero => rfl
  | succ n ih =>
      rw [take, take, bump?_down]
      cases c.bump? with
      | none => rfl
      | some bumped => simp only [Option.map_some, ih]

@[simp] theorem takeWhile_down (test : Char → Bool) :
    (c.down k).takeWhile test = ((c.takeWhile test).1, (c.takeWhile test).2.down k) :=
  take_down k c _

@[simp] theorem eat?_down (x : Char) : (c.down k).eat? x = (c.eat? x).map (down k) := by
  rw [eat?, eat?, bump?_down]
  cases c.bump? with
  | none => rfl
  | some bumped =>
      simp only [Option.map_some]
      split <;> rfl

@[simp] theorem skipThrough_down (terminator : List Char) :
    (c.down k).skipThrough terminator =
      ((c.skipThrough terminator).1, (c.skipThrough terminator).2.down k) := by
  simp only [skipThrough, rest_down, skipping_down]
  cases splitThrough? terminator c.rest with
  | none => rfl
  | some split => rfl

theorem skipping_followedBy (u v w : List Char) :
    (c.followedBy w).skipping u v = c.skipping u v := rfl

theorem followedBy_skipping (u v w : List Char) :
    (c.skipping u v).followedBy w = c.skipping u (v ++ w) := by
  unfold skipping followedBy
  dsimp only
  split <;> rfl

/-- The span of a piece does not depend on what comes behind it. -/
theorem spanOf_skipping (gap u v w : List Char) :
    (c.skipping gap v).spanOf u = (c.skipping gap w).spanOf u := by
  unfold skipping spanOf
  dsimp only
  split <;> rfl

end Cursor

namespace Lexer

/-- What a reader made of a text, that many rows further down. -/
def downResult (k : Nat) : Except LexError (α × Cursor) → Except LexError (α × Cursor)
  | .ok (a, c) => .ok (a, c.down k)
  | .error e => .error (e.down k)

section

variable (k : Nat) (c : Cursor)

theorem scanCode_down (width : Nat) : scanCode (c.down k) width = downResult k (scanCode c width) := by
  simp only [scanCode, Cursor.take_down, Cursor.here_down, Cursor.spanFrom_down]
  split
  next => rfl
  next =>
    generalize Option.bind _ charOfCode? = code
    cases code <;> rfl

section

variable [Text.CharNames]

theorem scanCharName_down : scanCharName (c.down k) = downResult k (scanCharName c) := by
  simp only [scanCharName, Cursor.takeWhile_down, Cursor.here_down, Cursor.eat?_down]
  cases (c.takeWhile (· != ')')).2.eat? ')' with
  | none => rfl
  | some next =>
      simp only [Option.map_some, Cursor.spanFrom_down]
      split <;> rfl

theorem scanEscape_down : scanEscape (c.down k) = downResult k (scanEscape c) := by
  simp only [scanEscape, Cursor.bump?_down]
  cases c.bump? with
  | none => rfl
  | some bumped =>
      obtain ⟨x, next⟩ := bumped
      simp only [Option.map_some]
      split
      next => rfl
      next => exact scanCode_down k next _
      next =>
        split
        next => exact scanCharName_down k next
        next => rfl

theorem scanCharacters_down (bound read : List Char) :
    scanCharacters bound read (c.down k) = downResult k (scanCharacters bound read c) := by
  induction bound generalizing read c with
  | nil => rfl
  | cons b bound ih =>
      cases hrest : c.rest with
      | nil => simp only [scanCharacters, Cursor.bump?_down, Cursor.bump?_nil hrest, Option.map_none,
          Cursor.here_down]; rfl
      | cons x v =>
          rw [scanCharacters_cons hrest, scanCharacters_cons (c := c.down k) hrest,
            Cursor.skipping_down, scanEscape_down, ih]
          split
          next => rfl
          next =>
            split
            next =>
              cases scanEscape (c.skipping [x] v) with
              | error e => rfl
              | ok scanned => exact ih scanned.2 _
            next => rfl

theorem scanString_down : scanString (c.down k) = downResult k (scanString c) := by
  simp only [scanString, Cursor.take_down, Cursor.rest_down, scanCharacters_down]
  cases scanCharacters (c.take 1).2.rest [] (c.take 1).2 with
  | error e => rfl
  | ok scanned => rfl

end

theorem numberToken_down (first : Span) (text : List Char) (value : Option Float) :
    numberToken (first.down k) text value (c.down k) =
      downResult k (numberToken first text value c) := by
  cases value with
  | none =>
      simp only [numberToken, Cursor.spanFrom_down]
      rfl
  | some n => rfl

theorem scanFraction_down :
    scanFraction (c.down k) = ((scanFraction c).1, (scanFraction c).2.down k) := by
  simp only [scanFraction, Cursor.current?_down, Cursor.peek?_down, Cursor.take_down,
    Cursor.takeWhile_down]
  split <;> rfl

theorem scanExponent_down :
    scanExponent (c.down k) = ((scanExponent c).1, (scanExponent c).2.down k) := by
  simp only [scanExponent, Cursor.current?_down, Cursor.take_down, Cursor.takeWhile_down]
  split <;> rfl

theorem scanNumber_down : scanNumber (c.down k) = downResult k (scanNumber c) := by
  simp only [scanNumber, scanRadix, scanDecimal, Cursor.startsWith_down, Cursor.take_down,
    Cursor.takeWhile_down, scanFraction_down, scanExponent_down, Cursor.here_down, numberToken_down]
  split
  next => rfl
  next => split <;> rfl

theorem scanSymbol_down (x : Char) : scanSymbol (c.down k) x = downResult k (scanSymbol c x) := by
  simp only [scanSymbol, Cursor.take_down, Cursor.rest_down, Cursor.here_down]
  split
  next => rfl
  next => split <;> rfl

theorem scanKind_down [Text.CharNames]
    (x : Char) : scanKind (c.down k) x = downResult k (scanKind c x) := by
  simp only [scanKind, scanNumber_down, scanString_down, scanSymbol_down]
  split
  next => rfl
  next =>
    split
    next =>
      simp only [scanWord, Cursor.takeWhile_down]
      rfl
    next => split <;> rfl

theorem skipTrivia_down (bound : List Char) :
    skipTrivia bound (c.down k) =
      match skipTrivia bound c with
      | .ok next => .ok (next.down k)
      | .error e => .error (e.down k) := by
  induction bound generalizing c with
  | nil => rfl
  | cons b bound ih =>
      simp only [skipTrivia, Cursor.current?_down, Cursor.startsWith_down, Cursor.take_down,
        Cursor.skipLine_down, Cursor.skipThrough_down, ih]
      split
      next => rfl
      next =>
        split
        next => rfl
        next =>
          split
          next =>
            cases (c.take 2).2.skipThrough ['*', '/'] with
            | mk closed next =>
                cases closed with
                | false => rfl
                | true => exact ih next
          next => rfl

/-- What comes next, that many rows further down. -/
def Next.down : Next → Next
  | .token t next => .token (t.down k) (next.down k)
  | .finish here => .finish (here.down k)

theorem scanNext_down [Text.CharNames] :
    scanNext (c.down k) =
      match scanNext c with
      | .ok next => .ok (next.down k)
      | .error e => .error (e.down k) := by
  simp only [scanNext, Cursor.rest_down, skipTrivia_down]
  cases skipTrivia c.rest c with
  | error e => rfl
  | ok here =>
      simp only [Cursor.current?_down]
      cases here.current? with
      | none => rfl
      | some x =>
          simp only [scanKind_down]
          cases scanKind here x with
          | error e => rfl
          | ok scanned =>
              simp only [downResult, Cursor.here_down, Cursor.spanFrom_down]
              rfl

/-- The tokens of a text on a later row are its tokens, that many rows further down, and so is how it
ends. -/
theorem scanAll_down [Text.CharNames] (bound : List Char) :
    scanAll bound (c.down k) =
      ⟨(scanAll bound c).tokens.map (·.down k),
        match (scanAll bound c).ending with
        | .ok here => .ok (here.down k)
        | .error e => .error (e.down k)⟩ := by
  induction bound generalizing c with
  | nil => rfl
  | cons b bound ih =>
      simp only [scanAll, scanNext_down]
      cases scanNext c with
      | error e => rfl
      | ok next =>
          cases next with
          | finish here => rfl
          | token t next => simp only [Next.down, ih, List.map_cons]

end

/-! ## A newline between two texts -/

section

variable [Text.CharNames]

/-- A newline is a piece of its own. -/
theorem piece_newline (v : List Char) : Piece ['\n'] v .endOfLine where
  ne_nil := by simp
  takes := by
    intro x hx c w _ hrest
    cases hx
    have htake : c.take 1 = (['\n'], c.skipping ['\n'] w) := Cursor.take_append (u := ['\n']) hrest
    have hscan : scanKind c '\n' = .ok (.endOfLine, (c.take 1).2) := rfl
    simp only [hscan, htake]
  kind_ne := by simp
  getLast_ne := fun h => absurd rfl h

/-- Where a text ends there is a line end as well, if a newline comes there. -/
theorem scanNext_newline {c : Cursor} (h : Trivia c.rest []) (w : List Char) :
    scanNext (c.followedBy ('\n' :: w)) =
      .ok (.token ⟨(c.skipping c.rest []).here, .endOfLine⟩ (c.skipping (c.rest ++ ['\n']) w)) := by
  have hgap : Trivia c.rest (['\n'] ++ w) := h.breaksOff (.breaks [] w)
  have hstarts : StartsNone (['\n'] ++ w) := by
    apply StartsNone.of_newline
    intro x hx
    cases hx
    rfl
  have hspan : (c.skipping c.rest (['\n'] ++ w)).spanOf ['\n'] = (c.skipping c.rest []).here := by
    simp only [Cursor.skipping]
    split <;> rfl
  rw [← hspan]
  exact scanNext_of_piece hgap hstarts (piece_newline w) (.refl w) rfl

/-- A token is read as before if a newline comes behind its text. -/
theorem ReadsFrom.scanNext_followedBy {c next : Cursor} {gap u : List Char} {t : Token String}
    (h : ReadsFrom c gap u t next) (w : List Char) :
    scanNext (c.followedBy ('\n' :: w)) = .ok (.token t (next.followedBy ('\n' :: w))) := by
  have hrest : (c.followedBy ('\n' :: w)).rest = gap ++ (u ++ (next.rest ++ '\n' :: w)) := by
    simp only [Cursor.followedBy, h.rest, List.append_assoc]
  have hscan := scanNext_of_piece h.trivia h.starts h.piece (.newline next.rest w) hrest
  have hnext : c.skipping (gap ++ u) (next.rest ++ '\n' :: w) = next.followedBy ('\n' :: w) := by
    rw [← Cursor.followedBy_skipping, ← h.next_eq]
  rw [hscan, Cursor.skipping_followedBy, Cursor.skipping_followedBy, hnext,
    Cursor.spanOf_skipping c gap u _ (u ++ next.rest), ← h.span]

/-- The tokens of a text and those of another behind a newline. -/
theorem scanAll_newline {bound : List Char} {c : Cursor} {here : Span}
    (hbound : c.rest.length < bound.length) (h : (scanAll bound c).ending = .ok here)
    (w : List Char) {bound' : List Char}
    (hbound' : (c.rest ++ '\n' :: w).length ≤ bound'.length) :
    scanAll bound' (c.followedBy ('\n' :: w)) =
      ⟨(scanAll bound c).tokens ++
          ⟨here, .endOfLine⟩ :: (scanAll w (c.skipping (c.rest ++ ['\n']) w)).tokens,
        (scanAll w (c.skipping (c.rest ++ ['\n']) w)).ending⟩ := by
  -- By induction on the bound of the first text; that of both is never used up, whatever it is.
  induction bound generalizing c bound' with
  | nil => exact absurd hbound (Nat.not_lt_zero _)
  | cons x bound ih =>
      rw [List.length_append, List.length_cons] at hbound'
      obtain ⟨x', bound', rfl⟩ := List.exists_cons_of_length_pos (by omega : 0 < bound'.length)
      rw [List.length_cons] at hbound hbound'
      cases hscan : scanNext c with
      | error e =>
          rw [scanAll_error hscan] at h
          cases h
      | ok next =>
          cases next with
          | finish span =>
              obtain ⟨htrivia, rfl⟩ := trivia_of_finish hscan
              rw [scanAll_finish hscan] at h ⊢
              cases h
              have hlast : (c.skipping (c.rest ++ ['\n']) w).rest = w := Cursor.rest_skipping _ _ _
              have hsame : scanAll bound' (c.skipping (c.rest ++ ['\n']) w) = scanAll w _ :=
                scanAll_bound (by rw [hlast]; omega) (by rw [hlast])
              rw [scanAll_token (scanNext_newline htrivia w), hsame]
              rfl
          | token t next =>
              obtain ⟨gap, u, hreads⟩ := exists_readsFrom hscan
              have hlength := hreads.length_lt
              rw [scanAll_token hscan] at h ⊢
              have hmore : scanAll bound' (next.followedBy ('\n' :: w)) = _ :=
                ih (by omega) h (by rw [List.length_append, List.length_cons]; omega)
              have hlast : next.skipping (next.rest ++ ['\n']) w = c.skipping (c.rest ++ ['\n']) w := by
                rw [hreads.next_eq, Cursor.skipping_skipping, hreads.rest, Cursor.rest_skipping]
                simp only [List.append_assoc]
              rw [hlast] at hmore
              rw [scanAll_token (hreads.scanNext_followedBy w), hmore]
              rfl

/-- The tokens of a text that ends, and behind a newline those of another, as many rows further down as
the first has. -/
theorem scan_lineBreak {a : String} {here : Span} (hending : (scan a).ending = .ok here) (b : String) :
    scan (a ++ "\n" ++ b) =
      ⟨(scan a).tokens ++ ⟨here, .endOfLine⟩ :: (scan b).tokens.map (·.down (1 + a.toList.count '\n')),
        match (scan b).ending with
        | .ok here => .ok (here.down (1 + a.toList.count '\n'))
        | .error e => .error (e.down (1 + a.toList.count '\n'))⟩ := by
  have hfirst : scan a = scanAll ('\n' :: a.toList) (Cursor.start a) :=
    scanAll_bound (Nat.le_refl _) (Nat.le_succ _)
  have hstart : Cursor.start (a ++ "\n" ++ b) = (Cursor.start a).followedBy ('\n' :: b.toList) := by
    simp [Cursor.start, Cursor.followedBy]
  have hsecond : (Cursor.start a).skipping (a.toList ++ ['\n']) b.toList =
      (Cursor.start b).down (1 + a.toList.count '\n') := by
    have hmem : '\n' ∈ a.toList ++ ['\n'] := by simp
    apply Cursor.ext
    · simp [Cursor.row_skipping, Cursor.down, Cursor.start]
      omega
    · simp [Cursor.column_skipping_of_mem hmem, Cursor.down, Cursor.start]
    · rw [Cursor.rest_skipping]
      rfl
  have hlength : ((Cursor.start a).rest ++ '\n' :: b.toList).length ≤
      (Cursor.start (a ++ "\n" ++ b)).rest.length := by
    rw [hstart]
    exact Nat.le_refl _
  have hscans := scanAll_newline (c := Cursor.start a) (Nat.lt_succ_self _) (hfirst ▸ hending)
    b.toList hlength
  have hrest : (Cursor.start a).rest = a.toList := rfl
  rw [← hstart, ← hfirst, hrest, hsecond, scanAll_down] at hscans
  exact hscans

end

attribute [local instance] Command.charNames

end Lexer
end IslandScript
