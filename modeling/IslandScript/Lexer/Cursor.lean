import IslandScript.Span

/-!
# Walking a text

A cursor is the rest of a text and the row and column of its first character. A newline moves to
the first column of the next row, every other character one column on. Comments are skipped as a
whole: `Cursor.skipLine` and `Cursor.skipThrough` count the rows and columns of what they skip
instead of stepping through it.
-/

namespace IslandScript

/-- A place in a text and what is left from there on. -/
structure Cursor where
  row : Nat
  column : Nat
  rest : List Char
  deriving DecidableEq, Repr

namespace Cursor

/-- The start of a text. -/
def start (text : String) : Cursor := ⟨1, 1, text.toList⟩

/-- The current character. -/
def current? (c : Cursor) : Option Char := c.rest.head?

/-- The character `n` places on. -/
def peek? (c : Cursor) (n : Nat) : Option Char := c.rest[n]?

/-- Whether the rest starts with a text. -/
def startsWith (c : Cursor) (text : List Char) : Bool := text.isPrefixOf c.rest

/-- The span of the current character. -/
def here (c : Cursor) : Span := .point c.row c.column

/-- The span from an earlier place on this row up to here; from another row it is that place. -/
def spanFrom (c : Cursor) (first : Span) : Span :=
  if c.row == first.row && first.column < c.column then
    ⟨first.row, first.column, c.column - first.column⟩
  else first

/-- The cursor behind a character that is the first of the rest. -/
def after (c : Cursor) (x : Char) (rest : List Char) : Cursor :=
  if x == '\n' then ⟨c.row + 1, 1, rest⟩ else ⟨c.row, c.column + 1, rest⟩

/-- Consumes one character. -/
def bump? (c : Cursor) : Option (Char × Cursor) :=
  match c.rest with
  | [] => none
  | x :: rest => some (x, c.after x rest)

/-- Consumes up to `n` characters: those consumed, and the cursor behind them. -/
def take (c : Cursor) : Nat → List Char × Cursor
  | 0 => ([], c)
  | n + 1 =>
    match c.bump? with
    | none => ([], c)
    | some (x, c) =>
      let (xs, c) := c.take n
      (x :: xs, c)

/-- Consumes the current character if it is `x`. -/
def eat? (c : Cursor) (x : Char) : Option Cursor :=
  match c.bump? with
  | some (y, c) => if y == x then some c else none
  | none => none

/-- Consumes a text if the rest starts with it. -/
def eatText? (c : Cursor) (text : List Char) : Option Cursor :=
  if c.startsWith text then some (c.take text.length).2 else none

/-- Consumes characters while a test holds. -/
def takeWhile (c : Cursor) (test : Char → Bool) : List Char × Cursor :=
  c.take (c.rest.takeWhile test).length

/-- The place behind characters that are consumed as a whole: as many rows on as they hold
newlines, in the column behind the last of those. -/
def skipping (c : Cursor) (skipped rest : List Char) : Cursor :=
  let lastRow := (skipped.reverse.takeWhile (· != '\n')).length
  let rows := skipped.count '\n'
  if rows == 0 then ⟨c.row, c.column + skipped.length, rest⟩
  else ⟨c.row + rows, 1 + lastRow, rest⟩

/-- Skips to the next newline, which is left. -/
def skipLine (c : Cursor) : Cursor :=
  let skipped := c.rest.takeWhile (· != '\n')
  ⟨c.row, c.column + skipped.length, c.rest.dropWhile (· != '\n')⟩

/-- What a text holds through the first occurrence of a terminator, and what comes behind. -/
def splitThrough? (terminator : List Char) : List Char → Option (List Char × List Char)
  | [] => none
  | x :: xs =>
    if terminator.isPrefixOf (x :: xs) then
      some (terminator, (x :: xs).drop terminator.length)
    else (splitThrough? terminator xs).map fun (skipped, rest) => (x :: skipped, rest)

/-- Skips through the next occurrence of a terminator, or to the end of the text if there is
none; the answer tells which. -/
def skipThrough (c : Cursor) (terminator : List Char) : Bool × Cursor :=
  match splitThrough? terminator c.rest with
  | some (skipped, rest) => (true, c.skipping skipped rest)
  | none => (false, c.skipping c.rest [])

end Cursor
end IslandScript
