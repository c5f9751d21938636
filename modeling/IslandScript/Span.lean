/-!
# Positions in a text

A span is a row, a column and a number of characters on that row, rows and columns counted from
one. Row zero is kept for `Span.none`, the position of what stands nowhere in a text.
-/

namespace IslandScript

/-- A stretch of characters on one row. -/
structure Span where
  row : Nat
  column : Nat
  length : Nat
  deriving DecidableEq, Repr, Inhabited

namespace Span

/-- The position of what stands nowhere. -/
def none : Span := ⟨0, 0, 0⟩

/-- The span of a single character. -/
def point (row column : Nat) : Span := ⟨row, column, 1⟩

/-- Whether a span stands nowhere. -/
def isNone (s : Span) : Bool := s.row == 0

/-- Extends a span to the end of a later one on the same row. A span that stands nowhere gives
way to the other; a span on another row, or one that starts earlier, changes nothing. -/
def rangeTo (s last : Span) : Span :=
  if s.isNone then last
  else if last.isNone || last.row != s.row || last.column < s.column then s
  else { s with length := max (last.column + last.length - s.column) s.length }

/-- A span, or another one when it stands nowhere. -/
def orElse (s other : Span) : Span :=
  if s.isNone then other else s

/-- How messages write a position. -/
def display (s : Span) : String :=
  s!"({s.row}:{s.column})"

end Span
end IslandScript
