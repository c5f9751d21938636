import IslandScript.Eval.Error
import IslandScript.Number.Read
import IslandScript.Text.Blank

/-!
# Templates

A template is text with slots: what stands between an opening brace and the next closing one is
the position of an argument. Arguments are put in as they are shown and not read again.
-/

namespace IslandScript.Core

/-- A piece of a template: a character, the text of a slot, or all that follows an opening brace
that is never closed. -/
inductive Piece where
  | char (c : Char)
  | slot (position : List Char)
  | unclosed (rest : List Char)
  deriving DecidableEq, Repr

/-- The pieces of a template. Inside a slot its text so far is at hand, in reverse. -/
def pieces : Option (List Char) → List Char → List Piece
  | none, [] => []
  | none, c :: cs => if c == '\x7b' then pieces (some []) cs else .char c :: pieces none cs
  | some w, [] => [.unclosed w.reverse]
  | some w, c :: cs =>
    if c == '\x7d' then .slot w.reverse :: pieces none cs else pieces (some (c :: w)) cs

/-- The argument a slot names. Blanks around its number do not count. -/
def slotArgument (args : List String) (position : List Char) : Except LinkErrorKind String :=
  match Number.readIndex? (Text.trim position) with
  | none => .error (.invalidFormatPosition (String.ofList position))
  | some i =>
    match args[i]? with
    | none => .error (.missingFormatArgument i)
    | some text => .ok text

/-- Fills the slots of a template, behind the text filled so far. -/
def fill (args : List String) : String → List Piece → Except LinkErrorKind String
  | filled, [] => .ok filled
  | filled, .char c :: rest => fill args (filled.push c) rest
  | filled, .slot position :: rest => do fill args (filled ++ (← slotArgument args position)) rest
  | _, .unclosed rest :: _ => .error (.invalidFormatPosition (String.ofList rest))

/-- A template with its slots filled. -/
def format (template : String) (args : List String) : Except LinkErrorKind String :=
  fill args "" (pieces none template.toList)

end IslandScript.Core
