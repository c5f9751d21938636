import IslandScript.Number.Binary
import IslandScript.Number.Display
import IslandScript.Number.Power
import IslandScript.Syntax.Operator
import IslandScript.Text.Times
import IslandScript.Value.Equality

/-!
# Operators on values

What each operator accepts. An infix operator that has no result blames one side: the left if no
right operand would have helped, else the right. A number next to a string is added as its text,
and a string times a number is repeated, as long as the result stays within a bound.
-/

namespace IslandScript

/-- The side of an infix operator that is at fault. -/
inductive Side where
  | left
  | right
  deriving DecidableEq, Repr

/-- The result of a prefix operator: a value, or the elements of a list that is to be made. -/
inductive UnaryResult where
  | value (v : Value)
  | elements (items : List Value)
  deriving DecidableEq, Repr

/-- The value of a result; a list takes the next free place. -/
def UnaryResult.build (ts : Tables) : UnaryResult → Value × Tables
  | value v => (v, ts)
  | elements items =>
    let (t, ts) := ts.alloc items
    (.list t, ts)

/-- A prefix operator applied to a value, if it accepts that value. -/
def UnaryOp.apply? (ts : Tables) : UnaryOp → Value → Option UnaryResult
  | .negative, .number n => some (.value (.number (-n)))
  | .negative, .string s => some (.value (.string (String.ofList s.toList.reverse)))
  | .not, .bool b => some (.value (.bool (!b)))
  | .size, .string s => some (.value (.ofSize s.length))
  | .size, .list t => some (.value (.ofSize (ts.length t)))
  | .spread, v => (v.spread? ts).map .elements
  | _, _ => none

namespace BinaryOp

/-- Both operands as booleans. -/
def logic (f : Bool → Bool → Bool) : Value → Value → Except Side Value
  | .bool a, .bool b => .ok (.bool (f a b))
  | .bool _, _ => .error .right
  | _, _ => .error .left

/-- Two numbers or two strings compared. -/
def comparison (onNumbers : Float → Float → Bool) (onStrings : String → String → Bool) :
    Value → Value → Except Side Value
  | .number a, .number b => .ok (.bool (onNumbers a b))
  | .string a, .string b => .ok (.bool (onStrings a b))
  | .number _, _ => .error .right
  | .string _, _ => .error .right
  | _, _ => .error .left

/-- Numbers are added; strings, and numbers next to strings, are put together. -/
def sum : Value → Value → Except Side Value
  | .number a, .number b => .ok (.number (a + b))
  | .string a, .string b => .ok (.string (a ++ b))
  | .string a, .number b => .ok (.string (a ++ Number.display b))
  | .number a, .string b => .ok (.string (Number.display a ++ b))
  | .number _, _ => .error .right
  | .string _, _ => .error .right
  | _, _ => .error .left

/-- The most bytes a repeated string may have. -/
def maxRepeatedBytes : Nat := Number.twoPow 28

/-- How often a number repeats a string: its whole part, never below zero. -/
def repeatCount (n : Float) : Nat := (Number.truncateTo 0 (Number.twoPow 64 - 1 : Nat) n).toNat

/-- Numbers are multiplied; a string is repeated. -/
def product : Value → Value → Except Side Value
  | .number a, .number b => .ok (.number (a * b))
  | .string s, .number n =>
    if s.utf8ByteSize * repeatCount n ≤ maxRepeatedBytes then
      .ok (.string (Text.times s (repeatCount n)))
    else .error .right
  | .number _, _ => .error .right
  | .string _, _ => .error .right
  | _, _ => .error .left

/-- Both operands as numbers. -/
def arithmetic (f : Float → Float → Float) : Value → Value → Except Side Value
  | .number a, .number b => .ok (.number (f a b))
  | .number _, _ => .error .right
  | _, _ => .error .left

/-- An infix operator applied to two values. -/
def apply (ts : Tables) : BinaryOp → Value → Value → Except Side Value
  | or => logic (· || ·)
  | and => logic (· && ·)
  | equal => fun v w => .ok (.bool (v.equal ts w))
  | notEqual => fun v w => .ok (.bool (!v.equal ts w))
  | less => comparison (· < ·) (· < ·)
  | lessEqual => comparison (· ≤ ·) (fun a b => !decide (b < a))
  | greater => comparison (· > ·) (· > ·)
  | greaterEqual => comparison (· ≥ ·) (fun a b => !decide (a < b))
  | add => sum
  | subtract => arithmetic (· - ·)
  | multiply => product
  | divide => arithmetic (· / ·)
  | modulus => arithmetic Number.remainder

end BinaryOp
end IslandScript
