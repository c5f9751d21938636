/-!
# Operators

The prefix and infix operators, their symbols, and the names by which error messages call them.
-/

namespace IslandScript

/-- The prefix operators. -/
inductive UnaryOp where
  | spread
  | negative
  | not
  | size
  deriving DecidableEq, Repr

namespace UnaryOp

/-- How a prefix operator is written. -/
def symbol : UnaryOp → String
  | spread => "*"
  | negative => "-"
  | not => "!"
  | size => "#"

/-- How messages call a prefix operator. -/
def display : UnaryOp → String
  | spread => "SPREAD"
  | negative => "NEGATIVE"
  | not => "NOT"
  | size => "SIZE"

end UnaryOp

/-- The infix operators. -/
inductive BinaryOp where
  | or
  | and
  | equal
  | notEqual
  | less
  | lessEqual
  | greater
  | greaterEqual
  | add
  | subtract
  | multiply
  | divide
  | modulus
  deriving DecidableEq, Repr

namespace BinaryOp

/-- How an infix operator is written. -/
def symbol : BinaryOp → String
  | or => "or"
  | and => "and"
  | equal => "=="
  | notEqual => "!="
  | less => "<"
  | lessEqual => "<="
  | greater => ">"
  | greaterEqual => ">="
  | add => "+"
  | subtract => "-"
  | multiply => "*"
  | divide => "/"
  | modulus => "%"

/-- How messages call an infix operator. -/
def display : BinaryOp → String
  | or => "OR"
  | and => "AND"
  | equal => "EQUAL"
  | notEqual => "NOT_EQUAL"
  | less => "LESS"
  | lessEqual => "LESS_EQUAL"
  | greater => "GREATER"
  | greaterEqual => "GREATER_EQUAL"
  | add => "ADD"
  | subtract => "SUBTRACT"
  | multiply => "MULTIPLY"
  | divide => "DIVIDE"
  | modulus => "MODULUS"

end BinaryOp
end IslandScript
