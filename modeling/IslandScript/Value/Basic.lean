import IslandScript.Token

/-!
# Values

What programs compute with. Unit, null, booleans, numbers and strings are plain data. Lists,
functions, classes and instances are known by the place where they are kept, so that a value can
be shared and a list can hold itself.
-/

namespace IslandScript

/-- The place of a table: the contents of a list. -/
structure TableId where
  index : Nat
  deriving DecidableEq, Repr, Inhabited

/-- The place of a function that was made. -/
structure FunctionId where
  index : Nat
  deriving DecidableEq, Repr, Inhabited

/-- The place of a class that was made. -/
structure ClassId where
  index : Nat
  deriving DecidableEq, Repr, Inhabited

/-- The place of a scope. Scopes are numbered in the order of their creation. -/
structure ScopeId where
  index : Nat
  deriving DecidableEq, Repr, Inhabited

/-- The place of a text that grows. -/
structure BufferId where
  index : Nat
  deriving DecidableEq, Repr, Inhabited

/-- A value. An instance is the scope that holds its members. -/
inductive Value where
  | unit
  | null
  | bool (b : Bool)
  | number (n : Float)
  | string (s : String)
  | list (t : TableId)
  | function (f : FunctionId)
  | cls (c : ClassId)
  | inst (s : ScopeId)
  deriving DecidableEq, Repr, Inhabited

/-- The values that get their members from a class of the prelude. Two of them are the same only
if they agree to the bit: equal lists in different places are not, nor are the two zeros. -/
inductive Primitive where
  | bool (b : Bool)
  | number (n : Float)
  | string (s : String)
  | list (t : TableId)
  deriving DecidableEq, Repr

/-- The value a primitive is. -/
def Primitive.toValue : Primitive → Value
  | bool b => .bool b
  | number n => .number n
  | string s => .string s
  | list t => .list t

/-- The class of the prelude whose members a primitive has. -/
def Primitive.className : Primitive → String
  | bool _ => "Boolean"
  | number _ => "Number"
  | string _ => "String"
  | list _ => "List"

namespace Value

/-- A value as a primitive, if it is one. -/
def primitive? : Value → Option Primitive
  | bool b => some (.bool b)
  | number n => some (.number n)
  | string s => some (.string s)
  | list t => some (.list t)
  | _ => none

/-- The value a literal denotes. -/
def ofLiteral : Literal → Value
  | .bool b => bool b
  | .number n => number n
  | .string s => string s
  | .null => null
  | .unit => unit

/-- A count or length as a number. -/
def ofSize (n : Nat) : Value := number (Float.ofNat n)

/-- One character as a string. -/
def ofChar (c : Char) : Value := string c.toString

end Value
end IslandScript
