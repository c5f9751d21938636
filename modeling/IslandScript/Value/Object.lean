import IslandScript.Value.Scope

/-!
# Functions, classes and instances

A function or class that a program made keeps its declaration and the scope it was made in. The
native part of a linked one is known by its place in the register of natives.
-/

namespace IslandScript

/-- The place of a native function in the register. -/
structure NativeFunctionId where
  index : Nat
  deriving DecidableEq, Repr, Inhabited

/-- The place of a native class in the register. -/
structure NativeClassId where
  index : Nat
  deriving DecidableEq, Repr, Inhabited

/-- A function: its name, which a lambda has not, its declaration, and the scope it closes
over. -/
structure FunctionObject where
  name : String
  decl : Function Name
  scope : ScopeId
  native : Option NativeFunctionId

/-- A class: its name, its declaration, and the scope it closes over. -/
structure ClassObject where
  name : String
  decl : Class Name
  scope : ScopeId
  native : Option NativeClassId

/-- What values refer to, tables apart. -/
structure Objects where
  scopes : Scopes
  functions : Array FunctionObject
  classes : Array ClassObject

namespace Objects

/-- No objects. -/
def empty : Objects := ⟨#[], #[], #[]⟩

/-- The name of the class of an instance. -/
def className (o : Objects) (s : ScopeId) : String :=
  match (o.scopes.get s).frame with
  | some frame => ((o.classes[frame.cls.index]?).map (·.name)).getD ""
  | none => ""

/-- The payload of an instance. -/
def payload? (o : Objects) (s : ScopeId) : Option Payload :=
  (o.scopes.get s).frame.bind (·.payload)

/-- The primitive an instance wraps. -/
def primitive? (o : Objects) (s : ScopeId) : Option Primitive :=
  match o.payload? s with
  | some (.primitive p) => some p
  | _ => none

end Objects
end IslandScript
