import IslandScript.Eval.Error
import IslandScript.Store
import IslandScript.Value.Display

/-!
# Natives

Functions and classes whose work is done outside the language. A native sees all objects but
changes the store only: it makes and fills lists and texts and uses the console, and no scope,
function or class changes while it runs. It either gives a value or fails with a cause; the call
that ran it knows the place.
-/

namespace IslandScript

/-- What a native function is called with: the instance it is called on, if any, and the
arguments in the order of its parameters. -/
structure Call where
  receiver : Option ScopeId
  args : List Value
  deriving DecidableEq, Repr

/-- The work of a native: it reads objects, changes the store, and may fail. -/
abbrev Native (α : Type) := ReaderT Objects (ExceptT EvalErrorKind (StateM Store)) α

/-- A native function: the number of arguments it takes, and its work. -/
structure NativeFunction where
  arity : Nat
  call : Call → Native Value

/-- A native class: its work is to make the state of a new instance. -/
structure NativeClass where
  construct : ScopeId → Native NativeState

namespace Native

variable {α : Type}

/-- Runs a native on a store. -/
def run (x : Native α) (o : Objects) (s : Store) : Except EvalErrorKind α × Store :=
  (x o).run s

/-- Fails. -/
def fail (kind : EvalErrorKind) : Native α := throw kind

/-- Fails with a failure of links. -/
def failLink (kind : LinkErrorKind) : Native α := throw (.link kind)

/-- Reads the store. -/
def read (f : Store → α) : Native α := fun _ => ExceptT.lift fun s => (f s, s)

/-- Changes the store. -/
def change (f : Store → Store) : Native Unit := fun _ => ExceptT.lift fun s => ((), f s)

/-- Changes the store and gives something of it. -/
def take (f : Store → α × Store) : Native α := fun _ => ExceptT.lift f

/-- How a value is shown. -/
def display (v : Value) : Native String := fun o => ExceptT.lift fun s => (o.display s.tables v, s)

/-- How values are shown. -/
def displayAll : List Value → Native (List String)
  | [] => return []
  | v :: vs => return (← display v) :: (← displayAll vs)

/-- Makes a list of elements. -/
def newList (items : List Value) : Native Value := take (·.newList items)

/-- The elements of a list. -/
def items (t : TableId) : Native (List Value) := read (·.tables.items t)

/-- Fails because of an argument that does not suit a parameter. -/
def invalidArgument (argument : Value) (param : String) : Native α := do
  failLink (.invalidArgument (← display argument) param)

/-- The result of an index, or its error. -/
def ofIndex (target i : Value) (r : Except IndexError α) : Native α :=
  match r with
  | .ok a => return a
  | .error e => fun o => ExceptT.mk fun s =>
    (.error (.ofIndex (o.display s.tables) target i e), s)

end Native

namespace Call

/-- An argument by place, unit if there is none. -/
def arg (c : Call) (i : Nat) : Value := (c.args[i]?).getD .unit

/-- An argument that has to be a number. -/
def number (c : Call) (i : Nat) (param : String) : Native Float :=
  match c.arg i with
  | .number n => return n
  | other => Native.invalidArgument other param

/-- An argument that has to be a boolean. -/
def boolean (c : Call) (i : Nat) (param : String) : Native Bool :=
  match c.arg i with
  | .bool b => return b
  | other => Native.invalidArgument other param

/-- An argument that has to be a string. -/
def string (c : Call) (i : Nat) (param : String) : Native String :=
  match c.arg i with
  | .string s => return s
  | other => Native.invalidArgument other param

/-- An argument that has to be a list. -/
def list (c : Call) (i : Nat) (param : String) : Native TableId :=
  match c.arg i with
  | .list t => return t
  | other => Native.invalidArgument other param

/-- The instance the call is on. -/
def instanceAt (c : Call) (path : String) : Native ScopeId :=
  match c.receiver with
  | some s => return s
  | none => Native.failLink (.missingReceiver path)

/-- The payload of the instance the call is on. -/
def payload (c : Call) (path : String) : Native Payload := do
  let s ← c.instanceAt path
  match (← fun o => pure (o.payload? s)) with
  | some p => return p
  | none => Native.failLink (.missingReceiver path)

/-- The primitive that the instance wraps. -/
def primitive (c : Call) (path : String) : Native Primitive := do
  match ← c.payload path with
  | .primitive p => return p
  | .native _ => Native.failLink (.missingReceiver path)

/-- The native state of the instance. -/
def state (c : Call) (path : String) : Native NativeState := do
  match ← c.payload path with
  | .native s => return s
  | .primitive _ => Native.failLink (.missingReceiver path)

end Call
end IslandScript
