import IslandScript.Environment
import IslandScript.Link.Linker
import IslandScript.Value.Wrappers

/-!
# The state of an interpreter

All that lasts from one line of a session to the next: names, scopes, functions and classes, the
store, the linker, the instances that wrap primitives, and warnings not yet taken.
-/

namespace IslandScript

/-- The state of an interpreter. -/
structure Interpreter where
  interner : Interner
  env : Environment
  functions : Array FunctionObject
  classes : Array ClassObject
  store : Store
  linker : Linker
  wrappers : Wrappers
  warnings : List Diagnostic

namespace Interpreter

/-- An interpreter in which nothing was declared, over links and a console. -/
def new (linker : Linker) (console : Console) : Interpreter where
  interner := Interner.new
  env := Environment.new
  functions := #[]
  classes := #[]
  store := Store.new console
  linker := linker
  wrappers := .empty
  warnings := []

/-- What values refer to. -/
def objects (m : Interpreter) : Objects := ⟨m.env.scopes, m.functions, m.classes⟩

/-- The text of a name. -/
def text (m : Interpreter) (n : Name) : String := m.interner.text n

/-- How a value is shown. -/
def display (m : Interpreter) (v : Value) : String := m.objects.display m.store.tables v

/-- Adds a function: its place, and the interpreter with it. -/
def addFunction (m : Interpreter) (f : FunctionObject) : FunctionId × Interpreter :=
  (⟨m.functions.size⟩, { m with functions := m.functions.push f })

/-- Adds a class: its place, and the interpreter with it. -/
def addClass (m : Interpreter) (c : ClassObject) : ClassId × Interpreter :=
  (⟨m.classes.size⟩, { m with classes := m.classes.push c })

/-- Makes a list of elements: the list, and the interpreter with it. -/
def newList (m : Interpreter) (items : List Value) : Value × Interpreter :=
  let (v, store) := m.store.newList items
  (v, { m with store := store })

/-- Changes the environment. -/
@[inline] def onEnv (m : Interpreter) (f : Environment → Environment) : Interpreter :=
  { m with env := f m.env }

/-- Keeps the instance that wraps a primitive. -/
def keepWrapper (m : Interpreter) (p : Primitive) (s : ScopeId) : Interpreter :=
  { m with wrappers := m.wrappers.insert p s }

/-- Adds a warning. -/
def warn (m : Interpreter) (d : Diagnostic) : Interpreter :=
  { m with warnings := m.warnings ++ [d] }

end Interpreter
end IslandScript
