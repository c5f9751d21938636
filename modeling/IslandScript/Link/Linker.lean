import IslandScript.Link.Native
import IslandScript.Source

/-!
# Links and the linker

A link has a name, a prelude of declarations, and the natives they bind to: functions under paths
such as `String.upper`, classes under names. The linker knows the links that are available and
the natives of those that were imported. The first native registered for a path or name stays;
every native that was registered keeps its place for good, since functions already made refer to
it.
-/

namespace IslandScript

/-- A provider of natives. -/
structure Link where
  name : String
  prelude : Source
  functions : List (String × NativeFunction)
  classes : List (String × NativeClass)

/-- The links available, the names of the imported ones in order, and the registered natives. -/
structure Linker where
  available : List Link
  imported : List String
  functions : List (String × NativeFunctionId)
  classes : List (String × NativeClassId)
  nativeFunctions : Array NativeFunction
  nativeClasses : Array NativeClass

namespace Linker

/-- A linker that offers nothing. -/
def empty : Linker := ⟨[], [], [], [], #[], #[]⟩

instance : Inhabited Linker := ⟨empty⟩

/-- An available link by name. -/
def find? (l : Linker) (name : String) : Option Link := l.available.find? (·.name == name)

/-- Makes a link available, unless one of its name is. The answer tells which. -/
def add (l : Linker) (link : Link) : Bool × Linker :=
  if (l.find? link.name).isSome then (false, l)
  else (true, { l with available := l.available ++ [link] })

/-- Whether a link was imported. -/
def isImported (l : Linker) (name : String) : Bool := l.imported.contains name

/-- Registers a native function, unless its path is taken. -/
def registerFunction (l : Linker) (path : String) (f : NativeFunction) : Linker :=
  if (l.functions.lookup path).isSome then l
  else
    { l with
      functions := l.functions ++ [(path, ⟨l.nativeFunctions.size⟩)]
      nativeFunctions := l.nativeFunctions.push f }

/-- Registers a native class, unless its name is taken. -/
def registerClass (l : Linker) (name : String) (c : NativeClass) : Linker :=
  if (l.classes.lookup name).isSome then l
  else
    { l with
      classes := l.classes ++ [(name, ⟨l.nativeClasses.size⟩)]
      nativeClasses := l.nativeClasses.push c }

/-- Registers the natives of a link. -/
def register (l : Linker) (link : Link) : Linker :=
  let l := link.functions.foldl (fun l (path, f) => l.registerFunction path f) l
  link.classes.foldl (fun l (name, c) => l.registerClass name c) l

/-- Imports a link: its prelude, and the linker with its natives. There is no prelude to run if
the link was imported before. -/
def importLink (l : Linker) (name : String) : Except LinkErrorKind (Option Source × Linker) :=
  if l.isImported name then .ok (none, l)
  else
    match l.find? name with
    | none => .error (.missingLink name)
    | some link =>
      let l := l.register link
      .ok (some link.prelude, { l with imported := l.imported ++ [name] })

/-- The native function registered for a path. -/
def function (l : Linker) (path : String) : Except LinkErrorKind NativeFunctionId :=
  match l.functions.lookup path with
  | some f => .ok f
  | none => .error (.missingFunction path)

/-- The native class registered under a name. -/
def cls (l : Linker) (name : String) : Except LinkErrorKind NativeClassId :=
  match l.classes.lookup name with
  | some c => .ok c
  | none => .error (.missingClass name)

/-- A registered native function. -/
def nativeFunction? (l : Linker) (f : NativeFunctionId) : Option NativeFunction :=
  l.nativeFunctions[f.index]?

/-- A registered native class. -/
def nativeClass? (l : Linker) (c : NativeClassId) : Option NativeClass :=
  l.nativeClasses[c.index]?

/-- Closes the imported links and forgets what they registered: the links that were closed, in
the order of their import, and the linker without them. -/
def close (l : Linker) : List Link × Linker :=
  (l.imported.filterMap l.find?, { l with imported := [], functions := [], classes := [] })

end Linker
end IslandScript
