import IslandScript.Number.Display
import IslandScript.Value.Object
import IslandScript.Value.Table

/-!
# How values are shown

A list shows its elements, not its keys. A list inside itself is not shown again: the lists that are
being shown are kept, and a placeholder stands for each that is met again inside itself. Lists that
merely occur several times are shown each time. An instance that wraps a primitive is shown as that
primitive.
-/

namespace IslandScript

/-- What stands for a list inside itself. -/
def selfReference : String := "(this Collection)"

/-- What there is to show of a value: a text, or a list. -/
inductive Face where
  | text (s : String)
  | list (t : TableId)
  deriving DecidableEq, Repr

/-- What there is to show of a primitive. -/
def Primitive.face : Primitive → Face
  | bool b => .text (if b then "true" else "false")
  | number n => .text (Number.display n)
  | string s => .text s
  | list t => .list t

namespace Objects

/-- How a function is shown. -/
def displayFunction (o : Objects) (f : FunctionId) : String :=
  match o.functions[f.index]? with
  | some fn => if fn.name.isEmpty then "<fun>" else s!"<fun {fn.name}>"
  | none => "<fun>"

/-- How a class is shown. -/
def displayClass (o : Objects) (c : ClassId) : String :=
  let name := ((o.classes[c.index]?).map (·.name)).getD ""
  s!"<class {name}>"

/-- What there is to show of a value. -/
def face (o : Objects) : Value → Face
  | .unit => .text "unit"
  | .null => .text "null"
  | .bool b => (Primitive.bool b).face
  | .number n => (Primitive.number n).face
  | .string s => (Primitive.string s).face
  | .list t => (Primitive.list t).face
  | .function f => .text (o.displayFunction f)
  | .cls c => .text (o.displayClass c)
  | .inst s =>
    match o.primitive? s with
    | some p => p.face
    | none => .text s!"<{o.className s} instance>"

end Objects

/-- A way to show something in the presence of the lists that are being shown around it, the
innermost first. -/
abbrev Showing := StateM (List TableId)

/-- Shows a list, which counts as being shown until that is done. A list that is being shown
already gets the placeholder. -/
def Showing.guarded (t : TableId) (contents : Showing String) : Showing String := do
  if t ∈ (← get) then return selfReference
  else
    modify (t :: ·)
    let text ← contents
    modify List.tail
    return text

namespace Objects

/-- How a value is shown, over a way to show lists. -/
def showBy (o : Objects) (list : TableId → Showing String) (v : Value) : Showing String :=
  match o.face v with
  | .text s => return s
  | .list t => list t

/-- How a list is shown, `levels` being a bound on the lists that are not being shown around it. -/
def showTable (o : Objects) (ts : Tables) : Nat → TableId → Showing String
  | 0, _ => return selfReference
  | levels + 1, t => .guarded t do
    let shown ← (ts.items t).mapM (o.showBy (showTable o ts levels))
    return "[" ++ ", ".intercalate shown ++ "]"

/-- How a value is shown. Each level shows another table, so the tables bound the levels. -/
def showValue (o : Objects) (ts : Tables) (v : Value) : Showing String :=
  o.showBy (o.showTable ts (ts.size + 1)) v

/-- How a value is shown when nothing else is. -/
def display (o : Objects) (ts : Tables) (v : Value) : String := ((o.showValue ts v).run []).1

end Objects
end IslandScript
