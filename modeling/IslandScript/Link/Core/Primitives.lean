import IslandScript.Link.Core.Template
import IslandScript.Link.Native
import IslandScript.Text.Casing
import IslandScript.Text.Search
import IslandScript.Value.Equality

/-!
# Natives of primitives

The members of booleans, numbers, strings and lists. Each works on the primitive that its
instance wraps, and cannot be linked to an instance that wraps none of its kind.
-/

namespace IslandScript.Core

/-- The name of the class of the instance. -/
def className (c : Call) : Native Value := do
  let s ← c.instanceAt "Any.className"
  return .string (← fun o => pure (o.className s))

/-! ### Booleans -/

/-- The boolean the instance wraps. -/
def thisBool (c : Call) (path : String) : Native Bool := do
  match ← c.primitive path with
  | .bool b => return b
  | _ => Native.failLink (.missingReceiver path)

/-- The opposite. -/
def boolNot (c : Call) : Native Value := return .bool !(← thisBool c "Boolean.not")

/-- Whether both hold. A false one does not look at the other. -/
def boolBoth (c : Call) : Native Value := do
  if ← thisBool c "Boolean.both" then return .bool (← c.boolean 0 "Boolean.both@that")
  else return .bool false

/-- Whether one holds. A true one does not look at the other. -/
def boolEither (c : Call) : Native Value := do
  if ← thisBool c "Boolean.either" then return .bool true
  else return .bool (← c.boolean 0 "Boolean.either@that")

/-- Whether exactly one holds. -/
def boolXor (c : Call) : Native Value := do
  let this ← thisBool c "Boolean.xor"
  let that ← c.boolean 0 "Boolean.xor@that"
  return .bool (this != that)

/-- One for true, zero for false. -/
def boolToNumber (c : Call) : Native Value := do
  return .number (if ← thisBool c "Boolean.toNumber" then 1 else 0)

/-- The word for a boolean. -/
def boolToString (c : Call) : Native Value := do
  return .string (if ← thisBool c "Boolean.toString" then "true" else "false")

/-! ### Numbers -/

/-- The number the instance wraps. -/
def thisNumber (c : Call) (path : String) : Native Float := do
  match ← c.primitive path with
  | .number n => return n
  | _ => Native.failLink (.missingReceiver path)

/-- The sum with the argument. -/
def numberAdd (c : Call) : Native Value := do
  let this ← thisNumber c "Number.add"
  return .number (this + (← c.number 0 "Number.add@that"))

/-- The difference to the argument. -/
def numberSub (c : Call) : Native Value := do
  let this ← thisNumber c "Number.sub"
  return .number (this - (← c.number 0 "Number.sub@that"))

/-- The product with the argument. -/
def numberMul (c : Call) : Native Value := do
  let this ← thisNumber c "Number.mul"
  return .number (this * (← c.number 0 "Number.mul@that"))

/-- The quotient by the argument, which is no number if the argument is zero. -/
def numberDiv (c : Call) : Native Value := do
  let this ← thisNumber c "Number.div"
  let that ← c.number 0 "Number.div@that"
  return .number (if that == 0 then 0.0 / 0.0 else this / that)

/-- The greatest whole number not above. -/
def numberFloor (c : Call) : Native Value :=
  return .number (Number.floor (← thisNumber c "Number.floor"))

/-- The text of a number, without a fraction where it is whole. -/
def numberToString (c : Call) : Native Value :=
  return .string (Number.displayTruncated (← thisNumber c "Number.toString"))

/-! ### Strings -/

/-- The string the instance wraps. -/
def thisString (c : Call) (path : String) : Native String := do
  match ← c.primitive path with
  | .string s => return s
  | _ => Native.failLink (.missingReceiver path)

/-- The number of characters. -/
def stringSize (c : Call) : Native Value :=
  return .ofSize (← thisString c "String.size").length

/-- The character at a position. -/
def stringGet (c : Call) : Native Value := do
  let this ← thisString c "String.get"
  let n ← c.number 0 "String.get@index"
  match (Value.wholeIndex? n).bind (this.toList[·]?) with
  | some ch => return .ofChar ch
  | none => Native.failLink (.invalidStringIndex (← Native.display (c.arg 0)))

/-- The string in upper case. -/
def stringUpper (c : Call) : Native Value :=
  return .string (Text.upper (← thisString c "String.upper"))

/-- The string in lower case. -/
def stringLower (c : Call) : Native Value :=
  return .string (Text.lower (← thisString c "String.lower"))

/-- Whether the argument occurs in the string. -/
def stringContains (c : Call) : Native Value := do
  let this ← thisString c "String.contains"
  let that ← c.string 0 "String.contains@that"
  return .bool (Text.occursIn that.toList this.toList)

/-- The parts of the string between the separators. -/
def stringSplit (c : Call) : Native Value := do
  let this ← thisString c "String.split"
  let separator ← c.string 0 "String.split@separator"
  Native.newList ((Text.split this separator).map .string)

/-- The string as a template, filled with the elements of a list. -/
def stringFormat (c : Call) : Native Value := do
  let this ← thisString c "String.format"
  let t ← c.list 0 "String.format@args"
  let args ← Native.displayAll (← Native.items t)
  match format this args with
  | .ok text => return .string text
  | .error kind => Native.failLink kind

/-! ### Lists -/

/-- The list the instance wraps. -/
def thisList (c : Call) (path : String) : Native TableId := do
  match ← c.primitive path with
  | .list t => return t
  | _ => Native.failLink (.missingReceiver path)

/-- The number of elements. -/
def listSize (c : Call) : Native Value := do
  let this ← thisList c "List.size"
  return .ofSize (← Native.read (·.tables.length this))

/-- Adds an element at the end. -/
def listPush (c : Call) : Native Value := do
  let this ← thisList c "List.push"
  Native.change (·.update this (·.push (c.arg 0)))
  return .unit

/-- Takes the last element away, which is null if there is none. -/
def listPop (c : Call) : Native Value := do
  let this ← thisList c "List.pop"
  let last ← Native.read fun s => (s.tables.get this).items.back?
  Native.change (·.update this (·.pop))
  return last.getD .null

/-- The list indexed by the argument. -/
def listGet (c : Call) : Native Value := do
  let this ← thisList c "List.get"
  let i := c.arg 0
  let r ← Native.read fun s => Value.index s.tables (.list this) i
  Native.ofIndex (.list this) i r

/-- Puts a value at a position or under a key. -/
def listSet (c : Call) : Native Value := do
  let this ← thisList c "List.set"
  let v := c.arg 1
  match c.arg 0 with
  | .string k => Native.change (·.update this (·.setKey k v))
  | .number n =>
    let r ← Native.read fun s => Value.position (s.tables.length this) (.number n)
    let p ← Native.ofIndex (.list this) (.number n) r
    Native.change (·.update this (·.set p v))
  | other => Native.invalidArgument other "List.set@index"
  return .unit

/-- Whether an element equals the argument. -/
def listContains (c : Call) : Native Value := do
  let this ← thisList c "List.contains"
  return .bool (← Native.read (·.tables.contains this (c.arg 0)))

/-- The elements as they are shown, with a separator between them. -/
def listJoin (c : Call) : Native Value := do
  let this ← thisList c "List.join"
  let separator ← c.string 0 "List.join@separator"
  let parts ← Native.displayAll (← Native.items this)
  return .string (Text.join separator parts)

/-- The natives of primitives by path. -/
def primitives : List (String × NativeFunction) :=
  [("Any.className", ⟨0, className⟩),
   ("Boolean.not", ⟨0, boolNot⟩), ("Boolean.both", ⟨1, boolBoth⟩),
   ("Boolean.either", ⟨1, boolEither⟩), ("Boolean.xor", ⟨1, boolXor⟩),
   ("Boolean.toNumber", ⟨0, boolToNumber⟩), ("Boolean.toString", ⟨0, boolToString⟩),
   ("Number.add", ⟨1, numberAdd⟩), ("Number.sub", ⟨1, numberSub⟩),
   ("Number.mul", ⟨1, numberMul⟩), ("Number.div", ⟨1, numberDiv⟩),
   ("Number.floor", ⟨0, numberFloor⟩), ("Number.toString", ⟨0, numberToString⟩),
   ("String.size", ⟨0, stringSize⟩), ("String.get", ⟨1, stringGet⟩),
   ("String.upper", ⟨0, stringUpper⟩), ("String.lower", ⟨0, stringLower⟩),
   ("String.contains", ⟨1, stringContains⟩), ("String.split", ⟨1, stringSplit⟩),
   ("String.format", ⟨1, stringFormat⟩),
   ("List.size", ⟨0, listSize⟩), ("List.push", ⟨1, listPush⟩), ("List.pop", ⟨0, listPop⟩),
   ("List.get", ⟨1, listGet⟩), ("List.set", ⟨2, listSet⟩),
   ("List.contains", ⟨1, listContains⟩), ("List.join", ⟨1, listJoin⟩)]

end IslandScript.Core
