import IslandScript.Link.Native

/-!
# Builders

A native class whose instances hold a text that grows.
-/

namespace IslandScript.Core

/-- The text of a builder. -/
def builderText (c : Call) (path : String) : Native BufferId := do
  match ← c.state path with
  | .buffer b => return b
  | .text _ => Native.failLink (.missingReceiver path)

/-- Adds the argument as it is shown; the builder itself is the result. -/
def builderAppend (c : Call) : Native Value := do
  let b ← builderText c "Builder.append"
  let text ← Native.display (c.arg 0)
  Native.change (·.append b text)
  return .inst (← c.instanceAt "Builder.append")

/-- The text built so far. -/
def builderBuild (c : Call) : Native Value := do
  let b ← builderText c "Builder.build"
  return .string (← Native.read (·.buffer b))

/-- The natives of builders by path. -/
def builderFunctions : List (String × NativeFunction) :=
  [("Builder.append", ⟨1, builderAppend⟩), ("Builder.build", ⟨0, builderBuild⟩)]

/-- The native class of builders: a new one has an empty text. -/
def builderClasses : List (String × NativeClass) :=
  [("Builder", ⟨fun _ => return .buffer (← Native.take (·.newBuffer))⟩)]

end IslandScript.Core
