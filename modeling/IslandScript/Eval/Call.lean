import IslandScript.Eval.Argument

/-!
# Calling functions

The body of a function runs in a new scope inside the one the function closes over. What it
returns is the value of the call, else unit; no break, continue or return leaves it. A native
function gets its arguments and the instance it is called on.
-/

namespace IslandScript.Eval

/-- Runs a native at a place, which is where its errors are. -/
def native {α : Type} (x : Native α) (span : Span) : Eval α := fun m =>
  let objects := m.objects
  let (r, store) := x.run objects m.store
  match r with
  | .ok a => .done a { m with store := store }
  | .error kind => .raised (.failed ⟨kind, span⟩) { m with store := store }

/-- Calls a native function, which takes exactly as many arguments as it was registered with. -/
def callNative (f : NativeFunction) (path : String) (call : Call) (span : Span) : Eval Value :=
  if call.args.length ≠ f.arity then
    fail (.link (.arityMismatch path f.arity call.args.length)) Span.none
  else native (f.call call) span

/-- The value of a body by its outcome: what it returns, else unit. Jumps that leave it are
errors at the body. -/
def bodyValue (span : Span) : Except Signal Unit → Eval Value
  | .ok () => return .unit
  | .error (.returnValue v) => return v
  | .error (.breakLoop _) => fail (.unhandledRedirect .breakLoop) span
  | .error (.continueLoop _) => fail (.unhandledRedirect .continueLoop) span
  | .error s => raise s

/-- Runs the body of a function in the current scope. -/
def runBody (ev : Evaluator) : Option (Stmt Name) → Eval Value
  | none => return .unit
  | some body => do bodyValue body.span (← attempt (ev.stmt body))

/-- Calls a function that a program declared. -/
def callDeclared (ev : Evaluator) (f : FunctionObject) (args : List Value) (span : Span) :
    Eval Value :=
  inChildOf f.scope do
    bindParams span f.decl.params args
    runBody ev f.decl.body

/-- Calls a function with evaluated arguments. -/
def callFunction (ev : Evaluator) (f : FunctionObject) (receiver : Option ScopeId)
    (args : List Value) (span : Span) : Eval Value := do
  match f.native with
  | none => callDeclared ev f args span
  | some id =>
    match ← read (·.linker.nativeFunction? id) with
    | some nf => callNative nf f.decl.path ⟨receiver, args⟩ span
    | none => fail (.link (.missingFunction f.decl.path)) Span.none

/-- A function with a declaration and the current scope. -/
def makeFunction (decl : Function Name) (nativeId : Option NativeFunctionId) : Eval Value :=
  take fun m =>
    let name := (decl.name.map m.text).getD ""
    let (f, m) := m.addFunction ⟨name, decl, m.env.current, nativeId⟩
    (.function f, m)

end IslandScript.Eval
