import IslandScript.Eval.Expression

/-!
# Executing statements

Each pass of a loop runs in a scope of its own. A loop stops the jumps without a label and those
to its own label: a break ends it, a continue ends the pass. The conditions of loops are evaluated
outside the scopes of the passes.
-/

namespace IslandScript.Eval

/-- What a loop with a label makes of the outcome of a pass: whether it goes on. -/
def afterPass (own : Option Name) : Except Signal Unit → Eval Bool
  | .ok () => return true
  | .error (.breakLoop label) =>
    if Signal.targets label own then return false else raise (.breakLoop label)
  | .error (.continueLoop label) =>
    if Signal.targets label own then return true else raise (.continueLoop label)
  | .error s => raise s

/-- One pass of a loop: whether the loop goes on. -/
def pass (ev : Evaluator) (own : Option Name) (body : Stmt Name) : Eval Bool := do
  afterPass own (← attempt (inChild (ev.stmt body)))

/-- A loop whose condition is tested before each pass. -/
def whileLoop (ev : Evaluator) (own : Option Name) (test : Expr Name) (body : Stmt Name) :
    Eval Unit :=
  iterate (fun () => do
    if ← condition ev test then
      if ← pass ev own body then return some () else return none
    else return none) ev.passes ()

/-- A loop whose condition is tested after each pass. -/
def doLoop (ev : Evaluator) (own : Option Name) (body : Stmt Name) (test : Expr Name) :
    Eval Unit :=
  iterate (fun () => do
    if ← pass ev own body then
      if ← condition ev test then return some () else return none
    else return none) ev.passes ()

/-- How often a counted loop runs: as often as its count, rounded down, says, and without end if
it has none. -/
def loopLimit (ev : Evaluator) : Option (Expr Name) → Eval (Option Float)
  | none => return none
  | some e => do
    match ← ev.expr e with
    | .number n => return some (Number.floor n)
    | other => failShowing other .invalidLoopCount e.span

/-- A counted loop. -/
def countedLoop (ev : Evaluator) (own : Option Name) (count : Option (Expr Name))
    (body : Stmt Name) : Eval Unit := do
  let limit ← loopLimit ev count
  iterate (fun (passes : Float) => do
    if limit.all (passes < ·) then
      if ← pass ev own body then return some (passes + 1) else return none
    else return none) ev.passes 0

/-- A loop over items, with the names of the pattern bound anew in each pass. -/
def forItems (ev : Evaluator) (own : Option Name) (p : Pattern Name) (span : Span)
    (body : Stmt Name) : List Value → Eval Unit
  | [] => return ()
  | item :: items => do
    let r ← attempt (inChild do
      bindPattern p item .constant false span
      ev.stmt body)
    if ← afterPass own r then forItems ev own p span body items else return ()

/-- Statements in order. -/
def stmts (ev : Evaluator) : List (Stmt Name) → Eval Unit
  | [] => return ()
  | s :: rest => do
    ev.stmt s
    stmts ev rest

/-- The native of a linked function. -/
def linkedNative (decl : Function Name) : Eval (Option NativeFunctionId) :=
  if decl.linked then do
    match ← read (·.linker.function decl.path) with
    | .ok id => return some id
    | .error kind => fail (.link kind) Span.none
  else return none

/-- Declares a function. The native of a linked function is found now. -/
def declareFunction (decl : Function Name) (span : Span) : Eval Unit := do
  let nativeId ← linkedNative decl
  let f ← makeFunction decl nativeId
  match decl.name with
  | some n => bind n (.constant f) span
  | none => return ()

/-- A statement, over an evaluator of its parts. -/
def stmtStep (ev : Evaluator) : Stmt Name → Eval Unit
  | .expr _ e => do
    let _ ← ev.expr e
  | .declare span kind mutable p value => do
    let v ← ev.expr value
    bindPattern p v kind mutable span
  | .block _ body => inChild (stmts ev body)
  | .whileLoop _ own test body => whileLoop ev own test body
  | .doLoop _ own body test => doLoop ev own body test
  | .loop _ own count body => countedLoop ev own count body
  | .forLoop _ own p iterable body => do
    let v ← ev.expr iterable
    let items ← spread v iterable.span
    forItems ev own p iterable.span body items
  | .breakLoop _ label => raise (.breakLoop label)
  | .continueLoop _ label => raise (.continueLoop label)
  | .throwValue _ value => do raise (.throwValue (← ev.expr value))
  | .returnValue _ value => do raise (.returnValue (← expr? ev value))
  | .exitValue _ value => do raise (.exitValue (← expr? ev value))
  | .function span decl => declareFunction decl span
  | .cls span decl => declareClass decl span
  | .object span decl => declareObject ev decl span
  | .enum span decl => declareEnum ev decl span

end IslandScript.Eval
