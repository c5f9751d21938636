import IslandScript.Eval.Member
import IslandScript.Value.Operator

/-!
# Evaluating expressions

One definition for each form of expression, over an evaluator of its parts, and `exprStep`, which
chooses among them. Operands are evaluated from left to right; `or` and `and` leave the right one
out when the left decides.
-/

namespace IslandScript.Eval

/-- The value of a name. -/
def nameValue (n : Name) (span : Span) : Eval Value := fun m =>
  match m.env.lookup? n with
  | some v => .done v m
  | none => .raised (.failed ⟨.undefinedName (m.text n), span⟩) m

/-- A prefix operator. An operand that cannot be spread is at fault itself; any other error is at
the operator. -/
def unary (ev : Evaluator) (span : Span) (op : UnaryOp) (operand : Expr Name) : Eval Value := do
  let v ← ev.expr operand
  match ← read fun m => op.apply? m.store.tables v with
  | some (.value w) => return w
  | some (.elements items) => take (·.newList items)
  | none =>
    if op == .spread then failShowing v .notSpreadable operand.span
    else failShowing v (.invalidUnaryOperand · op) span

/-- Whether a left operand alone decides a logical operator, or is refused by it. -/
def decides (op : BinaryOp) (v : Value) : Except Side Bool :=
  match op, v with
  | .or, .bool b => .ok b
  | .and, .bool b => .ok (!b)
  | .or, _ => .error .left
  | .and, _ => .error .left
  | _, _ => .ok false

/-- An infix operator. -/
def binary (ev : Evaluator) (op : BinaryOp) (left right : Expr Name) : Eval Value := do
  let v ← ev.expr left
  match decides op v with
  | .error _ => failShowing v (.invalidLeftOperand · op) left.span
  | .ok true => return v
  | .ok false =>
    let w ← ev.expr right
    match ← read fun m => op.apply m.store.tables v w with
    | .ok result => return result
    | .error .left => failShowing v (.invalidLeftOperand · op) left.span
    | .error .right => failShowing w (.invalidRightOperand · op) right.span

/-- An assignment, whose value is the value assigned. -/
def assign (ev : Evaluator) (span : Span) (target : Name) (value : Expr Name) : Eval Value := do
  let v ← ev.expr value
  fun m =>
    match m.env.scopes.assignable m.env.current target with
    | .ok s => .done v (m.onEnv (·.write s target v))
    | .error .undefined => .raised (.failed ⟨.undefinedName (m.text target), span⟩) m
    | .error .constant => .raised (.failed ⟨.reassignedConstant, span⟩) m

/-- A value indexed by several values, one after the other. -/
def indexBy (span : Span) : Value → List Value → Eval Value
  | v, [] => return v
  | v, i :: is => do
    match ← read fun m => v.index m.store.tables i with
    | .ok w => indexBy span w is
    | .error e => fun m => .raised (.failed ⟨.ofIndex m.display v i e, span⟩) m

/-- What a call calls, with the instance that has it if it is called as a member. -/
def callee (ev : Evaluator) : Expr Name → Eval (Value × Option ScopeId)
  | .member span object n => do
    let v ← ev.expr object
    memberOf ev v n span
  | target => do return (← ev.expr target, none)

/-- The instance a function is called on. A function called as a member is called on the instance
that has it, any other on the nearest instance around the scope it closes over. -/
def receiverOf (f : FunctionObject) (owner : Option ScopeId) : Expr Name → Eval (Option ScopeId)
  | .member .. => return owner
  | _ => read (·.env.scopes.nearestInstance? f.scope)

/-- A call of a function by its place. -/
def invokeFunction (ev : Evaluator) (span : Span) (target : Expr Name) (owner : Option ScopeId)
    (id : FunctionId) (args : List (Arg Name (Expr Name))) : Eval Value := do
  match ← read (·.functions[id.index]?) with
  | none => unfinished
  | some f =>
    let receiver ← receiverOf f owner target
    let values ← arguments ev f.decl.params f.name args span
    callFunction ev f receiver values span

/-- A call. -/
def invoke (ev : Evaluator) (span : Span) (target : Expr Name)
    (args : List (Arg Name (Expr Name))) : Eval Value := do
  let called ← callee ev target
  match called.1 with
  | .function id => invokeFunction ev span target called.2 id args
  | .cls id => return .inst (← invokeClass ev id args span)
  | other => failShowing other .notCallable target.span

/-- A condition, which has to be a boolean. -/
def condition (ev : Evaluator) (e : Expr Name) : Eval Bool := do
  match ← ev.expr e with
  | .bool b => return b
  | other => failShowing other .invalidCondition e.span

/-- A condition that may be missing and then holds. -/
def condition? (ev : Evaluator) : Option (Expr Name) → Eval Bool
  | none => return true
  | some e => condition ev e

/-- The element of a comprehension for one item, unless the condition leaves it out. -/
def comprehended (ev : Evaluator) (element : Expr Name) (p : Pattern Name) (iterable : Expr Name)
    (test : Option (Expr Name)) (item : Value) : Eval (Option Value) :=
  inChild do
    bindPattern p item .constant false iterable.span
    if ← condition? ev test then return some (← ev.expr element) else return none

/-- The elements of a comprehension, behind those found so far, which are in reverse. -/
def comprehension (ev : Evaluator) (element : Expr Name) (p : Pattern Name)
    (iterable : Expr Name) (test : Option (Expr Name)) (found : List Value) :
    List Value → Eval (List Value)
  | [] => return found.reverse
  | item :: items => do
    let v ← comprehended ev element p iterable test item
    comprehension ev element p iterable test (v.toList ++ found) items

/-- Expressions in order; the value is that of the last. -/
def sequence (ev : Evaluator) : Value → List (Expr Name) → Eval Value
  | last, [] => return last
  | _, e :: es => do sequence ev (← ev.expr e) es

/-- An expression that may be missing and then is unit. -/
def expr? (ev : Evaluator) : Option (Expr Name) → Eval Value
  | none => return .unit
  | some e => ev.expr e

/-- Whether a branch is taken: its condition equals the subject, or holds if there is none. -/
def branchTaken (ev : Evaluator) (subject : Option Value) (e : Expr Name) : Eval Bool :=
  match subject with
  | none => condition ev e
  | some v => do
    let w ← ev.expr e
    read fun m => v.equal m.store.tables w

/-- The first branch that is taken, or else the last part of a `when`. -/
def branches (ev : Evaluator) (subject : Option Value) (otherwise : Option (Expr Name)) :
    List (Branch (Expr Name)) → Eval Value
  | [] => expr? ev otherwise
  | b :: bs => do
    if ← branchTaken ev subject b.condition then ev.expr b.body
    else branches ev subject otherwise bs

/-- Binds the name a handler gives to what was thrown, if it gives one. -/
def bindThrown (v : Value) (span : Span) : Option Name → Eval Unit
  | none => return ()
  | some n => bind n (.constant v) span

/-- What a `try` does with the outcome of its body: a throw goes to the handler, if there is
one. -/
def handled (ev : Evaluator) (error : Option Name) (handler : Option (Expr Name))
    (r : Except Signal Value) : Eval Value :=
  match r, handler with
  | .error (.throwValue v), some h =>
    inChild do
      bindThrown v h.span error
      ev.expr h
  | r, _ => resume r

/-- A `try`. Errors are not caught and skip the last part, whose own signals count more than the
outcome it follows. -/
def tryCatch (ev : Evaluator) (body : Expr Name) (error : Option Name)
    (handler finalizer : Option (Expr Name)) : Eval Value := do
  let r ← attempt (ev.expr body)
  let r ← attempt (handled ev error handler r)
  match r with
  | .error (.failed e) => raise (.failed e)
  | r =>
    let _ ← expr? ev finalizer
    resume r

/-- The value of a name that may be missing. -/
def nameValue? (span : Span) : Option Name → Eval (Option Value)
  | none => return none
  | some n => do return some (← nameValue n span)

/-- An expression, over an evaluator of its parts. -/
def exprStep (ev : Evaluator) : Expr Name → Eval Value
  | .value _ literal => return .ofLiteral literal
  | .name span n => nameValue n span
  | .unary span op operand => unary ev span op operand
  | .binary _ op left right => binary ev op left right
  | .assign span target value => assign ev span target value
  | .member span target n => do
    let v ← ev.expr target
    return (← memberOf ev v n span).1
  | .index span target args => do
    let v ← ev.expr target
    indexBy span v (← spreadArgs ev args)
  | .invoke span target args => invoke ev span target args
  | .list _ elements => do
    let values ← exprs ev elements
    take (·.newList values)
  | .comprehension _ element p iterable test => do
    let v ← ev.expr iterable
    let items ← spread v iterable.span
    let values ← comprehension ev element p iterable test [] items
    take (·.newList values)
  | .lambda _ decl => makeFunction decl none
  | .block _ items => inChild (sequence ev .unit items)
  | .ifElse _ test body otherwise => do
    if ← condition ev test then ev.expr body else expr? ev otherwise
  | .whenCase span subject bs otherwise => do
    branches ev (← nameValue? span subject) otherwise bs
  | .tryCatch _ body error handler finalizer => tryCatch ev body error handler finalizer
  | .statement _ s => do
    ev.stmt s
    return .unit

end IslandScript.Eval
