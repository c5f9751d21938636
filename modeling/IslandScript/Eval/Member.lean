import IslandScript.Eval.Class

/-!
# Members

Members are those of an instance. A boolean, number, string or list has the members of an
instance that wraps it, made from a class of the prelude when first asked for, and kept.
-/

namespace IslandScript.Eval

/-- The class of the prelude that wraps a primitive, if the global scope has it. -/
def wrapperClass? (m : Interpreter) (p : Primitive) : Option ClassId := do
  let n ← m.interner.get? p.className
  let r ← m.env.scopes.own? Environment.global n
  match r.value with
  | .cls c => some c
  | _ => none

/-- The instance that wraps a primitive, if there is a class for it. -/
def wrap (ev : Evaluator) (p : Primitive) (span : Span) : Eval (Option ScopeId) := do
  match ← read (·.wrappers.get? p) with
  | some s => return some s
  | none =>
    match ← read fun m => (wrapperClass? m p).bind fun id => (m.classes[id.index]?).map (id, ·) with
    | none => return none
    | some (id, c) =>
      let s ← instantiate ev id c [] (some p) span
      change (·.keepWrapper p s)
      return some s

/-- The instance whose members are those of a value. -/
def instanceOf (ev : Evaluator) (v : Value) (span : Span) : Eval (Option ScopeId) :=
  match v with
  | .inst s => return some s
  | v =>
    match v.primitive? with
    | some p => wrap ev p span
    | none => return none

/-- The member of a value by name, with the instance that has it. -/
def memberOf (ev : Evaluator) (target : Value) (n : Name) (span : Span) :
    Eval (Value × Option ScopeId) := do
  let s ← instanceOf ev target span
  match ← read fun m => s.bind (m.env.scopes.member? · n) with
  | some v => return (v, s)
  | none =>
    let text ← read (·.text n)
    failShowing target (.undefinedMember · text) span

end IslandScript.Eval
