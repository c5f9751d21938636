import IslandScript.Eval.Call

/-!
# Classes, instances and enums

An instance is made in layers of scopes: the parameters in a scope inside the one the class
closes over, and the instance itself inside that. The base instance is made in the scope of the
parameters. The initializers run in the instance, so what they declare become its members; last
come the members `this` and `base`.
-/

namespace IslandScript.Eval

/-- A class with a declaration and the current scope. The native part of a linked class is found
now. -/
def makeClass (decl : Class Name) : Eval ClassId := fun m =>
  let made (nativeId : Option NativeClassId) : Outcome ClassId :=
    let (c, m) := m.addClass ⟨m.text decl.name, decl, m.env.current, nativeId⟩
    .done c m
  if decl.linked then
    match m.linker.cls decl.path with
    | .ok id => made (some id)
    | .error kind => .raised (.failed ⟨.link kind, Span.none⟩) m
  else made none

/-- Defines a member of an instance, unless it has it. -/
def define (s : ScopeId) (n : Name) (v : Value) : Eval Unit :=
  change (·.onEnv (·.define s n (.constant v)))

/-- The base instance of a class, evaluated in the scope of its parameters. -/
def baseInstance (ev : Evaluator) : Option (Expr Name) → Eval (Option ScopeId)
  | none => return none
  | some e => do
    match ← ev.expr e with
    | .inst b => return some b
    | .null => return none
    | other => failShowing other .invalidBase e.span

/-- Copies a parameter from its scope into an instance, if it has a marker. -/
def memberParam (paramScope s : ScopeId) (p : Param Name (Expr Name)) : Eval Unit :=
  match p.marker with
  | none => return ()
  | some kind => do
    match ← read (·.env.scopes.own? paramScope p.name) with
    | some r => change (·.onEnv (·.define s p.name ⟨kind, p.mutable, r.value⟩))
    | none => return ()

/-- Copies the parameters with a marker from their scope into an instance. -/
def memberParams (paramScope s : ScopeId) : List (Param Name (Expr Name)) → Eval Unit
  | [] => return ()
  | p :: ps => do
    memberParam paramScope s p
    memberParams paramScope s ps

/-- Makes the native state of an instance of a linked class. -/
def nativePart (c : ClassObject) (s : ScopeId) (span : Span) : Eval Unit :=
  match c.native with
  | none => return ()
  | some id => do
    match ← read (·.linker.nativeClass? id) with
    | none => fail (.link (.missingClass c.decl.path)) Span.none
    | some nc =>
      let state ← native (nc.construct s) span
      change (·.onEnv fun env =>
        { env with scopes := env.scopes.update s (·.withPayload (.native state)) })

/-- Runs the initializers of a class in the current scope. No jump leaves them. -/
def runInitializers (ev : Evaluator) : List (Stmt Name) → Eval Unit
  | [] => return ()
  | s :: rest => do
    match ← attempt (ev.stmt s) with
    | .ok () => runInitializers ev rest
    | .error (.breakLoop _) => fail (.unhandledRedirect .breakLoop) s.span
    | .error (.continueLoop _) => fail (.unhandledRedirect .continueLoop) s.span
    | .error (.returnValue _) => fail (.unhandledRedirect .returnValue) s.span
    | .error signal => raise signal

/-- Creates the scope of an instance inside the current scope. -/
def createInstance (c : ClassId) (base : Option ScopeId) (payload : Option Payload) :
    Eval ScopeId :=
  take fun m =>
    let (s, env) := m.env.create ⟨[], some m.env.current, some ⟨c, base, payload⟩⟩
    (s, { m with env := env })

/-- Fills a new instance, in its own scope: the parameters that are members, the native state,
and what the initializers declare. -/
def fillInstance (ev : Evaluator) (c : ClassObject) (paramScope s : ScopeId) (span : Span) :
    Eval Unit :=
  inScope s do
    memberParams paramScope s c.decl.params
    nativePart c s span
    runInitializers ev c.decl.init

/-- Makes the instance of a class in the scope of its parameters: the instance, and its base. A
wrapper is made for a primitive; any other instance stands for what its base stands for, until a
native class gives it a state. -/
def construct (ev : Evaluator) (id : ClassId) (c : ClassObject) (args : List Value)
    (primitive : Option Primitive) (span : Span) : Eval (ScopeId × Option ScopeId) := do
  bindParams span c.decl.params args
  let paramScope ← read (·.env.current)
  let base ← baseInstance ev c.decl.base
  let inherited ← read fun m => base.bind m.objects.payload?
  let s ← createInstance id base ((primitive.map .primitive).or inherited)
  fillInstance ev c paramScope s span
  return (s, base)

/-- Defines the member `base` of an instance that has a base. -/
def defineBase (s : ScopeId) : Option ScopeId → Eval Unit
  | none => return ()
  | some b => define s Name.base (.inst b)

/-- Makes an instance of a class from evaluated arguments. -/
def instantiate (ev : Evaluator) (id : ClassId) (c : ClassObject) (args : List Value)
    (primitive : Option Primitive) (span : Span) : Eval ScopeId := do
  let made ← inChildOf c.scope (construct ev id c args primitive span)
  define made.1 Name.this (.inst made.1)
  defineBase made.1 made.2
  return made.1

/-- Makes an instance of a class from the arguments of a call. -/
def invokeClass (ev : Evaluator) (id : ClassId) (args : List (Arg Name (Expr Name)))
    (span : Span) : Eval ScopeId := do
  match ← read (·.classes[id.index]?) with
  | none => unfinished
  | some c =>
    let values ← arguments ev c.decl.params c.name args span
    instantiate ev id c values none span

/-- Declares a class. -/
def declareClass (decl : Class Name) (span : Span) : Eval Unit := do
  let c ← makeClass decl
  bind decl.name (.constant (.cls c)) span

/-- Declares an object: the one instance of a class of its own. -/
def declareObject (ev : Evaluator) (decl : Class Name) (span : Span) : Eval Unit := do
  let c ← makeClass decl
  let s ← invokeClass ev c [] span
  bind decl.name (.constant (.inst s)) span

/-- Makes the entries of an enum: instances of its class, with their names and places as
members, that are members of the instance `s`. -/
def enumEntries (ev : Evaluator) (c : ClassId) (s : ScopeId) :
    List (EnumEntry Name (Expr Name)) → Eval Unit
  | [] => return ()
  | entry :: rest => do
    let made ← invokeClass ev c entry.args entry.span
    let text ← read (·.text entry.name)
    define made Name.name (.string text)
    define made Name.ordinal (.ofSize entry.ordinal)
    if (← read (·.env.scopes.own? s entry.name)).isSome then
      fail (.redefinedName text) entry.span
    else
      define s entry.name (.inst made)
      enumEntries ev c s rest

/-- Declares an enum: an instance of its class, made without running the class, whose members are
the entries. -/
def declareEnum (ev : Evaluator) (decl : Enum Name) (span : Span) : Eval Unit := do
  let c ← makeClass decl.cls
  let s ← createInstance c none none
  enumEntries ev c s decl.entries
  bind decl.cls.name (.constant (.inst s)) span

end IslandScript.Eval
