import IslandScript.Value.Scope

/-!
# The environment

The graph of all scopes, and the stack of those that are active. Declarations land in the scope
on top; names are searched from it outward through the graph, not through the stack. The scope
at the bottom is the global one, which stays.
-/

namespace IslandScript

/-- The scopes created so far, and those that are active, the innermost first. There is always an
active one. -/
@[ext]
structure Environment where
  scopes : Scopes
  stack : List ScopeId
  stack_ne_nil : stack ≠ [] := by simp
  deriving DecidableEq, Repr

namespace Environment

/-- The scope that is always there. -/
def global : ScopeId := ⟨0⟩

/-- An environment with nothing but an empty global scope. -/
def new : Environment := { scopes := #[Scope.root], stack := [global] }

instance : Inhabited Environment := ⟨new⟩

/-- The innermost active scope. -/
def current (env : Environment) : ScopeId := env.stack.headD global

/-- The number of active scopes. -/
def depth (env : Environment) : Nat := env.stack.length

/-- Creates a scope without making it active: its place, and the environment with it. -/
def create (env : Environment) (s : Scope) : ScopeId × Environment :=
  (⟨env.scopes.size⟩, { env with scopes := env.scopes.push s })

/-- Makes a scope active. -/
def push (env : Environment) (s : ScopeId) : Environment :=
  { env with stack := s :: env.stack, stack_ne_nil := List.cons_ne_nil s env.stack }

/-- Makes a new scope active that is inside another. -/
def pushChildOf (env : Environment) (parent : ScopeId) : Environment :=
  let (s, env) := env.create (.inside parent)
  env.push s

/-- Makes a new scope active that is inside the current one. -/
def pushChild (env : Environment) : Environment := env.pushChildOf env.current

/-- Leaves the innermost active scope; the last one is never left. -/
def pop (env : Environment) : Environment :=
  match env.stack with
  | _ :: s :: rest => { env with stack := s :: rest, stack_ne_nil := List.cons_ne_nil s rest }
  | _ => env

/-- What the current scope itself binds a name to. -/
def own? (env : Environment) (n : Name) : Option Reference := env.scopes.own? env.current n

/-- The value of a name as seen from the current scope. -/
def lookup? (env : Environment) (n : Name) : Option Value := env.scopes.lookup? env.current n

/-- Binds a name in a scope, which does not bind it yet. -/
def bindIn (env : Environment) (s : ScopeId) (n : Name) (r : Reference) : Environment :=
  { env with scopes := env.scopes.update s (·.bind n r) }

/-- Binds a name in a scope, unless the scope binds it already. -/
def define (env : Environment) (s : ScopeId) (n : Name) (r : Reference) : Environment :=
  if (env.scopes.own? s n).isSome then env else env.bindIn s n r

/-- Declares a name in the current scope, unless it is bound there. -/
def declare (env : Environment) (n : Name) (r : Reference) : Option Environment :=
  if (env.own? n).isSome then none else some (env.bindIn env.current n r)

/-- Writes the value of a name that a scope binds. -/
def write (env : Environment) (s : ScopeId) (n : Name) (v : Value) : Environment :=
  { env with scopes := env.scopes.write s n v }

/-- Assigns to a name as seen from the current scope. -/
def assign (env : Environment) (n : Name) (v : Value) : Except Scopes.AssignError Environment :=
  (env.scopes.assignable env.current n).map fun s => env.write s n v

end Environment
end IslandScript
