import IslandScript.Name
import IslandScript.Syntax.Tree
import IslandScript.Value.Basic

/-!
# Scopes

Scopes form a graph: each knows the scope around it. An instance is a scope as well, whose own
bindings are its members; its frame tells its class and its base instance. A name is searched in
a scope, then along the chain of base instances, then in the scope around.

A scope is created after its parent and an instance after its base, so a walk along them comes to no
scope twice: it ends within as many steps as there are scopes, and one more.
-/

namespace IslandScript

/-- What a name is bound to. -/
structure Reference where
  kind : BindingKind
  mutable : Bool
  value : Value
  deriving DecidableEq, Repr

/-- A constant reference, as the language itself makes them. -/
def Reference.constant (v : Value) : Reference := ⟨.constant, false, v⟩

/-- What a native class keeps for an instance. -/
inductive NativeState where
  | buffer (b : BufferId)
  | text (s : String)
  deriving DecidableEq, Repr

/-- What an instance stands for besides its members: the primitive it wraps, or the state of a
native class. -/
inductive Payload where
  | primitive (p : Primitive)
  | native (s : NativeState)
  deriving DecidableEq, Repr

/-- What makes a scope an instance. -/
structure Frame where
  cls : ClassId
  base : Option ScopeId
  payload : Option Payload
  deriving DecidableEq, Repr

/-- A scope. No name is bound in it twice. -/
structure Scope where
  bindings : List (Name × Reference)
  parent : Option ScopeId
  frame : Option Frame
  deriving DecidableEq, Repr

namespace Scope

/-- A scope without names inside another. -/
def inside (parent : ScopeId) : Scope := ⟨[], some parent, none⟩

/-- A scope without names that is inside no other. -/
def root : Scope := ⟨[], none, none⟩

instance : Inhabited Scope := ⟨root⟩

/-- What the scope itself binds a name to. -/
def own? (s : Scope) (n : Name) : Option Reference := s.bindings.lookup n

/-- Binds a name in the scope. -/
def bind (s : Scope) (n : Name) (r : Reference) : Scope :=
  { s with bindings := (n, r) :: s.bindings }

/-- Changes the value of a name among bindings. -/
def writeBinding (n : Name) (v : Value) : List (Name × Reference) → List (Name × Reference)
  | [] => []
  | b :: rest =>
    if b.1 == n then (n, { b.2 with value := v }) :: rest else b :: writeBinding n v rest

/-- Changes the value of a name the scope binds. -/
def write (s : Scope) (n : Name) (v : Value) : Scope :=
  { s with bindings := writeBinding n v s.bindings }

/-- Sets the payload of an instance. -/
def withPayload (s : Scope) (p : Payload) : Scope :=
  { s with frame := s.frame.map ({ · with payload := some p }) }

end Scope

/-- The scopes created so far, each at its place. -/
abbrev Scopes := Array Scope

namespace Scopes

/-- The scope at a place; an unused place has no names. -/
def get (g : Scopes) (s : ScopeId) : Scope := (g[s.index]?).getD default

/-- What a scope itself binds a name to. -/
def own? (g : Scopes) (s : ScopeId) (n : Name) : Option Reference := (g.get s).own? n

/-- The base of an instance. -/
def base? (g : Scopes) (s : ScopeId) : Option ScopeId := (g.get s).frame.bind (·.base)

/-- Changes the scope at a place. -/
def update (g : Scopes) (s : ScopeId) (f : Scope → Scope) : Scopes := g.modify s.index f

/-- The first of a scope and its bases that binds a name, within a number of steps. -/
def memberHolderWithin (g : Scopes) (n : Name) : Nat → ScopeId → Option ScopeId
  | 0, _ => none
  | steps + 1, s =>
    if ((g.get s).own? n).isSome then some s
    else
      match g.base? s with
      | none => none
      | some b => memberHolderWithin g n steps b

/-- The first of an instance and its bases that binds a name. -/
def memberHolder? (g : Scopes) (s : ScopeId) (n : Name) : Option ScopeId :=
  memberHolderWithin g n (g.size + 1) s

/-- The scope that binds a name as seen from a scope, within a number of steps. -/
def holderWithin (g : Scopes) (n : Name) : Nat → ScopeId → Option ScopeId
  | 0, _ => none
  | steps + 1, s =>
    match g.memberHolder? s n with
    | some t => some t
    | none =>
      match (g.get s).parent with
      | none => none
      | some p => holderWithin g n steps p

/-- The scope that binds a name as seen from a scope: the first that binds it among the scope,
its bases, and the same of the scopes around it. -/
def holder? (g : Scopes) (s : ScopeId) (n : Name) : Option ScopeId :=
  holderWithin g n (g.size + 1) s

/-- The member of an instance by name. -/
def member? (g : Scopes) (s : ScopeId) (n : Name) : Option Value := do
  let t ← g.memberHolder? s n
  let r ← g.own? t n
  return r.value

/-- The value of a name as seen from a scope. -/
def lookup? (g : Scopes) (s : ScopeId) (n : Name) : Option Value := do
  let t ← g.holder? s n
  let r ← g.own? t n
  return r.value

/-- The first scope at or around a scope that is an instance, within a number of steps. -/
def instanceWithin (g : Scopes) : Nat → ScopeId → Option ScopeId
  | 0, _ => none
  | steps + 1, s =>
    if (g.get s).frame.isSome then some s
    else
      match (g.get s).parent with
      | none => none
      | some p => instanceWithin g steps p

/-- The nearest instance at or around a scope. -/
def nearestInstance? (g : Scopes) (s : ScopeId) : Option ScopeId :=
  instanceWithin g (g.size + 1) s

/-- Why a name cannot be assigned to. -/
inductive AssignError where
  | constant
  | undefined
  deriving DecidableEq, Repr

/-- What an assignment to a name comes to in a scope itself: the scope, if it binds the name to
something that is not constant. -/
def assignOwn (g : Scopes) (s : ScopeId) (n : Name) : Except AssignError ScopeId :=
  match g.own? s n with
  | none => .error .undefined
  | some r => if r.kind = .constant then .error .constant else .ok s

/-- What an assignment comes to, or, if the name is undefined so far, what it comes to in another scope
to go on to. -/
def goOn (here : Except AssignError ScopeId) (next : Option ScopeId)
    (assign : ScopeId → Except AssignError ScopeId) : Except AssignError ScopeId :=
  match here, next with
  | .error .undefined, some s => assign s
  | _, _ => here

/-- What an assignment to a member comes to in an instance or else its bases, within a number of
steps. -/
def assignMemberWithin (g : Scopes) (n : Name) : Nat → ScopeId → Except AssignError ScopeId
  | 0, _ => .error .undefined
  | steps + 1, s => goOn (g.assignOwn s n) (g.base? s) (assignMemberWithin g n steps)

/-- What an assignment to a name comes to in a scope, or else among its bases, or else around it,
within a number of steps outward. -/
def assignWithin (g : Scopes) (n : Name) : Nat → ScopeId → Except AssignError ScopeId
  | 0, _ => .error .undefined
  | steps + 1, s =>
    goOn (goOn (g.assignOwn s n) (g.base? s) (assignMemberWithin g n g.size)) (g.get s).parent
      (assignWithin g n steps)

/-- The scope in which an assignment to a name would write. -/
def assignable (g : Scopes) (s : ScopeId) (n : Name) : Except AssignError ScopeId :=
  assignWithin g n (g.size + 1) s

/-- Writes the value of a name that a scope binds. -/
def write (g : Scopes) (t : ScopeId) (n : Name) (v : Value) : Scopes :=
  g.update t (·.write n v)

/-- Assigns to a name as seen from a scope. -/
def assign (g : Scopes) (s : ScopeId) (n : Name) (v : Value) : Except AssignError Scopes :=
  (g.assignable s n).map fun t => g.write t n v

end Scopes
end IslandScript
