import IslandScript.Syntax.Tree

/-!
# What lands in the scope around

A statement may stand where an expression does: braces around it open a scope of their own, but it
may stand bare. `Expr.lands` and `Stmt.lands` list what a tree may then bind in the scope that it is
evaluated in: the names that it declares there, and the calls that it makes there, whose defaults
are evaluated there. What is declared in a block, in the body of a loop or of a function, in a
handler or in a comprehension lands elsewhere.
-/

namespace IslandScript

/-- What may bind a name in the scope around: a declaration of it, or the defaults of a call. -/
inductive Landing (ν : Type) where
  | declared (n : ν)
  | call
  deriving DecidableEq, Repr

variable {ν : Type}

mutual

/-- What an expression lands in the scope it is evaluated in. -/
def Expr.lands : Expr ν → List (Landing ν)
  | .value .. | .name .. | .lambda .. | .block .. => []
  | .unary _ _ operand => operand.lands
  | .binary _ _ left right => left.lands ++ right.lands
  | .assign _ _ value => value.lands
  | .member _ target _ => target.lands
  | .index _ target args => target.lands ++ Args.lands args
  | .invoke _ target args => .call :: target.lands ++ Args.lands args
  | .list _ elements => Exprs.lands elements
  | .comprehension _ _ _ iterable _ => iterable.lands
  | .ifElse _ condition body otherwise => condition.lands ++ body.lands ++ Expr?.lands otherwise
  | .whenCase _ _ branches otherwise => Branches.lands branches ++ Expr?.lands otherwise
  | .tryCatch _ body _ _ finalizer => body.lands ++ Expr?.lands finalizer
  | .statement _ s => s.lands

/-- What expressions land. -/
def Exprs.lands : List (Expr ν) → List (Landing ν)
  | [] => []
  | e :: rest => e.lands ++ Exprs.lands rest

/-- What an expression that may be missing lands. -/
def Expr?.lands : Option (Expr ν) → List (Landing ν)
  | none => []
  | some e => e.lands

/-- What arguments land. -/
def Args.lands : List (Arg ν (Expr ν)) → List (Landing ν)
  | [] => []
  | ⟨_, _, _, e⟩ :: rest => e.lands ++ Args.lands rest

/-- What branches land. -/
def Branches.lands : List (Branch (Expr ν)) → List (Landing ν)
  | [] => []
  | ⟨_, condition, body⟩ :: rest => condition.lands ++ body.lands ++ Branches.lands rest

/-- What the entries of an enum land. -/
def Entries.lands : List (EnumEntry ν (Expr ν)) → List (Landing ν)
  | [] => []
  | ⟨_, _, args, _⟩ :: rest => Args.lands args ++ Entries.lands rest

/-- What a statement lands in the scope it stands in. -/
def Stmt.lands : Stmt ν → List (Landing ν)
  | .expr _ e => e.lands
  | .declare _ _ _ p value => p.names.map .declared ++ value.lands
  | .block .. | .breakLoop .. | .continueLoop .. => []
  | .whileLoop _ _ condition _ => condition.lands
  | .doLoop _ _ _ condition => condition.lands
  | .loop _ _ count _ => Expr?.lands count
  | .forLoop _ _ _ iterable _ => iterable.lands
  | .throwValue _ value => value.lands
  | .returnValue _ value => Expr?.lands value
  | .exitValue _ value => Expr?.lands value
  | .function _ decl => decl.name.toList.map .declared
  | .cls _ decl => [.declared decl.name]
  | .object _ decl => [.call, .declared decl.name]
  | .enum _ ⟨_, decl, entries⟩ => [.call, .declared decl.name] ++ Entries.lands entries

end

/-- What the defaults of parameters land where they are evaluated. -/
def Params.lands (ps : List (Param ν (Expr ν))) : List (Landing ν) :=
  ps.flatMap fun p => Expr?.lands p.default

/-- What lands in an instance of a class: the parameters with a marker, and what its initializers
declare. -/
def Class.lands (decl : Class ν) : List (Landing ν) :=
  (decl.params.filter (·.marker.isSome)).map (.declared ·.name) ++ decl.init.flatMap Stmt.lands

end IslandScript
