import Mathlib.Data.List.Basic
import IslandScript.Syntax.Tree

/-!
# What a tree declares

The functions, lambdas, classes, objects and enums of a tree at every depth: in bodies, defaults of
parameters, bases, arguments and wherever else an expression or a statement may stand. A function is
told with the class or object whose body it stands in; the parameters and the base of a class stand
outside of its body.
-/

namespace IslandScript

/-- A declaration. A function that has a name is told with the innermost class or object whose body it
stands in, or with the empty name. -/
inductive Declaration where
  | function (enclosing : String) (decl : Function String)
  | lambda (decl : Function String)
  | cls (decl : Class String)
  | enum (decl : Enum String)

mutual

/-- What an expression declares in the body of a class. -/
@[simp] def Expr.declarations (c : String) : Expr String → List Declaration
  | .value .. | .name .. => []
  | .unary _ _ operand => operand.declarations c
  | .binary _ _ left right => left.declarations c ++ right.declarations c
  | .assign _ _ value => value.declarations c
  | .member _ target _ => target.declarations c
  | .index _ target args => target.declarations c ++ Args.declarations c args
  | .invoke _ target args => target.declarations c ++ Args.declarations c args
  | .list _ elements => Exprs.declarations c elements
  | .comprehension _ element _ iterable condition =>
    element.declarations c ++ iterable.declarations c ++ Expr?.declarations c condition
  | .lambda _ decl => .lambda decl :: Function.declarations c decl
  | .block _ items => Exprs.declarations c items
  | .ifElse _ condition body otherwise =>
    condition.declarations c ++ body.declarations c ++ Expr?.declarations c otherwise
  | .whenCase _ _ branches otherwise =>
    Branches.declarations c branches ++ Expr?.declarations c otherwise
  | .tryCatch _ body _ handler finalizer =>
    body.declarations c ++ Expr?.declarations c handler ++ Expr?.declarations c finalizer
  | .statement _ s => s.declarations c

/-- What expressions declare. -/
@[simp] def Exprs.declarations (c : String) : List (Expr String) → List Declaration
  | [] => []
  | e :: rest => e.declarations c ++ Exprs.declarations c rest

/-- What an expression that may be missing declares. -/
@[simp] def Expr?.declarations (c : String) : Option (Expr String) → List Declaration
  | none => []
  | some e => e.declarations c

/-- What arguments declare. -/
@[simp] def Args.declarations (c : String) : List (Arg String (Expr String)) → List Declaration
  | [] => []
  | ⟨_, _, _, e⟩ :: rest => e.declarations c ++ Args.declarations c rest

/-- What the defaults of parameters declare. -/
@[simp] def Params.declarations (c : String) : List (Param String (Expr String)) → List Declaration
  | [] => []
  | ⟨_, _, _, _, _, default⟩ :: rest => Expr?.declarations c default ++ Params.declarations c rest

/-- What branches declare. -/
@[simp] def Branches.declarations (c : String) : List (Branch (Expr String)) → List Declaration
  | [] => []
  | ⟨_, condition, body⟩ :: rest =>
    condition.declarations c ++ body.declarations c ++ Branches.declarations c rest

/-- What the parts of a function declare. -/
@[simp] def Function.declarations (c : String) : Function String → List Declaration
  | ⟨_, _, _, _, params, body⟩ => Params.declarations c params ++ Stmt?.declarations c body

/-- What the parts of a class declare; its name encloses its body alone. -/
@[simp] def Class.declarations (c : String) : Class String → List Declaration
  | ⟨_, _, _, n, params, base, init⟩ =>
    Params.declarations c params ++ Expr?.declarations c base ++ Stmts.declarations n init

/-- What the arguments of an enum's entries declare. -/
@[simp] def Entries.declarations (c : String) : List (EnumEntry String (Expr String)) → List Declaration
  | [] => []
  | ⟨_, _, args, _⟩ :: rest => Args.declarations c args ++ Entries.declarations c rest

/-- What a statement declares. -/
@[simp] def Stmt.declarations (c : String) : Stmt String → List Declaration
  | .expr _ e => e.declarations c
  | .declare _ _ _ _ value => value.declarations c
  | .block _ stmts => Stmts.declarations c stmts
  | .whileLoop _ _ condition body => condition.declarations c ++ body.declarations c
  | .doLoop _ _ body condition => body.declarations c ++ condition.declarations c
  | .loop _ _ count body => Expr?.declarations c count ++ body.declarations c
  | .forLoop _ _ _ iterable body => iterable.declarations c ++ body.declarations c
  | .breakLoop .. | .continueLoop .. => []
  | .throwValue _ value => value.declarations c
  | .returnValue _ value => Expr?.declarations c value
  | .exitValue _ value => Expr?.declarations c value
  | .function _ decl => .function c decl :: Function.declarations c decl
  | .cls _ decl => .cls decl :: Class.declarations c decl
  | .object _ decl => .cls decl :: Class.declarations c decl
  | .enum _ ⟨span, decl, entries⟩ =>
    .enum ⟨span, decl, entries⟩ :: Class.declarations c decl ++ Entries.declarations c entries

/-- What statements declare. -/
@[simp] def Stmts.declarations (c : String) : List (Stmt String) → List Declaration
  | [] => []
  | s :: rest => s.declarations c ++ Stmts.declarations c rest

/-- What a statement that may be missing declares. -/
@[simp] def Stmt?.declarations (c : String) : Option (Stmt String) → List Declaration
  | none => []
  | some s => s.declarations c

end

/-! ## Well-formed declarations -/

/-- Of the parameters, the last alone may be variadic, and is not mutable then. -/
structure Params.WellFormed (ps : List (Param String (Expr String))) : Prop where
  variadicLast : ∀ p ∈ ps.dropLast, p.variadic = false
  variadicFixed : ∀ p ∈ ps, p.variadic = true → p.mutable = false

/-- No parameter has a marker. -/
def Params.Unmarked (ps : List (Param String (Expr String))) : Prop := ∀ p ∈ ps, p.marker = none

/-- The path of a function is the name it stands in, a dot and its own name, and that of a class its own
name. The entries of an enum are numbered in order. Parameters are well formed, and have no markers
unless a class has them. -/
inductive Declaration.WellFormed : Declaration → Prop
  | function {c n : String} {decl : Function String} (name : decl.name = some n)
      (path : decl.path = c ++ "." ++ n) (params : Params.WellFormed decl.params)
      (unmarked : Params.Unmarked decl.params) : Declaration.WellFormed (.function c decl)
  | lambda {decl : Function String} (params : Params.WellFormed decl.params)
      (unmarked : Params.Unmarked decl.params) : Declaration.WellFormed (.lambda decl)
  | cls {decl : Class String} (path : decl.path = decl.name)
      (params : Params.WellFormed decl.params) : Declaration.WellFormed (.cls decl)
  | enum {decl : Enum String} (path : decl.cls.path = decl.cls.name)
      (params : Params.WellFormed decl.cls.params)
      (ordinals : decl.entries.map (·.ordinal) = List.range decl.entries.length) :
      Declaration.WellFormed (.enum decl)

/-- Declarations that are all well formed. -/
def WellDeclared (ds : List Declaration) : Prop := ∀ d ∈ ds, d.WellFormed

section

variable {c : String} {d : Declaration} {ds ds' : List Declaration}

@[simp] theorem wellDeclared_nil : WellDeclared [] := nofun

@[simp] theorem wellDeclared_append : WellDeclared (ds ++ ds') ↔ WellDeclared ds ∧ WellDeclared ds' :=
  List.forall_mem_append

@[simp] theorem wellDeclared_cons : WellDeclared (d :: ds) ↔ d.WellFormed ∧ WellDeclared ds :=
  List.forall_mem_cons

@[simp] theorem wellDeclared_exprs {es : List (Expr String)} :
    WellDeclared (Exprs.declarations c es) ↔ ∀ e ∈ es, WellDeclared (e.declarations c) := by
  induction es with
  | nil => simp [Exprs.declarations]
  | cons e es ih => simp [Exprs.declarations, ih]

@[simp] theorem wellDeclared_stmts {ss : List (Stmt String)} :
    WellDeclared (Stmts.declarations c ss) ↔ ∀ s ∈ ss, WellDeclared (s.declarations c) := by
  induction ss with
  | nil => simp [Stmts.declarations]
  | cons s ss ih => simp [Stmts.declarations, ih]

@[simp] theorem wellDeclared_args {as : List (Arg String (Expr String))} :
    WellDeclared (Args.declarations c as) ↔ ∀ a ∈ as, WellDeclared (a.expr.declarations c) := by
  induction as with
  | nil => simp [Args.declarations]
  | cons a as ih => simp [Args.declarations, ih]

@[simp] theorem wellDeclared_params {ps : List (Param String (Expr String))} :
    WellDeclared (Params.declarations c ps) ↔
      ∀ p ∈ ps, WellDeclared (Expr?.declarations c p.default) := by
  induction ps with
  | nil => simp [Params.declarations]
  | cons p ps ih => simp [Params.declarations, ih]

@[simp] theorem wellDeclared_branches {bs : List (Branch (Expr String))} :
    WellDeclared (Branches.declarations c bs) ↔
      ∀ b ∈ bs, WellDeclared (b.condition.declarations c) ∧ WellDeclared (b.body.declarations c) := by
  induction bs with
  | nil => simp [Branches.declarations]
  | cons b bs ih => simp [Branches.declarations, ih, and_assoc]

@[simp] theorem wellDeclared_entries {es : List (EnumEntry String (Expr String))} :
    WellDeclared (Entries.declarations c es) ↔ ∀ e ∈ es, WellDeclared (Args.declarations c e.args) := by
  induction es with
  | nil => simp [Entries.declarations]
  | cons e es ih => simp [Entries.declarations, ih]

end

end IslandScript
