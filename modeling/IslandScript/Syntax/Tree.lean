import IslandScript.Syntax.Operator
import IslandScript.Token

/-!
# Syntax trees

Expressions and statements over any type `ν` of names. What is run is a tree over interned names; a
tree over texts is one whose words are names of themselves. The parts that expressions and statements
share (arguments, parameters, declarations) are generic in both, so that what is said about them, such
as the matching of arguments to parameters, needs no tree at all.

A missing part is `none`: a `return` without a value, a function without a body.
-/

namespace IslandScript

/-- Whether a binding can be assigned to. -/
inductive BindingKind where
  | constant
  | variable
  deriving DecidableEq, Repr

/-- What a value is bound to: one name, or several names that take its items. -/
inductive Pattern (ν : Type) where
  | name (n : ν)
  | items (ns : List ν)
  deriving DecidableEq, Repr

/-- The names of a pattern. -/
def Pattern.names {ν : Type} : Pattern ν → List ν
  | name n => [n]
  | items ns => ns

/-- An argument of a call or an index: marked to be spread or not, with a name or without. -/
structure Arg (ν ε : Type) where
  span : Span
  spread : Bool
  name : Option ν
  expr : ε
  deriving DecidableEq, Repr

/-- A parameter. One with a marker becomes a member of the instances of its class; the last may
be variadic and take all arguments that are left. -/
structure Param (ν ε : Type) where
  span : Span
  marker : Option BindingKind
  mutable : Bool
  variadic : Bool
  name : ν
  default : Option ε
  deriving DecidableEq, Repr

/-- A function: declared by a statement, or a lambda, which has no name. A linked function has a
native body, found by its path. -/
structure FunDecl (ν ε σ : Type) where
  span : Span
  path : String
  linked : Bool
  name : Option ν
  params : List (Param ν ε)
  body : Option σ
  deriving DecidableEq, Repr

/-- A class or object: its parameters, the expression of its base instance, and the statements
that initialize an instance. A linked class has a native part, found by its path. -/
structure ClassDecl (ν ε σ : Type) where
  span : Span
  path : String
  linked : Bool
  name : ν
  params : List (Param ν ε)
  base : Option ε
  init : List σ
  deriving DecidableEq, Repr

/-- An entry of an enum: its name, the arguments of its class, and its place in the enum. -/
structure EnumEntry (ν ε : Type) where
  span : Span
  name : ν
  args : List (Arg ν ε)
  ordinal : Nat
  deriving DecidableEq, Repr

/-- An enum: the class of its entries, and the entries. -/
structure EnumDecl (ν ε σ : Type) where
  span : Span
  cls : ClassDecl ν ε σ
  entries : List (EnumEntry ν ε)
  deriving DecidableEq, Repr

/-- A branch of a `when`. -/
structure Branch (ε : Type) where
  span : Span
  condition : ε
  body : ε
  deriving DecidableEq, Repr

mutual

/-- An expression. Its span is that of its operator or first token. -/
inductive Expr (ν : Type) where
  | value (span : Span) (literal : Literal)
  | name (span : Span) (name : ν)
  | unary (span : Span) (op : UnaryOp) (operand : Expr ν)
  | binary (span : Span) (op : BinaryOp) (left right : Expr ν)
  | assign (span : Span) (target : ν) (value : Expr ν)
  | member (span : Span) (target : Expr ν) (member : ν)
  | index (span : Span) (target : Expr ν) (args : List (Arg ν (Expr ν)))
  | invoke (span : Span) (target : Expr ν) (args : List (Arg ν (Expr ν)))
  | list (span : Span) (elements : List (Expr ν))
  | comprehension (span : Span) (element : Expr ν) (pattern : Pattern ν) (iterable : Expr ν)
      (condition : Option (Expr ν))
  | lambda (span : Span) (decl : FunDecl ν (Expr ν) (Stmt ν))
  | block (span : Span) (items : List (Expr ν))
  | ifElse (span : Span) (condition body : Expr ν) (otherwise : Option (Expr ν))
  | whenCase (span : Span) (subject : Option ν) (branches : List (Branch (Expr ν)))
      (otherwise : Option (Expr ν))
  | tryCatch (span : Span) (body : Expr ν) (error : Option ν) (handler : Option (Expr ν))
      (finalizer : Option (Expr ν))
  | statement (span : Span) (stmt : Stmt ν)

/-- A statement. Its span is that of its first token. -/
inductive Stmt (ν : Type) where
  | expr (span : Span) (expr : Expr ν)
  | declare (span : Span) (kind : BindingKind) (mutable : Bool) (pattern : Pattern ν)
      (value : Expr ν)
  | block (span : Span) (stmts : List (Stmt ν))
  | whileLoop (span : Span) (label : Option ν) (condition : Expr ν) (body : Stmt ν)
  | doLoop (span : Span) (label : Option ν) (body : Stmt ν) (condition : Expr ν)
  | loop (span : Span) (label : Option ν) (count : Option (Expr ν)) (body : Stmt ν)
  | forLoop (span : Span) (label : Option ν) (pattern : Pattern ν) (iterable : Expr ν)
      (body : Stmt ν)
  | breakLoop (span : Span) (label : Option ν)
  | continueLoop (span : Span) (label : Option ν)
  | throwValue (span : Span) (value : Expr ν)
  | returnValue (span : Span) (value : Option (Expr ν))
  | exitValue (span : Span) (value : Option (Expr ν))
  | function (span : Span) (decl : FunDecl ν (Expr ν) (Stmt ν))
  | cls (span : Span) (decl : ClassDecl ν (Expr ν) (Stmt ν))
  | object (span : Span) (decl : ClassDecl ν (Expr ν) (Stmt ν))
  | enum (span : Span) (decl : EnumDecl ν (Expr ν) (Stmt ν))

end

/-- A program: its statements in order. -/
abbrev Program (ν : Type) := List (Stmt ν)

/-- A function over trees. -/
abbrev Function (ν : Type) := FunDecl ν (Expr ν) (Stmt ν)

/-- A class over trees. -/
abbrev Class (ν : Type) := ClassDecl ν (Expr ν) (Stmt ν)

/-- An enum over trees. -/
abbrev Enum (ν : Type) := EnumDecl ν (Expr ν) (Stmt ν)

/-- The place of an expression. -/
def Expr.span {ν : Type} : Expr ν → Span
  | value span _ | name span _ | unary span _ _ | binary span _ _ _ | assign span _ _
  | member span _ _ | index span _ _ | invoke span _ _ | list span _
  | comprehension span _ _ _ _ | lambda span _ | block span _ | ifElse span _ _ _
  | whenCase span _ _ _ | tryCatch span _ _ _ _ | statement span _ => span

/-- The name an expression is, if it is nothing else. -/
def Expr.name? {ν : Type} : Expr ν → Option ν
  | name _ n => some n
  | _ => none

/-- The place of a statement. -/
def Stmt.span {ν : Type} : Stmt ν → Span
  | expr span _ | declare span _ _ _ _ | block span _ | whileLoop span _ _ _
  | doLoop span _ _ _ | loop span _ _ _ | forLoop span _ _ _ _ | breakLoop span _
  | continueLoop span _ | throwValue span _ | returnValue span _ | exitValue span _
  | function span _ | cls span _ | object span _ | enum span _ => span

end IslandScript
