import Mathlib.Data.List.Basic
import IslandScript.Proofs.Syntax.Names

/-!
# What a tree binds

The names that declarations, loops, comprehensions, handlers, parameters and entries of enums bind,
in the order of the source. A name that is only used, a label, the subject of a `when` and the name
of an argument bind nothing.
-/

namespace IslandScript

/-- What binds a name. -/
inductive BinderKind where
  | declaration
  | loop
  | comprehension
  | handler
  | parameter
  | lambdaParameter
  | function
  | cls
  | object
  | enum
  | entry
  deriving DecidableEq, Repr

/-- A name that is bound, and what binds it. -/
structure Binder (ν : Type) where
  kind : BinderKind
  name : ν
  deriving DecidableEq, Repr

variable {ν μ : Type}

/-- What a pattern binds. -/
def Pattern.binders (kind : BinderKind) (p : Pattern ν) : List (Binder ν) :=
  p.names.map (⟨kind, ·⟩)

mutual

/-- What an expression binds. -/
def Expr.binders : Expr ν → List (Binder ν)
  | .value .. | .name .. => []
  | .unary _ _ operand => operand.binders
  | .binary _ _ left right => left.binders ++ right.binders
  | .assign _ _ value => value.binders
  | .member _ target _ => target.binders
  | .index _ target args => target.binders ++ Args.binders args
  | .invoke _ target args => target.binders ++ Args.binders args
  | .list _ elements => Exprs.binders elements
  | .comprehension _ element p iterable condition =>
    element.binders ++ p.binders .comprehension ++ iterable.binders ++ Expr?.binders condition
  | .lambda _ decl => Lambda.binders decl
  | .block _ items => Exprs.binders items
  | .ifElse _ condition body otherwise =>
    condition.binders ++ body.binders ++ Expr?.binders otherwise
  | .whenCase _ _ branches otherwise => Branches.binders branches ++ Expr?.binders otherwise
  | .tryCatch _ body error handler finalizer =>
    body.binders ++ error.toList.map (⟨.handler, ·⟩) ++ Expr?.binders handler ++
      Expr?.binders finalizer
  | .statement _ s => s.binders

/-- What expressions bind. -/
def Exprs.binders : List (Expr ν) → List (Binder ν)
  | [] => []
  | e :: rest => e.binders ++ Exprs.binders rest

/-- What an expression that may be missing binds. -/
def Expr?.binders : Option (Expr ν) → List (Binder ν)
  | none => []
  | some e => e.binders

/-- What arguments bind. -/
def Args.binders : List (Arg ν (Expr ν)) → List (Binder ν)
  | [] => []
  | ⟨_, _, _, e⟩ :: rest => e.binders ++ Args.binders rest

/-- What parameters bind. -/
def Params.binders (kind : BinderKind) : List (Param ν (Expr ν)) → List (Binder ν)
  | [] => []
  | ⟨_, _, _, _, n, default⟩ :: rest =>
    ⟨kind, n⟩ :: Expr?.binders default ++ Params.binders kind rest

/-- What branches bind. -/
def Branches.binders : List (Branch (Expr ν)) → List (Binder ν)
  | [] => []
  | ⟨_, condition, body⟩ :: rest => condition.binders ++ body.binders ++ Branches.binders rest

/-- What a lambda binds. -/
def Lambda.binders : Function ν → List (Binder ν)
  | ⟨_, _, _, _, params, body⟩ => Params.binders .lambdaParameter params ++ Stmt?.binders body

/-- What a declared function binds. -/
def Function.binders : Function ν → List (Binder ν)
  | ⟨_, _, _, n, params, body⟩ =>
    n.toList.map (⟨.function, ·⟩) ++ Params.binders .parameter params ++ Stmt?.binders body

/-- What a class, an object or the class of an enum binds. -/
def Class.binders (kind : BinderKind) : Class ν → List (Binder ν)
  | ⟨_, _, _, n, params, base, init⟩ =>
    ⟨kind, n⟩ :: Params.binders .parameter params ++ Expr?.binders base ++ Stmts.binders init

/-- What the entries of an enum bind. -/
def Entries.binders : List (EnumEntry ν (Expr ν)) → List (Binder ν)
  | [] => []
  | ⟨_, n, args, _⟩ :: rest => ⟨.entry, n⟩ :: Args.binders args ++ Entries.binders rest

/-- What a statement binds. -/
def Stmt.binders : Stmt ν → List (Binder ν)
  | .expr _ e => e.binders
  | .declare _ _ _ p value => p.binders .declaration ++ value.binders
  | .block _ stmts => Stmts.binders stmts
  | .whileLoop _ _ condition body => condition.binders ++ body.binders
  | .doLoop _ _ body condition => body.binders ++ condition.binders
  | .loop _ _ count body => Expr?.binders count ++ body.binders
  | .forLoop _ _ p iterable body => p.binders .loop ++ iterable.binders ++ body.binders
  | .breakLoop .. | .continueLoop .. => []
  | .throwValue _ value => value.binders
  | .returnValue _ value => Expr?.binders value
  | .exitValue _ value => Expr?.binders value
  | .function _ decl => Function.binders decl
  | .cls _ decl => Class.binders .cls decl
  | .object _ decl => Class.binders .object decl
  | .enum _ ⟨_, decl, entries⟩ => Class.binders .enum decl ++ Entries.binders entries

/-- What statements bind. -/
def Stmts.binders : List (Stmt ν) → List (Binder ν)
  | [] => []
  | s :: rest => s.binders ++ Stmts.binders rest

/-- What a statement that may be missing binds. -/
def Stmt?.binders : Option (Stmt ν) → List (Binder ν)
  | none => []
  | some s => s.binders

end

/-! ## Parts one after another -/

theorem exprs_binders (es : List (Expr ν)) : Exprs.binders es = es.flatMap Expr.binders := by
  induction es with
  | nil => rfl
  | cons e es ih => rw [Exprs.binders, ih, List.flatMap_cons]

theorem args_binders (as : List (Arg ν (Expr ν))) :
    Args.binders as = as.flatMap (·.expr.binders) := by
  induction as with
  | nil => rfl
  | cons a as ih => rw [Args.binders, ih, List.flatMap_cons]

theorem params_binders (kind : BinderKind) (ps : List (Param ν (Expr ν))) :
    Params.binders kind ps = ps.flatMap fun p => ⟨kind, p.name⟩ :: Expr?.binders p.default := by
  induction ps with
  | nil => rfl
  | cons p ps ih => rw [Params.binders, ih, List.flatMap_cons]

theorem branches_binders (bs : List (Branch (Expr ν))) :
    Branches.binders bs = bs.flatMap fun b => b.condition.binders ++ b.body.binders := by
  induction bs with
  | nil => rfl
  | cons b bs ih => rw [Branches.binders, ih, List.flatMap_cons]

theorem entries_binders (es : List (EnumEntry ν (Expr ν))) :
    Entries.binders es = es.flatMap fun e => ⟨.entry, e.name⟩ :: Args.binders e.args := by
  induction es with
  | nil => rfl
  | cons e es ih => rw [Entries.binders, ih, List.flatMap_cons]

theorem stmts_binders (ss : List (Stmt ν)) : Stmts.binders ss = ss.flatMap Stmt.binders := by
  induction ss with
  | nil => rfl
  | cons s ss ih => rw [Stmts.binders, ih, List.flatMap_cons]

/-- An expression that is only a name binds nothing. -/
theorem Expr.binders_of_name? {e : Expr ν} {n : ν} (h : e.name? = some n) : e.binders = [] := by
  cases e with
  | name => rw [Expr.binders]
  | _ => cases h

/-! ## Other names -/

section MapNames

variable (f : ν → μ)

/-- A binder with another name. -/
def Binder.mapNames (b : Binder ν) : Binder μ := ⟨b.kind, f b.name⟩

theorem Pattern.binders_mapNames (kind : BinderKind) (p : Pattern ν) :
    (p.mapNames f).binders kind = (p.binders kind).map (·.mapNames f) := by
  cases p with
  | name n => rfl
  | items ns =>
      simp only [Pattern.mapNames, Pattern.binders, Pattern.names, List.map_map]
      rfl

theorem binders_map? (kind : BinderKind) (n? : Option ν) :
    (n?.map f).toList.map (Binder.mk kind) =
      (n?.toList.map (Binder.mk kind)).map (·.mapNames f) := by
  cases n? <;> rfl

mutual

theorem Expr.binders_mapNames : (e : Expr ν) →
    (e.mapNames f).binders = e.binders.map (·.mapNames f)
  | .value .. | .name .. => by simp only [Expr.mapNames, Expr.binders, List.map_nil]
  | .unary _ _ operand => by
    simp only [Expr.mapNames, Expr.binders, Expr.binders_mapNames operand]
  | .binary _ _ left right => by
    simp only [Expr.mapNames, Expr.binders, List.map_append, Expr.binders_mapNames left,
      Expr.binders_mapNames right]
  | .assign _ _ value => by simp only [Expr.mapNames, Expr.binders, Expr.binders_mapNames value]
  | .member _ target _ => by simp only [Expr.mapNames, Expr.binders, Expr.binders_mapNames target]
  | .index _ target args => by
    simp only [Expr.mapNames, Expr.binders, List.map_append, Expr.binders_mapNames target,
      Args.binders_mapNames args]
  | .invoke _ target args => by
    simp only [Expr.mapNames, Expr.binders, List.map_append, Expr.binders_mapNames target,
      Args.binders_mapNames args]
  | .list _ elements => by
    simp only [Expr.mapNames, Expr.binders, Exprs.binders_mapNames elements]
  | .comprehension _ element p iterable condition => by
    simp only [Expr.mapNames, Expr.binders, List.map_append, Expr.binders_mapNames element,
      Pattern.binders_mapNames, Expr.binders_mapNames iterable, Expr?.binders_mapNames condition]
  | .lambda _ decl => by simp only [Expr.mapNames, Expr.binders, Lambda.binders_mapNames decl]
  | .block _ items => by simp only [Expr.mapNames, Expr.binders, Exprs.binders_mapNames items]
  | .ifElse _ condition body otherwise => by
    simp only [Expr.mapNames, Expr.binders, List.map_append, Expr.binders_mapNames condition,
      Expr.binders_mapNames body, Expr?.binders_mapNames otherwise]
  | .whenCase _ _ branches otherwise => by
    simp only [Expr.mapNames, Expr.binders, List.map_append, Branches.binders_mapNames branches,
      Expr?.binders_mapNames otherwise]
  | .tryCatch _ body error handler finalizer => by
    simp only [Expr.mapNames, Expr.binders, List.map_append, Expr.binders_mapNames body,
      binders_map?, Expr?.binders_mapNames handler, Expr?.binders_mapNames finalizer]
  | .statement _ s => by simp only [Expr.mapNames, Expr.binders, Stmt.binders_mapNames s]

theorem Exprs.binders_mapNames : (es : List (Expr ν)) →
    Exprs.binders (Exprs.mapNames f es) = (Exprs.binders es).map (·.mapNames f)
  | [] => rfl
  | e :: rest => by
    simp only [Exprs.mapNames, Exprs.binders, List.map_append, Expr.binders_mapNames e,
      Exprs.binders_mapNames rest]

theorem Expr?.binders_mapNames : (e : Option (Expr ν)) →
    Expr?.binders (Expr?.mapNames f e) = (Expr?.binders e).map (·.mapNames f)
  | none => rfl
  | some e => by simp only [Expr?.mapNames, Expr?.binders, Expr.binders_mapNames e]

theorem Args.binders_mapNames : (as : List (Arg ν (Expr ν))) →
    Args.binders (Args.mapNames f as) = (Args.binders as).map (·.mapNames f)
  | [] => rfl
  | ⟨_, _, _, e⟩ :: rest => by
    simp only [Args.mapNames, Args.binders, List.map_append, Expr.binders_mapNames e,
      Args.binders_mapNames rest]

theorem Params.binders_mapNames (kind : BinderKind) : (ps : List (Param ν (Expr ν))) →
    Params.binders kind (Params.mapNames f ps) = (Params.binders kind ps).map (·.mapNames f)
  | [] => rfl
  | ⟨_, _, _, _, _, default⟩ :: rest => by
    simp only [Params.mapNames, Params.binders, List.map_append, List.map_cons, Binder.mapNames,
      Expr?.binders_mapNames default, Params.binders_mapNames kind rest]

theorem Branches.binders_mapNames : (bs : List (Branch (Expr ν))) →
    Branches.binders (Branches.mapNames f bs) = (Branches.binders bs).map (·.mapNames f)
  | [] => rfl
  | ⟨_, condition, body⟩ :: rest => by
    simp only [Branches.mapNames, Branches.binders, List.map_append,
      Expr.binders_mapNames condition, Expr.binders_mapNames body, Branches.binders_mapNames rest]

theorem Lambda.binders_mapNames : (decl : Function ν) →
    Lambda.binders (Function.mapNames f decl) = (Lambda.binders decl).map (·.mapNames f)
  | ⟨_, _, _, _, params, body⟩ => by
    simp only [Function.mapNames, Lambda.binders, List.map_append, Params.binders_mapNames _ params,
      Stmt?.binders_mapNames body]

theorem Function.binders_mapNames : (decl : Function ν) →
    Function.binders (Function.mapNames f decl) = (Function.binders decl).map (·.mapNames f)
  | ⟨_, _, _, _, params, body⟩ => by
    simp only [Function.mapNames, Function.binders, List.map_append, binders_map?,
      Params.binders_mapNames _ params, Stmt?.binders_mapNames body]

theorem Class.binders_mapNames (kind : BinderKind) : (decl : Class ν) →
    Class.binders kind (Class.mapNames f decl) = (Class.binders kind decl).map (·.mapNames f)
  | ⟨_, _, _, _, params, base, init⟩ => by
    simp only [Class.mapNames, Class.binders, List.map_append, List.map_cons, Binder.mapNames,
      Params.binders_mapNames _ params, Expr?.binders_mapNames base, Stmts.binders_mapNames init]

theorem Entries.binders_mapNames : (es : List (EnumEntry ν (Expr ν))) →
    Entries.binders (Entries.mapNames f es) = (Entries.binders es).map (·.mapNames f)
  | [] => rfl
  | ⟨_, _, args, _⟩ :: rest => by
    simp only [Entries.mapNames, Entries.binders, List.map_append, List.map_cons, Binder.mapNames,
      Args.binders_mapNames args, Entries.binders_mapNames rest]

theorem Stmt.binders_mapNames : (s : Stmt ν) →
    (s.mapNames f).binders = s.binders.map (·.mapNames f)
  | .expr _ e => by simp only [Stmt.mapNames, Stmt.binders, Expr.binders_mapNames e]
  | .declare _ _ _ p value => by
    simp only [Stmt.mapNames, Stmt.binders, List.map_append, Pattern.binders_mapNames,
      Expr.binders_mapNames value]
  | .block _ ss => by simp only [Stmt.mapNames, Stmt.binders, Stmts.binders_mapNames ss]
  | .whileLoop _ _ condition body => by
    simp only [Stmt.mapNames, Stmt.binders, List.map_append, Expr.binders_mapNames condition,
      Stmt.binders_mapNames body]
  | .doLoop _ _ body condition => by
    simp only [Stmt.mapNames, Stmt.binders, List.map_append, Expr.binders_mapNames condition,
      Stmt.binders_mapNames body]
  | .loop _ _ count body => by
    simp only [Stmt.mapNames, Stmt.binders, List.map_append, Expr?.binders_mapNames count,
      Stmt.binders_mapNames body]
  | .forLoop _ _ p iterable body => by
    simp only [Stmt.mapNames, Stmt.binders, List.map_append, Pattern.binders_mapNames,
      Expr.binders_mapNames iterable, Stmt.binders_mapNames body]
  | .breakLoop .. | .continueLoop .. => by
    simp only [Stmt.mapNames, Stmt.binders, List.map_nil]
  | .throwValue _ value => by simp only [Stmt.mapNames, Stmt.binders, Expr.binders_mapNames value]
  | .returnValue _ value => by
    simp only [Stmt.mapNames, Stmt.binders, Expr?.binders_mapNames value]
  | .exitValue _ value => by
    simp only [Stmt.mapNames, Stmt.binders, Expr?.binders_mapNames value]
  | .function _ decl => by simp only [Stmt.mapNames, Stmt.binders, Function.binders_mapNames decl]
  | .cls _ decl => by simp only [Stmt.mapNames, Stmt.binders, Class.binders_mapNames _ decl]
  | .object _ decl => by simp only [Stmt.mapNames, Stmt.binders, Class.binders_mapNames _ decl]
  | .enum _ ⟨_, decl, es⟩ => by
    simp only [Stmt.mapNames, Stmt.binders, List.map_append, Class.binders_mapNames _ decl,
      Entries.binders_mapNames es]

theorem Stmts.binders_mapNames : (ss : List (Stmt ν)) →
    Stmts.binders (Stmts.mapNames f ss) = (Stmts.binders ss).map (·.mapNames f)
  | [] => rfl
  | s :: rest => by
    simp only [Stmts.mapNames, Stmts.binders, List.map_append, Stmt.binders_mapNames s,
      Stmts.binders_mapNames rest]

theorem Stmt?.binders_mapNames : (s : Option (Stmt ν)) →
    Stmt?.binders (Stmt?.mapNames f s) = (Stmt?.binders s).map (·.mapNames f)
  | none => rfl
  | some s => by simp only [Stmt?.mapNames, Stmt?.binders, Stmt.binders_mapNames s]

end

end MapNames

/-! ## Binders of a kind -/

/-- All that is bound is of a kind. -/
def Bears (P : Binder ν → Prop) (bs : List (Binder ν)) : Prop := ∀ b ∈ bs, P b

section Bears

variable {P : Binder ν → Prop}

@[simp] theorem bears_nil : Bears P [] := fun _ h => (List.not_mem_nil h).elim

@[simp] theorem bears_cons {b : Binder ν} {bs : List (Binder ν)} :
    Bears P (b :: bs) ↔ P b ∧ Bears P bs :=
  List.forall_mem_cons

@[simp] theorem bears_append {bs more : List (Binder ν)} :
    Bears P (bs ++ more) ↔ Bears P bs ∧ Bears P more :=
  List.forall_mem_append

theorem Bears.mono {Q : Binder ν → Prop} {bs : List (Binder ν)} (h : Bears P bs)
    (hPQ : ∀ b, P b → Q b) : Bears Q bs :=
  fun b hb => hPQ b (h b hb)

theorem bears_flatMap {α : Type} {f : α → List (Binder ν)} {xs : List α} :
    Bears P (xs.flatMap f) ↔ ∀ x ∈ xs, Bears P (f x) := by
  simp only [Bears, List.mem_flatMap]
  exact ⟨fun h x hx b hb => h b ⟨x, hx, hb⟩, fun h b ⟨x, hx, hb⟩ => h x hx b hb⟩

theorem bears_pattern {kind : BinderKind} {p : Pattern ν} :
    Bears P (p.binders kind) ↔ ∀ n ∈ p.names, P ⟨kind, n⟩ :=
  List.forall_mem_map

theorem bears_expr? {e? : Option (Expr ν)} :
    Bears P (Expr?.binders e?) ↔ ∀ e, e? = some e → Bears P e.binders := by
  cases e? <;> simp [Expr?.binders]

theorem bears_args {as : List (Arg ν (Expr ν))} :
    Bears P (Args.binders as) ↔ ∀ a ∈ as, Bears P a.expr.binders := by
  rw [args_binders, bears_flatMap]

theorem bears_params {kind : BinderKind} {ps : List (Param ν (Expr ν))} :
    Bears P (Params.binders kind ps) ↔
      ∀ p ∈ ps, P ⟨kind, p.name⟩ ∧ Bears P (Expr?.binders p.default) := by
  simp only [params_binders, bears_flatMap, bears_cons]

theorem bears_branches {bs : List (Branch (Expr ν))} :
    Bears P (Branches.binders bs) ↔
      ∀ b ∈ bs, Bears P b.condition.binders ∧ Bears P b.body.binders := by
  simp only [branches_binders, bears_flatMap, bears_append]

theorem bears_entries {es : List (EnumEntry ν (Expr ν))} :
    Bears P (Entries.binders es) ↔ ∀ e ∈ es, P ⟨.entry, e.name⟩ ∧ Bears P (Args.binders e.args) := by
  simp only [entries_binders, bears_flatMap, bears_cons]

end Bears

end IslandScript
