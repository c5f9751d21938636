import Mathlib.Data.List.Basic
import IslandScript.Proofs.Syntax.Names

/-!
# The places of a tree

The spans at which what is evaluated can fail: `spans` lists all spans of a tree but those of
parameters, which cover several tokens and are read by the parser alone. A tree keeps its places
when its names are replaced.
-/

namespace IslandScript

variable {ν : Type}

mutual

/-- The places of an expression. -/
def Expr.spans : Expr ν → List Span
  | .value span _ | .name span _ => [span]
  | .unary span _ operand => span :: operand.spans
  | .binary span _ left right => span :: left.spans ++ right.spans
  | .assign span _ value => span :: value.spans
  | .member span target _ => span :: target.spans
  | .index span target args => span :: target.spans ++ Args.spans args
  | .invoke span target args => span :: target.spans ++ Args.spans args
  | .list span elements => span :: Exprs.spans elements
  | .comprehension span element _ iterable condition =>
    span :: element.spans ++ iterable.spans ++ Expr?.spans condition
  | .lambda span decl => span :: Function.spans decl
  | .block span items => span :: Exprs.spans items
  | .ifElse span condition body otherwise =>
    span :: condition.spans ++ body.spans ++ Expr?.spans otherwise
  | .whenCase span _ branches otherwise =>
    span :: Branches.spans branches ++ Expr?.spans otherwise
  | .tryCatch span body _ handler finalizer =>
    span :: body.spans ++ Expr?.spans handler ++ Expr?.spans finalizer
  | .statement span s => span :: s.spans

/-- The places of expressions. -/
def Exprs.spans : List (Expr ν) → List Span
  | [] => []
  | e :: rest => e.spans ++ Exprs.spans rest

/-- The places of an expression that may be missing. -/
def Expr?.spans : Option (Expr ν) → List Span
  | none => []
  | some e => e.spans

/-- The places of arguments. -/
def Args.spans : List (Arg ν (Expr ν)) → List Span
  | [] => []
  | ⟨span, _, _, e⟩ :: rest => span :: e.spans ++ Args.spans rest

/-- The places of the defaults of parameters. -/
def Params.spans : List (Param ν (Expr ν)) → List Span
  | [] => []
  | ⟨_, _, _, _, _, default⟩ :: rest => Expr?.spans default ++ Params.spans rest

/-- The places of branches. -/
def Branches.spans : List (Branch (Expr ν)) → List Span
  | [] => []
  | ⟨span, condition, body⟩ :: rest =>
    span :: condition.spans ++ body.spans ++ Branches.spans rest

/-- The places of a function. -/
def Function.spans : Function ν → List Span
  | ⟨span, _, _, _, params, body⟩ => span :: Params.spans params ++ Stmt?.spans body

/-- The places of a class. -/
def Class.spans : Class ν → List Span
  | ⟨span, _, _, _, params, base, init⟩ =>
    span :: Params.spans params ++ Expr?.spans base ++ Stmts.spans init

/-- The places of the entries of an enum. -/
def Entries.spans : List (EnumEntry ν (Expr ν)) → List Span
  | [] => []
  | ⟨span, _, args, _⟩ :: rest => span :: Args.spans args ++ Entries.spans rest

/-- The places of a statement. -/
def Stmt.spans : Stmt ν → List Span
  | .expr span e => span :: e.spans
  | .declare span _ _ _ value => span :: value.spans
  | .block span stmts => span :: Stmts.spans stmts
  | .whileLoop span _ condition body => span :: condition.spans ++ body.spans
  | .doLoop span _ body condition => span :: body.spans ++ condition.spans
  | .loop span _ count body => span :: Expr?.spans count ++ body.spans
  | .forLoop span _ _ iterable body => span :: iterable.spans ++ body.spans
  | .breakLoop span _ | .continueLoop span _ => [span]
  | .throwValue span value => span :: value.spans
  | .returnValue span value => span :: Expr?.spans value
  | .exitValue span value => span :: Expr?.spans value
  | .function span decl => span :: Function.spans decl
  | .cls span decl => span :: Class.spans decl
  | .object span decl => span :: Class.spans decl
  | .enum span ⟨declSpan, decl, entries⟩ =>
    span :: declSpan :: Class.spans decl ++ Entries.spans entries

/-- The places of statements. -/
def Stmts.spans : List (Stmt ν) → List Span
  | [] => []
  | s :: rest => s.spans ++ Stmts.spans rest

/-- The places of a statement that may be missing. -/
def Stmt?.spans : Option (Stmt ν) → List Span
  | none => []
  | some s => s.spans

end

/-! ## Places of a kind -/

/-- All spans of a list are among the given. -/
def Covers (S : Span → Prop) (spans : List Span) : Prop := ∀ s ∈ spans, S s

section Covers

variable {S T : Span → Prop}

theorem Covers.mono {spans : List Span} (h : Covers S spans) (hST : ∀ s, S s → T s) :
    Covers T spans :=
  fun s hs => hST s (h s hs)

@[simp] theorem covers_nil : Covers S [] := fun _ h => nomatch h

@[simp] theorem covers_cons {span : Span} {spans : List Span} :
    Covers S (span :: spans) ↔ S span ∧ Covers S spans :=
  List.forall_mem_cons

@[simp] theorem covers_append {spans more : List Span} :
    Covers S (spans ++ more) ↔ Covers S spans ∧ Covers S more :=
  List.forall_mem_append

theorem Expr.span_of_covers {e : Expr ν} (h : Covers S e.spans) : S e.span := by
  cases e <;> exact h _ (by simp [Expr.spans, Expr.span])

theorem Stmt.span_of_covers {s : Stmt ν} (h : Covers S s.spans) : S s.span := by
  cases s <;> exact h _ (by simp [Stmt.spans, Stmt.span])

theorem covers_exprs {es : List (Expr ν)} :
    Covers S (Exprs.spans es) ↔ ∀ e ∈ es, Covers S e.spans := by
  induction es with
  | nil => simp [Exprs.spans]
  | cons e es ih => simp [Exprs.spans, ih]

theorem covers_expr? {e? : Option (Expr ν)} :
    Covers S (Expr?.spans e?) ↔ ∀ e, e? = some e → Covers S e.spans := by
  cases e? <;> simp [Expr?.spans]

theorem covers_stmts {ss : List (Stmt ν)} :
    Covers S (Stmts.spans ss) ↔ ∀ s ∈ ss, Covers S s.spans := by
  induction ss with
  | nil => simp [Stmts.spans]
  | cons s ss ih => simp [Stmts.spans, ih]

theorem covers_args {as : List (Arg ν (Expr ν))} :
    Covers S (Args.spans as) ↔ ∀ a ∈ as, S a.span ∧ Covers S a.expr.spans := by
  induction as with
  | nil => simp [Args.spans]
  | cons a as ih => simp [Args.spans, ih, and_assoc]

theorem covers_params {ps : List (Param ν (Expr ν))} :
    Covers S (Params.spans ps) ↔ ∀ p ∈ ps, Covers S (Expr?.spans p.default) := by
  induction ps with
  | nil => simp [Params.spans]
  | cons p ps ih => simp [Params.spans, ih]

theorem covers_branches {bs : List (Branch (Expr ν))} :
    Covers S (Branches.spans bs) ↔
      ∀ b ∈ bs, S b.span ∧ Covers S b.condition.spans ∧ Covers S b.body.spans := by
  induction bs with
  | nil => simp [Branches.spans]
  | cons b bs ih => simp [Branches.spans, ih, and_assoc]

theorem covers_entries {es : List (EnumEntry ν (Expr ν))} :
    Covers S (Entries.spans es) ↔ ∀ e ∈ es, S e.span ∧ Covers S (Args.spans e.args) := by
  induction es with
  | nil => simp [Entries.spans]
  | cons e es ih => simp [Entries.spans, ih, and_assoc]

theorem covers_function {decl : Function ν} :
    Covers S (Function.spans decl) ↔
      S decl.span ∧ Covers S (Params.spans decl.params) ∧ Covers S (Stmt?.spans decl.body) := by
  cases decl
  simp [Function.spans]

theorem covers_class {decl : Class ν} :
    Covers S (Class.spans decl) ↔
      S decl.span ∧ Covers S (Params.spans decl.params) ∧ Covers S (Expr?.spans decl.base) ∧
        Covers S (Stmts.spans decl.init) := by
  cases decl
  simp [Class.spans]

end Covers

/-! ## Other names keep places -/

section Names

variable {μ : Type} (f : ν → μ)

mutual

theorem Expr.spans_mapNames : (e : Expr ν) → (e.mapNames f).spans = e.spans
  | .value .. | .name .. => by simp only [Expr.mapNames, Expr.spans]
  | .unary _ _ operand => by simp only [Expr.mapNames, Expr.spans, operand.spans_mapNames]
  | .binary _ _ left right => by
    simp only [Expr.mapNames, Expr.spans, left.spans_mapNames, right.spans_mapNames]
  | .assign _ _ value => by simp only [Expr.mapNames, Expr.spans, value.spans_mapNames]
  | .member _ target _ => by simp only [Expr.mapNames, Expr.spans, target.spans_mapNames]
  | .index _ target as => by
    simp only [Expr.mapNames, Expr.spans, target.spans_mapNames, Args.spans_mapNames as]
  | .invoke _ target as => by
    simp only [Expr.mapNames, Expr.spans, target.spans_mapNames, Args.spans_mapNames as]
  | .list _ elements => by simp only [Expr.mapNames, Expr.spans, Exprs.spans_mapNames elements]
  | .comprehension _ element _ iterable condition => by
    simp only [Expr.mapNames, Expr.spans, element.spans_mapNames, iterable.spans_mapNames,
      Expr?.spans_mapNames condition]
  | .lambda _ decl => by simp only [Expr.mapNames, Expr.spans, Function.spans_mapNames decl]
  | .block _ items => by simp only [Expr.mapNames, Expr.spans, Exprs.spans_mapNames items]
  | .ifElse _ condition body otherwise => by
    simp only [Expr.mapNames, Expr.spans, condition.spans_mapNames, body.spans_mapNames,
      Expr?.spans_mapNames otherwise]
  | .whenCase _ _ bs otherwise => by
    simp only [Expr.mapNames, Expr.spans, Branches.spans_mapNames bs, Expr?.spans_mapNames otherwise]
  | .tryCatch _ body _ handler finalizer => by
    simp only [Expr.mapNames, Expr.spans, body.spans_mapNames, Expr?.spans_mapNames handler,
      Expr?.spans_mapNames finalizer]
  | .statement _ s => by simp only [Expr.mapNames, Expr.spans, s.spans_mapNames]

theorem Exprs.spans_mapNames : (es : List (Expr ν)) → Exprs.spans (Exprs.mapNames f es) = Exprs.spans es
  | [] => by simp only [Exprs.mapNames, Exprs.spans]
  | e :: rest => by simp only [Exprs.mapNames, Exprs.spans, e.spans_mapNames, Exprs.spans_mapNames rest]

theorem Expr?.spans_mapNames : (e : Option (Expr ν)) → Expr?.spans (Expr?.mapNames f e) = Expr?.spans e
  | none => by simp only [Expr?.mapNames, Expr?.spans]
  | some e => by simp only [Expr?.mapNames, Expr?.spans, e.spans_mapNames]

theorem Args.spans_mapNames : (as : List (Arg ν (Expr ν))) →
    Args.spans (Args.mapNames f as) = Args.spans as
  | [] => by simp only [Args.mapNames, Args.spans]
  | ⟨_, _, _, e⟩ :: rest => by
    simp only [Args.mapNames, Args.spans, e.spans_mapNames, Args.spans_mapNames rest]

theorem Params.spans_mapNames : (ps : List (Param ν (Expr ν))) →
    Params.spans (Params.mapNames f ps) = Params.spans ps
  | [] => by simp only [Params.mapNames, Params.spans]
  | ⟨_, _, _, _, _, default⟩ :: rest => by
    simp only [Params.mapNames, Params.spans, Expr?.spans_mapNames default,
      Params.spans_mapNames rest]

theorem Branches.spans_mapNames : (bs : List (Branch (Expr ν))) →
    Branches.spans (Branches.mapNames f bs) = Branches.spans bs
  | [] => by simp only [Branches.mapNames, Branches.spans]
  | ⟨_, condition, body⟩ :: rest => by
    simp only [Branches.mapNames, Branches.spans, condition.spans_mapNames, body.spans_mapNames,
      Branches.spans_mapNames rest]

theorem Function.spans_mapNames : (decl : Function ν) →
    Function.spans (Function.mapNames f decl) = Function.spans decl
  | ⟨_, _, _, _, ps, body⟩ => by
    simp only [Function.mapNames, Function.spans, Params.spans_mapNames ps,
      Stmt?.spans_mapNames body]

theorem Class.spans_mapNames : (decl : Class ν) →
    Class.spans (Class.mapNames f decl) = Class.spans decl
  | ⟨_, _, _, _, ps, base, init⟩ => by
    simp only [Class.mapNames, Class.spans, Params.spans_mapNames ps, Expr?.spans_mapNames base,
      Stmts.spans_mapNames init]

theorem Entries.spans_mapNames : (es : List (EnumEntry ν (Expr ν))) →
    Entries.spans (Entries.mapNames f es) = Entries.spans es
  | [] => by simp only [Entries.mapNames, Entries.spans]
  | ⟨_, _, as, _⟩ :: rest => by
    simp only [Entries.mapNames, Entries.spans, Args.spans_mapNames as, Entries.spans_mapNames rest]

theorem Stmt.spans_mapNames : (s : Stmt ν) → (s.mapNames f).spans = s.spans
  | .expr _ e => by simp only [Stmt.mapNames, Stmt.spans, e.spans_mapNames]
  | .declare _ _ _ _ value => by simp only [Stmt.mapNames, Stmt.spans, value.spans_mapNames]
  | .block _ ss => by simp only [Stmt.mapNames, Stmt.spans, Stmts.spans_mapNames ss]
  | .whileLoop _ _ condition body => by
    simp only [Stmt.mapNames, Stmt.spans, condition.spans_mapNames, body.spans_mapNames]
  | .doLoop _ _ body condition => by
    simp only [Stmt.mapNames, Stmt.spans, condition.spans_mapNames, body.spans_mapNames]
  | .loop _ _ count body => by
    simp only [Stmt.mapNames, Stmt.spans, Expr?.spans_mapNames count, body.spans_mapNames]
  | .forLoop _ _ _ iterable body => by
    simp only [Stmt.mapNames, Stmt.spans, iterable.spans_mapNames, body.spans_mapNames]
  | .breakLoop .. | .continueLoop .. => by simp only [Stmt.mapNames, Stmt.spans]
  | .throwValue _ value => by simp only [Stmt.mapNames, Stmt.spans, value.spans_mapNames]
  | .returnValue _ value | .exitValue _ value => by
    simp only [Stmt.mapNames, Stmt.spans, Expr?.spans_mapNames value]
  | .function _ decl => by simp only [Stmt.mapNames, Stmt.spans, Function.spans_mapNames decl]
  | .cls _ decl | .object _ decl => by
    simp only [Stmt.mapNames, Stmt.spans, Class.spans_mapNames decl]
  | .enum _ ⟨_, decl, es⟩ => by
    simp only [Stmt.mapNames, Stmt.spans, Class.spans_mapNames decl, Entries.spans_mapNames es]

/-- A program over other names has the same places. -/
theorem Stmts.spans_mapNames : (ss : List (Stmt ν)) →
    Stmts.spans (Stmts.mapNames f ss) = Stmts.spans ss
  | [] => by simp only [Stmts.mapNames, Stmts.spans]
  | s :: rest => by simp only [Stmts.mapNames, Stmts.spans, s.spans_mapNames, Stmts.spans_mapNames rest]

theorem Stmt?.spans_mapNames : (s : Option (Stmt ν)) → Stmt?.spans (Stmt?.mapNames f s) = Stmt?.spans s
  | none => by simp only [Stmt?.mapNames, Stmt?.spans]
  | some s => by simp only [Stmt?.mapNames, Stmt?.spans, s.spans_mapNames]

end

end Names

end IslandScript
