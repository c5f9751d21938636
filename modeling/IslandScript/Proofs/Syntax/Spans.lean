import IslandScript.Syntax.Tree

/-!
# Trees up to their spans

Two texts that differ in their layout have trees that differ in their spans. Such trees are compared
after every span is replaced: `mapSpans` replaces each by a function of it, `withoutSpans` all by the
span of what stands nowhere.
-/

namespace IslandScript

variable {ν : Type} (f : Span → Span)

mutual

/-- An expression with other spans. -/
def Expr.mapSpans : Expr ν → Expr ν
  | .value span literal => .value (f span) literal
  | .name span n => .name (f span) n
  | .unary span op operand => .unary (f span) op operand.mapSpans
  | .binary span op left right => .binary (f span) op left.mapSpans right.mapSpans
  | .assign span target value => .assign (f span) target value.mapSpans
  | .member span target n => .member (f span) target.mapSpans n
  | .index span target args => .index (f span) target.mapSpans (Args.mapSpans args)
  | .invoke span target args => .invoke (f span) target.mapSpans (Args.mapSpans args)
  | .list span elements => .list (f span) (Exprs.mapSpans elements)
  | .comprehension span element p iterable condition =>
    .comprehension (f span) element.mapSpans p iterable.mapSpans (Expr?.mapSpans condition)
  | .lambda span decl => .lambda (f span) (Function.mapSpans decl)
  | .block span items => .block (f span) (Exprs.mapSpans items)
  | .ifElse span condition body otherwise =>
    .ifElse (f span) condition.mapSpans body.mapSpans (Expr?.mapSpans otherwise)
  | .whenCase span subject branches otherwise =>
    .whenCase (f span) subject (Branches.mapSpans branches) (Expr?.mapSpans otherwise)
  | .tryCatch span body error handler finalizer =>
    .tryCatch (f span) body.mapSpans error (Expr?.mapSpans handler) (Expr?.mapSpans finalizer)
  | .statement span s => .statement (f span) s.mapSpans

/-- Expressions with other spans. -/
def Exprs.mapSpans : List (Expr ν) → List (Expr ν)
  | [] => []
  | e :: rest => e.mapSpans :: Exprs.mapSpans rest

/-- An expression that may be missing with other spans. -/
def Expr?.mapSpans : Option (Expr ν) → Option (Expr ν)
  | none => none
  | some e => some e.mapSpans

/-- Arguments with other spans. -/
def Args.mapSpans : List (Arg ν (Expr ν)) → List (Arg ν (Expr ν))
  | [] => []
  | ⟨span, spread, n, e⟩ :: rest => ⟨f span, spread, n, e.mapSpans⟩ :: Args.mapSpans rest

/-- Parameters with other spans. -/
def Params.mapSpans : List (Param ν (Expr ν)) → List (Param ν (Expr ν))
  | [] => []
  | ⟨span, marker, mutable, variadic, n, default⟩ :: rest =>
    ⟨f span, marker, mutable, variadic, n, Expr?.mapSpans default⟩ :: Params.mapSpans rest

/-- Branches with other spans. -/
def Branches.mapSpans : List (Branch (Expr ν)) → List (Branch (Expr ν))
  | [] => []
  | ⟨span, condition, body⟩ :: rest =>
    ⟨f span, condition.mapSpans, body.mapSpans⟩ :: Branches.mapSpans rest

/-- A function with other spans. -/
def Function.mapSpans : Function ν → Function ν
  | ⟨span, path, linked, n, params, body⟩ =>
    ⟨f span, path, linked, n, Params.mapSpans params, Stmt?.mapSpans body⟩

/-- A class with other spans. -/
def Class.mapSpans : Class ν → Class ν
  | ⟨span, path, linked, n, params, base, init⟩ =>
    ⟨f span, path, linked, n, Params.mapSpans params, Expr?.mapSpans base, Stmts.mapSpans init⟩

/-- Entries of an enum with other spans. -/
def Entries.mapSpans : List (EnumEntry ν (Expr ν)) → List (EnumEntry ν (Expr ν))
  | [] => []
  | ⟨span, n, args, ordinal⟩ :: rest =>
    ⟨f span, n, Args.mapSpans args, ordinal⟩ :: Entries.mapSpans rest

/-- A statement with other spans. -/
def Stmt.mapSpans : Stmt ν → Stmt ν
  | .expr span e => .expr (f span) e.mapSpans
  | .declare span kind mutable p value => .declare (f span) kind mutable p value.mapSpans
  | .block span stmts => .block (f span) (Stmts.mapSpans stmts)
  | .whileLoop span label condition body =>
    .whileLoop (f span) label condition.mapSpans body.mapSpans
  | .doLoop span label body condition => .doLoop (f span) label body.mapSpans condition.mapSpans
  | .loop span label count body => .loop (f span) label (Expr?.mapSpans count) body.mapSpans
  | .forLoop span label p iterable body =>
    .forLoop (f span) label p iterable.mapSpans body.mapSpans
  | .breakLoop span label => .breakLoop (f span) label
  | .continueLoop span label => .continueLoop (f span) label
  | .throwValue span value => .throwValue (f span) value.mapSpans
  | .returnValue span value => .returnValue (f span) (Expr?.mapSpans value)
  | .exitValue span value => .exitValue (f span) (Expr?.mapSpans value)
  | .function span decl => .function (f span) (Function.mapSpans decl)
  | .cls span decl => .cls (f span) (Class.mapSpans decl)
  | .object span decl => .object (f span) (Class.mapSpans decl)
  | .enum span ⟨declSpan, decl, entries⟩ =>
    .enum (f span) ⟨f declSpan, Class.mapSpans decl, Entries.mapSpans entries⟩

/-- Statements with other spans. -/
def Stmts.mapSpans : List (Stmt ν) → List (Stmt ν)
  | [] => []
  | s :: rest => s.mapSpans :: Stmts.mapSpans rest

/-- A statement that may be missing with other spans. -/
def Stmt?.mapSpans : Option (Stmt ν) → Option (Stmt ν)
  | none => none
  | some s => some s.mapSpans

end

/-- An expression without spans. -/
def Expr.withoutSpans (e : Expr ν) : Expr ν := e.mapSpans fun _ => Span.none

/-- An argument with other spans. -/
def Arg.mapSpans (arg : Arg ν (Expr ν)) : Arg ν (Expr ν) :=
  ⟨f arg.span, arg.spread, arg.name, arg.expr.mapSpans f⟩

/-- A parameter with other spans. -/
def Param.mapSpans (p : Param ν (Expr ν)) : Param ν (Expr ν) :=
  ⟨f p.span, p.marker, p.mutable, p.variadic, p.name, p.default.map (Expr.mapSpans f)⟩

/-- A branch with other spans. -/
def Branch.mapSpans (b : Branch (Expr ν)) : Branch (Expr ν) :=
  ⟨f b.span, b.condition.mapSpans f, b.body.mapSpans f⟩

/-- An entry of an enum with other spans. -/
def EnumEntry.mapSpans (entry : EnumEntry ν (Expr ν)) : EnumEntry ν (Expr ν) :=
  ⟨f entry.span, entry.name, entry.args.map (Arg.mapSpans f), entry.ordinal⟩

variable {f}

/-- Spans do not matter to whether an expression is a name. -/
@[simp] theorem Expr.name?_mapSpans (e : Expr ν) : (e.mapSpans f).name? = e.name? := by
  cases e <;> rfl

theorem Exprs.mapSpans_eq_map (es : List (Expr ν)) :
    Exprs.mapSpans f es = es.map (Expr.mapSpans f) := by
  induction es with
  | nil => rfl
  | cons e es ih => rw [Exprs.mapSpans, ih, List.map_cons]

theorem Args.mapSpans_eq_map (args : List (Arg ν (Expr ν))) :
    Args.mapSpans f args = args.map (Arg.mapSpans f) := by
  induction args with
  | nil => rfl
  | cons arg args ih => rw [Args.mapSpans, ih, List.map_cons, Arg.mapSpans]

theorem Expr?.mapSpans_eq_map (e : Option (Expr ν)) :
    Expr?.mapSpans f e = e.map (Expr.mapSpans f) := by
  cases e <;> rfl

theorem Stmt?.mapSpans_eq_map (s : Option (Stmt ν)) :
    Stmt?.mapSpans f s = s.map (Stmt.mapSpans f) := by
  cases s <;> rfl

theorem Stmts.mapSpans_eq_map (stmts : List (Stmt ν)) :
    Stmts.mapSpans f stmts = stmts.map (Stmt.mapSpans f) := by
  induction stmts with
  | nil => rfl
  | cons s stmts ih => rw [Stmts.mapSpans, ih, List.map_cons]

theorem Params.mapSpans_eq_map (params : List (Param ν (Expr ν))) :
    Params.mapSpans f params = params.map (Param.mapSpans f) := by
  induction params with
  | nil => rfl
  | cons p params ih =>
      rw [Params.mapSpans, ih, List.map_cons, Param.mapSpans, Expr?.mapSpans_eq_map]

theorem Branches.mapSpans_eq_map (branches : List (Branch (Expr ν))) :
    Branches.mapSpans f branches = branches.map (Branch.mapSpans f) := by
  induction branches with
  | nil => rfl
  | cons b branches ih => rw [Branches.mapSpans, ih, List.map_cons, Branch.mapSpans]

theorem Entries.mapSpans_eq_map (entries : List (EnumEntry ν (Expr ν))) :
    Entries.mapSpans f entries = entries.map (EnumEntry.mapSpans f) := by
  induction entries with
  | nil => rfl
  | cons entry entries ih =>
      rw [Entries.mapSpans, ih, List.map_cons, EnumEntry.mapSpans, Args.mapSpans_eq_map]

mutual

/-- A tree whose spans stay is the same tree. -/
theorem Expr.mapSpans_id : (e : Expr ν) → e.mapSpans id = e
  | .value .. | .name .. => rfl
  | .unary _ _ operand => by rw [Expr.mapSpans, operand.mapSpans_id, id]
  | .binary _ _ left right => by rw [Expr.mapSpans, left.mapSpans_id, right.mapSpans_id, id]
  | .assign _ _ value => by rw [Expr.mapSpans, value.mapSpans_id, id]
  | .member _ target _ => by rw [Expr.mapSpans, target.mapSpans_id, id]
  | .index _ target args => by rw [Expr.mapSpans, target.mapSpans_id, Args.mapSpans_id args, id]
  | .invoke _ target args => by rw [Expr.mapSpans, target.mapSpans_id, Args.mapSpans_id args, id]
  | .list _ elements => by rw [Expr.mapSpans, Exprs.mapSpans_id elements, id]
  | .comprehension _ element _ iterable condition => by
    rw [Expr.mapSpans, element.mapSpans_id, iterable.mapSpans_id, Expr?.mapSpans_id condition, id]
  | .lambda _ decl => by rw [Expr.mapSpans, Function.mapSpans_id decl, id]
  | .block _ items => by rw [Expr.mapSpans, Exprs.mapSpans_id items, id]
  | .ifElse _ condition body otherwise => by
    rw [Expr.mapSpans, condition.mapSpans_id, body.mapSpans_id, Expr?.mapSpans_id otherwise, id]
  | .whenCase _ _ branches otherwise => by
    rw [Expr.mapSpans, Branches.mapSpans_id branches, Expr?.mapSpans_id otherwise, id]
  | .tryCatch _ body _ handler finalizer => by
    rw [Expr.mapSpans, body.mapSpans_id, Expr?.mapSpans_id handler, Expr?.mapSpans_id finalizer, id]
  | .statement _ s => by rw [Expr.mapSpans, s.mapSpans_id, id]

theorem Exprs.mapSpans_id : (es : List (Expr ν)) → Exprs.mapSpans id es = es
  | [] => rfl
  | e :: rest => by rw [Exprs.mapSpans, e.mapSpans_id, Exprs.mapSpans_id rest]

theorem Expr?.mapSpans_id : (e : Option (Expr ν)) → Expr?.mapSpans id e = e
  | none => rfl
  | some e => by rw [Expr?.mapSpans, e.mapSpans_id]

theorem Args.mapSpans_id : (args : List (Arg ν (Expr ν))) → Args.mapSpans id args = args
  | [] => rfl
  | ⟨_, _, _, e⟩ :: rest => by rw [Args.mapSpans, e.mapSpans_id, Args.mapSpans_id rest, id]

theorem Params.mapSpans_id : (params : List (Param ν (Expr ν))) → Params.mapSpans id params = params
  | [] => rfl
  | ⟨_, _, _, _, _, default⟩ :: rest => by
    rw [Params.mapSpans, Expr?.mapSpans_id default, Params.mapSpans_id rest, id]

theorem Branches.mapSpans_id :
    (branches : List (Branch (Expr ν))) → Branches.mapSpans id branches = branches
  | [] => rfl
  | ⟨_, condition, body⟩ :: rest => by
    rw [Branches.mapSpans, condition.mapSpans_id, body.mapSpans_id, Branches.mapSpans_id rest, id]

theorem Function.mapSpans_id : (decl : Function ν) → Function.mapSpans id decl = decl
  | ⟨_, _, _, _, params, body⟩ => by
    rw [Function.mapSpans, Params.mapSpans_id params, Stmt?.mapSpans_id body, id]

theorem Class.mapSpans_id : (decl : Class ν) → Class.mapSpans id decl = decl
  | ⟨_, _, _, _, params, base, init⟩ => by
    rw [Class.mapSpans, Params.mapSpans_id params, Expr?.mapSpans_id base, Stmts.mapSpans_id init, id]

theorem Entries.mapSpans_id :
    (entries : List (EnumEntry ν (Expr ν))) → Entries.mapSpans id entries = entries
  | [] => rfl
  | ⟨_, _, args, _⟩ :: rest => by
    rw [Entries.mapSpans, Args.mapSpans_id args, Entries.mapSpans_id rest, id]

theorem Stmt.mapSpans_id : (s : Stmt ν) → s.mapSpans id = s
  | .expr _ e => by rw [Stmt.mapSpans, e.mapSpans_id, id]
  | .declare _ _ _ _ value => by rw [Stmt.mapSpans, value.mapSpans_id, id]
  | .block _ stmts => by rw [Stmt.mapSpans, Stmts.mapSpans_id stmts, id]
  | .whileLoop _ _ condition body => by
    rw [Stmt.mapSpans, condition.mapSpans_id, body.mapSpans_id, id]
  | .doLoop _ _ body condition => by
    rw [Stmt.mapSpans, body.mapSpans_id, condition.mapSpans_id, id]
  | .loop _ _ count body => by rw [Stmt.mapSpans, Expr?.mapSpans_id count, body.mapSpans_id, id]
  | .forLoop _ _ _ iterable body => by
    rw [Stmt.mapSpans, iterable.mapSpans_id, body.mapSpans_id, id]
  | .breakLoop .. | .continueLoop .. => rfl
  | .throwValue _ value => by rw [Stmt.mapSpans, value.mapSpans_id, id]
  | .returnValue _ value => by rw [Stmt.mapSpans, Expr?.mapSpans_id value, id]
  | .exitValue _ value => by rw [Stmt.mapSpans, Expr?.mapSpans_id value, id]
  | .function _ decl => by rw [Stmt.mapSpans, Function.mapSpans_id decl, id]
  | .cls _ decl => by rw [Stmt.mapSpans, Class.mapSpans_id decl, id]
  | .object _ decl => by rw [Stmt.mapSpans, Class.mapSpans_id decl, id]
  | .enum _ ⟨_, decl, entries⟩ => by
    rw [Stmt.mapSpans, Class.mapSpans_id decl, Entries.mapSpans_id entries, id, id]

theorem Stmts.mapSpans_id : (stmts : List (Stmt ν)) → Stmts.mapSpans id stmts = stmts
  | [] => rfl
  | s :: rest => by rw [Stmts.mapSpans, s.mapSpans_id, Stmts.mapSpans_id rest]

theorem Stmt?.mapSpans_id : (s : Option (Stmt ν)) → Stmt?.mapSpans id s = s
  | none => rfl
  | some s => by rw [Stmt?.mapSpans, s.mapSpans_id]

end

@[simp] theorem Expr.span_mapSpans (e : Expr ν) : (e.mapSpans f).span = f e.span := by
  cases e <;> rfl

end IslandScript
