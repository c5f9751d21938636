import IslandScript.Name
import IslandScript.Syntax.Tree

/-!
# Names and the texts they stand for

`mapNames` replaces the names in tokens and trees, by what they stand for or by others. An interner
that grows keeps the texts of the names it has given.
-/

namespace IslandScript

/-! ## Trees with other names -/

variable {ν μ : Type} (f : ν → μ)

/-- A pattern with other names. -/
def Pattern.mapNames : Pattern ν → Pattern μ
  | .name n => .name (f n)
  | .items ns => .items (ns.map f)

mutual

/-- An expression with other names. -/
def Expr.mapNames : Expr ν → Expr μ
  | .value span literal => .value span literal
  | .name span n => .name span (f n)
  | .unary span op operand => .unary span op operand.mapNames
  | .binary span op left right => .binary span op left.mapNames right.mapNames
  | .assign span target value => .assign span (f target) value.mapNames
  | .member span target n => .member span target.mapNames (f n)
  | .index span target args => .index span target.mapNames (Args.mapNames args)
  | .invoke span target args => .invoke span target.mapNames (Args.mapNames args)
  | .list span elements => .list span (Exprs.mapNames elements)
  | .comprehension span element p iterable condition =>
    .comprehension span element.mapNames (p.mapNames f) iterable.mapNames (Expr?.mapNames condition)
  | .lambda span decl => .lambda span (Function.mapNames decl)
  | .block span items => .block span (Exprs.mapNames items)
  | .ifElse span condition body otherwise =>
    .ifElse span condition.mapNames body.mapNames (Expr?.mapNames otherwise)
  | .whenCase span subject branches otherwise =>
    .whenCase span (subject.map f) (Branches.mapNames branches) (Expr?.mapNames otherwise)
  | .tryCatch span body error handler finalizer =>
    .tryCatch span body.mapNames (error.map f) (Expr?.mapNames handler) (Expr?.mapNames finalizer)
  | .statement span s => .statement span s.mapNames

/-- Expressions with other names. -/
def Exprs.mapNames : List (Expr ν) → List (Expr μ)
  | [] => []
  | e :: rest => e.mapNames :: Exprs.mapNames rest

/-- An expression with other names, if there is one. -/
def Expr?.mapNames : Option (Expr ν) → Option (Expr μ)
  | none => none
  | some e => some e.mapNames

/-- Arguments with other names. -/
def Args.mapNames : List (Arg ν (Expr ν)) → List (Arg μ (Expr μ))
  | [] => []
  | ⟨span, spread, n, e⟩ :: rest => ⟨span, spread, n.map f, e.mapNames⟩ :: Args.mapNames rest

/-- Parameters with other names. -/
def Params.mapNames : List (Param ν (Expr ν)) → List (Param μ (Expr μ))
  | [] => []
  | ⟨span, marker, mutable, variadic, n, default⟩ :: rest =>
    ⟨span, marker, mutable, variadic, f n, Expr?.mapNames default⟩ :: Params.mapNames rest

/-- Branches with other names. -/
def Branches.mapNames : List (Branch (Expr ν)) → List (Branch (Expr μ))
  | [] => []
  | ⟨span, condition, body⟩ :: rest =>
    ⟨span, condition.mapNames, body.mapNames⟩ :: Branches.mapNames rest

/-- A function with other names. Its path is a text and stays. -/
def Function.mapNames : Function ν → Function μ
  | ⟨span, path, linked, n, params, body⟩ =>
    ⟨span, path, linked, n.map f, Params.mapNames params, Stmt?.mapNames body⟩

/-- A class with other names. Its path is a text and stays. -/
def Class.mapNames : Class ν → Class μ
  | ⟨span, path, linked, n, params, base, init⟩ =>
    ⟨span, path, linked, f n, Params.mapNames params, Expr?.mapNames base, Stmts.mapNames init⟩

/-- Enum entries with other names. -/
def Entries.mapNames : List (EnumEntry ν (Expr ν)) → List (EnumEntry μ (Expr μ))
  | [] => []
  | ⟨span, n, args, ordinal⟩ :: rest =>
    ⟨span, f n, Args.mapNames args, ordinal⟩ :: Entries.mapNames rest

/-- A statement with other names. -/
def Stmt.mapNames : Stmt ν → Stmt μ
  | .expr span e => .expr span e.mapNames
  | .declare span kind mutable p value => .declare span kind mutable (p.mapNames f) value.mapNames
  | .block span stmts => .block span (Stmts.mapNames stmts)
  | .whileLoop span label condition body =>
    .whileLoop span (label.map f) condition.mapNames body.mapNames
  | .doLoop span label body condition => .doLoop span (label.map f) body.mapNames condition.mapNames
  | .loop span label count body => .loop span (label.map f) (Expr?.mapNames count) body.mapNames
  | .forLoop span label p iterable body =>
    .forLoop span (label.map f) (p.mapNames f) iterable.mapNames body.mapNames
  | .breakLoop span label => .breakLoop span (label.map f)
  | .continueLoop span label => .continueLoop span (label.map f)
  | .throwValue span value => .throwValue span value.mapNames
  | .returnValue span value => .returnValue span (Expr?.mapNames value)
  | .exitValue span value => .exitValue span (Expr?.mapNames value)
  | .function span decl => .function span (Function.mapNames decl)
  | .cls span decl => .cls span (Class.mapNames decl)
  | .object span decl => .object span (Class.mapNames decl)
  | .enum span ⟨declSpan, decl, entries⟩ =>
    .enum span ⟨declSpan, Class.mapNames decl, Entries.mapNames entries⟩

/-- Statements with other names. -/
def Stmts.mapNames : List (Stmt ν) → List (Stmt μ)
  | [] => []
  | s :: rest => s.mapNames :: Stmts.mapNames rest

/-- A statement with other names, if there is one. -/
def Stmt?.mapNames : Option (Stmt ν) → Option (Stmt μ)
  | none => none
  | some s => some s.mapNames

end

/-- An argument with other names. -/
def Arg.mapNames (arg : Arg ν (Expr ν)) : Arg μ (Expr μ) :=
  ⟨arg.span, arg.spread, arg.name.map f, arg.expr.mapNames f⟩

/-- A parameter with another name. -/
def Param.mapNames (p : Param ν (Expr ν)) : Param μ (Expr μ) :=
  ⟨p.span, p.marker, p.mutable, p.variadic, f p.name, p.default.map (Expr.mapNames f)⟩

/-- A branch with other names. -/
def Branch.mapNames (b : Branch (Expr ν)) : Branch (Expr μ) :=
  ⟨b.span, b.condition.mapNames f, b.body.mapNames f⟩

/-- An entry of an enum with other names. -/
def EnumEntry.mapNames (entry : EnumEntry ν (Expr ν)) : EnumEntry μ (Expr μ) :=
  ⟨entry.span, f entry.name, entry.args.map (Arg.mapNames f), entry.ordinal⟩

/-- A token with another name. -/
def Token.mapNames (t : Token ν) : Token μ := ⟨t.span, t.kind.map f⟩

section

variable {f}

/-- Names do not matter to where an expression stands. -/
@[simp] theorem Expr.span_mapNames (e : Expr ν) : (e.mapNames f).span = e.span := by
  cases e <;> rfl

@[simp] theorem Expr.name?_mapNames (e : Expr ν) : (e.mapNames f).name? = e.name?.map f := by
  cases e <;> rfl

theorem Exprs.mapNames_eq_map (es : List (Expr ν)) :
    Exprs.mapNames f es = es.map (Expr.mapNames f) := by
  induction es with
  | nil => rfl
  | cons e es ih => rw [Exprs.mapNames, ih, List.map_cons]

theorem Args.mapNames_eq_map (args : List (Arg ν (Expr ν))) :
    Args.mapNames f args = args.map (Arg.mapNames f) := by
  induction args with
  | nil => rfl
  | cons arg args ih => rw [Args.mapNames, ih, List.map_cons, Arg.mapNames]

theorem Expr?.mapNames_eq_map (e : Option (Expr ν)) :
    Expr?.mapNames f e = e.map (Expr.mapNames f) := by
  cases e <;> rfl

theorem Stmt?.mapNames_eq_map (s : Option (Stmt ν)) :
    Stmt?.mapNames f s = s.map (Stmt.mapNames f) := by
  cases s <;> rfl

theorem Stmts.mapNames_eq_map (stmts : List (Stmt ν)) :
    Stmts.mapNames f stmts = stmts.map (Stmt.mapNames f) := by
  induction stmts with
  | nil => rfl
  | cons s stmts ih => rw [Stmts.mapNames, ih, List.map_cons]

theorem Params.mapNames_eq_map (params : List (Param ν (Expr ν))) :
    Params.mapNames f params = params.map (Param.mapNames f) := by
  induction params with
  | nil => rfl
  | cons p params ih =>
      rw [Params.mapNames, ih, List.map_cons, Param.mapNames, Expr?.mapNames_eq_map]

theorem Branches.mapNames_eq_map (branches : List (Branch (Expr ν))) :
    Branches.mapNames f branches = branches.map (Branch.mapNames f) := by
  induction branches with
  | nil => rfl
  | cons b branches ih => rw [Branches.mapNames, ih, List.map_cons, Branch.mapNames]

theorem Entries.mapNames_eq_map (entries : List (EnumEntry ν (Expr ν))) :
    Entries.mapNames f entries = entries.map (EnumEntry.mapNames f) := by
  induction entries with
  | nil => rfl
  | cons entry entries ih =>
      rw [Entries.mapNames, ih, List.map_cons, EnumEntry.mapNames, Args.mapNames_eq_map]

end

/-! ## Names replaced twice -/

section

variable {κ : Type} (g : μ → κ)

theorem Pattern.mapNames_mapNames (p : Pattern ν) :
    (p.mapNames f).mapNames g = p.mapNames (g ∘ f) := by
  cases p with
  | name n => rfl
  | items ns => exact congrArg Pattern.items List.map_map

mutual

/-- Names that are replaced twice are replaced at once. -/
theorem Expr.mapNames_mapNames : (e : Expr ν) → (e.mapNames f).mapNames g = e.mapNames (g ∘ f)
  | .value .. => rfl
  | .name .. => rfl
  | .unary _ _ operand => by simp only [Expr.mapNames, operand.mapNames_mapNames]
  | .binary _ _ left right => by
    simp only [Expr.mapNames, left.mapNames_mapNames, right.mapNames_mapNames]
  | .assign _ _ value => by simp only [Expr.mapNames, value.mapNames_mapNames, Function.comp]
  | .member _ target _ => by simp only [Expr.mapNames, target.mapNames_mapNames, Function.comp]
  | .index _ target args => by
    simp only [Expr.mapNames, target.mapNames_mapNames, Args.mapNames_mapNames args]
  | .invoke _ target args => by
    simp only [Expr.mapNames, target.mapNames_mapNames, Args.mapNames_mapNames args]
  | .list _ elements => by simp only [Expr.mapNames, Exprs.mapNames_mapNames elements]
  | .comprehension _ element p iterable condition => by
    simp only [Expr.mapNames, element.mapNames_mapNames, Pattern.mapNames_mapNames,
      iterable.mapNames_mapNames, Expr?.mapNames_mapNames condition]
  | .lambda _ decl => by simp only [Expr.mapNames, Function.mapNames_mapNames decl]
  | .block _ items => by simp only [Expr.mapNames, Exprs.mapNames_mapNames items]
  | .ifElse _ condition body otherwise => by
    simp only [Expr.mapNames, condition.mapNames_mapNames, body.mapNames_mapNames,
      Expr?.mapNames_mapNames otherwise]
  | .whenCase _ subject branches otherwise => by
    simp only [Expr.mapNames, Option.map_map, Branches.mapNames_mapNames branches,
      Expr?.mapNames_mapNames otherwise]
  | .tryCatch _ body error handler finalizer => by
    simp only [Expr.mapNames, body.mapNames_mapNames, Option.map_map,
      Expr?.mapNames_mapNames handler, Expr?.mapNames_mapNames finalizer]
  | .statement _ s => by simp only [Expr.mapNames, s.mapNames_mapNames]

theorem Exprs.mapNames_mapNames : (es : List (Expr ν)) →
    Exprs.mapNames g (Exprs.mapNames f es) = Exprs.mapNames (g ∘ f) es
  | [] => rfl
  | e :: rest => by
    simp only [Exprs.mapNames, e.mapNames_mapNames, Exprs.mapNames_mapNames rest]

theorem Expr?.mapNames_mapNames : (e : Option (Expr ν)) →
    Expr?.mapNames g (Expr?.mapNames f e) = Expr?.mapNames (g ∘ f) e
  | none => rfl
  | some e => by simp only [Expr?.mapNames, e.mapNames_mapNames]

theorem Args.mapNames_mapNames : (args : List (Arg ν (Expr ν))) →
    Args.mapNames g (Args.mapNames f args) = Args.mapNames (g ∘ f) args
  | [] => rfl
  | ⟨_, _, n, e⟩ :: rest => by
    simp only [Args.mapNames, Option.map_map, e.mapNames_mapNames, Args.mapNames_mapNames rest]

theorem Params.mapNames_mapNames : (params : List (Param ν (Expr ν))) →
    Params.mapNames g (Params.mapNames f params) = Params.mapNames (g ∘ f) params
  | [] => rfl
  | ⟨_, _, _, _, n, default⟩ :: rest => by
    simp only [Params.mapNames, Function.comp, Expr?.mapNames_mapNames default,
      Params.mapNames_mapNames rest]

theorem Branches.mapNames_mapNames : (branches : List (Branch (Expr ν))) →
    Branches.mapNames g (Branches.mapNames f branches) = Branches.mapNames (g ∘ f) branches
  | [] => rfl
  | ⟨_, condition, body⟩ :: rest => by
    simp only [Branches.mapNames, condition.mapNames_mapNames, body.mapNames_mapNames,
      Branches.mapNames_mapNames rest]

theorem Function.mapNames_mapNames : (decl : Function ν) →
    Function.mapNames g (Function.mapNames f decl) = Function.mapNames (g ∘ f) decl
  | ⟨_, _, _, n, params, body⟩ => by
    simp only [Function.mapNames, Option.map_map, Params.mapNames_mapNames params,
      Stmt?.mapNames_mapNames body]

theorem Class.mapNames_mapNames : (decl : Class ν) →
    Class.mapNames g (Class.mapNames f decl) = Class.mapNames (g ∘ f) decl
  | ⟨_, _, _, n, params, base, init⟩ => by
    simp only [Class.mapNames, Function.comp, Params.mapNames_mapNames params,
      Expr?.mapNames_mapNames base, Stmts.mapNames_mapNames init]

theorem Entries.mapNames_mapNames : (entries : List (EnumEntry ν (Expr ν))) →
    Entries.mapNames g (Entries.mapNames f entries) = Entries.mapNames (g ∘ f) entries
  | [] => rfl
  | ⟨_, n, args, _⟩ :: rest => by
    simp only [Entries.mapNames, Function.comp, Args.mapNames_mapNames args,
      Entries.mapNames_mapNames rest]

theorem Stmt.mapNames_mapNames : (s : Stmt ν) → (s.mapNames f).mapNames g = s.mapNames (g ∘ f)
  | .expr _ e => by simp only [Stmt.mapNames, e.mapNames_mapNames]
  | .declare _ _ _ p value => by
    simp only [Stmt.mapNames, Pattern.mapNames_mapNames, value.mapNames_mapNames]
  | .block _ stmts => by simp only [Stmt.mapNames, Stmts.mapNames_mapNames stmts]
  | .whileLoop _ label condition body => by
    simp only [Stmt.mapNames, Option.map_map, condition.mapNames_mapNames, body.mapNames_mapNames]
  | .doLoop _ label body condition => by
    simp only [Stmt.mapNames, Option.map_map, condition.mapNames_mapNames, body.mapNames_mapNames]
  | .loop _ label count body => by
    simp only [Stmt.mapNames, Option.map_map, Expr?.mapNames_mapNames count, body.mapNames_mapNames]
  | .forLoop _ label p iterable body => by
    simp only [Stmt.mapNames, Option.map_map, Pattern.mapNames_mapNames, iterable.mapNames_mapNames,
      body.mapNames_mapNames]
  | .breakLoop _ label => by simp only [Stmt.mapNames, Option.map_map]
  | .continueLoop _ label => by simp only [Stmt.mapNames, Option.map_map]
  | .throwValue _ value => by simp only [Stmt.mapNames, value.mapNames_mapNames]
  | .returnValue _ value => by simp only [Stmt.mapNames, Expr?.mapNames_mapNames value]
  | .exitValue _ value => by simp only [Stmt.mapNames, Expr?.mapNames_mapNames value]
  | .function _ decl => by simp only [Stmt.mapNames, Function.mapNames_mapNames decl]
  | .cls _ decl => by simp only [Stmt.mapNames, Class.mapNames_mapNames decl]
  | .object _ decl => by simp only [Stmt.mapNames, Class.mapNames_mapNames decl]
  | .enum _ ⟨_, decl, entries⟩ => by
    simp only [Stmt.mapNames, Class.mapNames_mapNames decl, Entries.mapNames_mapNames entries]

theorem Stmts.mapNames_mapNames : (stmts : List (Stmt ν)) →
    Stmts.mapNames g (Stmts.mapNames f stmts) = Stmts.mapNames (g ∘ f) stmts
  | [] => rfl
  | s :: rest => by
    simp only [Stmts.mapNames, s.mapNames_mapNames, Stmts.mapNames_mapNames rest]

theorem Stmt?.mapNames_mapNames : (s : Option (Stmt ν)) →
    Stmt?.mapNames g (Stmt?.mapNames f s) = Stmt?.mapNames (g ∘ f) s
  | none => rfl
  | some s => by simp only [Stmt?.mapNames, s.mapNames_mapNames]

end

end

/-! ## Interners that have grown -/

/-- The second interner comes from the first by interning texts. -/
inductive Interner.Grows (i : Interner) : Interner → Prop
  | refl : Interner.Grows i i
  | intern {j : Interner} (text : String) (h : Interner.Grows i j) :
      Interner.Grows i (j.intern text).2

/-- The interners that come from a new one by interning texts. -/
def Interner.Reachable (i : Interner) : Prop := Interner.new.Grows i

namespace Interner

variable {i j k : Interner} {n : Name} {text : String}

theorem Grows.trans (h : i.Grows j) (h' : j.Grows k) : i.Grows k := by
  induction h' with
  | refl => exact h
  | intern text _ ih => exact ih.intern text

theorem getElem?_intern (i : Interner) (text : String) :
    (i.intern text).2.texts[(i.intern text).1.index]? = some text := by
  cases h : i.get? text with
  | some n =>
      rw [intern_of_get? h]
      exact get?_eq_some_iff.mp h
  | none =>
      rw [intern_of_none h]
      exact Array.getElem?_push_size

/-- What stands at a place stays there. -/
theorem Grows.getElem? {l : Nat} (h : i.Grows j) (hl : i.texts[l]? = some text) :
    j.texts[l]? = some text := by
  induction h with
  | refl => exact hl
  | @intern j other _ ih =>
      cases hother : j.get? other with
      | some n =>
          rw [intern_of_get? hother]
          exact ih
      | none =>
          rw [intern_of_none hother]
          exact getElem?_push_of_eq_some other ih

/-- Whatever is interned later, the name of a text stands for it. -/
theorem text_of_grows (h : (i.intern text).2.Grows j) : j.text (i.intern text).1 = text := by
  rw [Interner.text, h.getElem? (getElem?_intern i text)]
  rfl

end Interner

end IslandScript
