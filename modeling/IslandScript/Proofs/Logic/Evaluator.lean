import IslandScript.Eval.Evaluator
import IslandScript.Interpreter.Run
import IslandScript.Proofs.Logic.Calls

/-!
# The evaluator keeps to every discipline

The second half of the way through the evaluator: expressions, statements, and from them, by
induction on the bound, every evaluator and every program. The main statement is
`Logic.evaluates`: whatever the logic, the evaluator of any bound keeps to its discipline from every
good state. A property of evaluations that can be put as a logic holds of all of them.
-/

namespace IslandScript

open Eval

namespace Logic

variable {L : Logic} {ev : Evaluator} {m : Interpreter} {span : Span}

/-! ## Expressions -/

theorem nameValue {n : Name} (hm : L.Good m) : L.Holds (Eval.nameValue n span) m L.Value := by
  refine L.prim (fun m outer => ?_) ?_
  · unfold Eval.nameValue
    simp only [Interpreter.lookup?_onTopOf]
    split <;> rfl
  · unfold Eval.nameValue
    split
    next v h => exact ⟨hm, L.later_refl m, (L.objects_within hm).lookup h⟩
    · exact ⟨hm, L.later_refl m, trivial⟩

theorem nameValue? (n : Option Name) (hm : L.Good m) :
    L.Holds (Eval.nameValue? span n) m fun _ _ => True := by
  cases n with
  | none => exact pure hm trivial
  | some n => exact L.bind (nameValue hm) fun v m₁ hm₁ _ _ => pure hm₁ trivial

/-- What a prefix operator gives, apart from new lists, refers to no scope. -/
theorem unary_within {op : UnaryOp} {v w : Value} {has : ScopeId → Prop}
    (h : op.apply? m.store.tables v = some (.value w)) : w.Within has := by
  cases op with
  | spread =>
      obtain ⟨items, -, hitems⟩ := Option.map_eq_some_iff.mp h
      cases hitems
  | _ => cases v <;> cases h <;> trivial

theorem unary_elements {op : UnaryOp} {v : Value} {items : List Value} (hm : L.Good m)
    (h : op.apply? m.store.tables v = some (.elements items)) : L.Values items m := by
  cases op with
  | spread =>
      obtain ⟨items', hitems, heq⟩ := Option.map_eq_some_iff.mp h
      cases heq
      exact (L.tables_within hm).spread hitems
  | _ => cases v <;> cases h

theorem unary (hev : L.Evaluates ev) {op : UnaryOp} {operand : Expr Name} (hm : L.Good m) :
    L.Holds (Eval.unary ev span op operand) m L.Value := by
  refine L.bind (hev.expr operand m hm) ?_
  intro v m₁ hm₁ _ _
  refine read_bind (fun _ _ => rfl) hm₁ ?_
  split
  next w h => exact pure hm₁ (unary_within h)
  next items h => exact newList hm₁ (unary_elements hm₁ h)
  · split
    · exact failShowing hm₁
    · exact failShowing hm₁

theorem product_ne_inst {v w : Value} {s : ScopeId} : BinaryOp.product v w ≠ .ok (.inst s) := by
  unfold BinaryOp.product
  split
  · exact nofun
  · split <;> exact nofun
  all_goals exact nofun

/-- What an infix operator gives refers to no scope. -/
theorem binary_within {op : BinaryOp} {ts : Tables} {v w r : Value} {has : ScopeId → Prop}
    (h : op.apply ts v w = .ok r) : r.Within has := by
  cases r with
  | inst s =>
      cases op with
      | equal => cases h
      | notEqual => cases h
      | multiply => exact absurd h product_ne_inst
      | _ =>
          simp only [BinaryOp.apply, BinaryOp.logic, BinaryOp.comparison, BinaryOp.sum,
            BinaryOp.arithmetic] at h
          split at h <;> cases h
  | _ => trivial

theorem binary (hev : L.Evaluates ev) {op : BinaryOp} {left right : Expr Name} (hm : L.Good m) :
    L.Holds (Eval.binary ev op left right) m L.Value := by
  refine L.bind (hev.expr left m hm) ?_
  intro v m₁ hm₁ _ hv
  split
  · exact failShowing hm₁
  · exact pure hm₁ hv
  · refine L.bind (hev.expr right m₁ hm₁) ?_
    intro w m₂ hm₂ _ _
    refine read_bind (fun _ _ => rfl) hm₂ ?_
    split
    next h => exact pure hm₂ (binary_within h)
    · exact failShowing hm₂
    · exact failShowing hm₂

theorem assign (hev : L.Evaluates ev) {target : Name} {value : Expr Name} (hm : L.Good m) :
    L.Holds (Eval.assign ev span target value) m L.Value := by
  refine L.bind (hev.expr value m hm) ?_
  intro v m₁ hm₁ _ hv
  refine L.prim (fun m outer => ?_) ?_
  · simp only [Interpreter.scopes_onTopOf, Interpreter.current_onTopOf]
    split <;> rfl
  · split
    next s h =>
      obtain ⟨hgood, hlater⟩ := L.change_keeps hm₁ (.write h hv)
      exact ⟨hgood, hlater, hv.mono fun _ => L.has_later hlater⟩
    · exact ⟨hm₁, L.later_refl m₁, trivial⟩
    · exact ⟨hm₁, L.later_refl m₁, trivial⟩

theorem indexBy (is : List Value) (v : Value) (m : Interpreter) (hm : L.Good m)
    (hv : L.Value v m) : L.Holds (Eval.indexBy span v is) m L.Value := by
  induction is generalizing v with
  | nil => exact pure hm hv
  | cons i is ih =>
      refine read_bind (fun _ _ => rfl) hm ?_
      split
      next w h => exact ih w ((L.tables_within hm).index h)
      · exact L.prim (fun _ _ => rfl) ⟨hm, L.later_refl m, trivial⟩

theorem callee (hev : L.Evaluates ev) (target : Expr Name) (hm : L.Good m) :
    L.Holds (Eval.callee ev target) m
      fun called m' => L.Value called.1 m' ∧ L.Scope? called.2 m' := by
  unfold Eval.callee
  split
  next span object n =>
    refine L.bind (hev.expr object m hm) ?_
    intro v m₁ hm₁ _ hv
    exact memberOf hev hm₁ hv
  · refine L.bind (hev.expr _ m hm) ?_
    intro v m₁ hm₁ _ hv
    exact pure hm₁ ⟨hv, Discipline.scope?_none⟩

theorem receiverOf {f : FunctionObject} {owner : Option ScopeId} (target : Expr Name)
    (hm : L.Good m) (hf : L.Has f.scope m) (ho : L.Scope? owner m) :
    L.Holds (Eval.receiverOf f owner target) m L.Scope? := by
  unfold Eval.receiverOf
  split
  · exact pure hm ho
  · exact read (fun _ _ => rfl) hm fun t ht => (L.objects_within hm).nearest hf ht

theorem invokeFunction (hev : L.Evaluates ev) {target : Expr Name} {owner : Option ScopeId}
    {id : FunctionId} {args : List (Arg Name (Expr Name))} (hm : L.Good m)
    (ho : L.Scope? owner m) :
    L.Holds (Eval.invokeFunction ev span target owner id args) m L.Value := by
  refine read_bind (fun _ _ => rfl) hm ?_
  split
  · exact unfinished
  next f hf =>
    have hscope : L.Has f.scope m := (L.objects_within hm).function hf
    refine L.bind (receiverOf target hm hscope ho) ?_
    intro receiver m₁ hm₁ hg₁ hr
    refine L.bind (arguments hev hm₁) ?_
    intro values m₂ hm₂ hg₂ hvalues
    exact callFunction hev hm₂ (hg₂ _ (hg₁ _ hscope)) (hr.grow hg₂) hvalues

theorem invoke (hev : L.Evaluates ev) {target : Expr Name} {args : List (Arg Name (Expr Name))}
    (hm : L.Good m) : L.Holds (Eval.invoke ev span target args) m L.Value := by
  refine L.bind (callee hev target hm) fun called m₁ hm₁ _ ⟨_, ho⟩ => ?_
  split
  · exact invokeFunction hev hm₁ ho
  · refine L.bind (invokeClass hev hm₁) ?_
    intro s m₂ hm₂ _ hs
    exact pure hm₂ hs
  · exact failShowing hm₁

theorem condition (hev : L.Evaluates ev) (e : Expr Name) (m : Interpreter) (hm : L.Good m) :
    L.Holds (Eval.condition ev e) m fun _ _ => True := by
  refine L.bind (hev.expr e m hm) ?_
  intro v m₁ hm₁ _ _
  split
  · exact pure hm₁ trivial
  · exact failShowing hm₁

theorem condition? (hev : L.Evaluates ev) (e : Option (Expr Name)) (hm : L.Good m) :
    L.Holds (Eval.condition? ev e) m fun _ _ => True := by
  cases e with
  | none => exact pure hm trivial
  | some e => exact condition hev e m hm

/-- The value, if there is one, refers to scopes of the state. -/
theorem comprehended (hev : L.Evaluates ev) {element iterable : Expr Name} {p : Pattern Name}
    {test : Option (Expr Name)} {item : Value} (hm : L.Good m) (hitem : L.Value item m) :
    L.Holds (Eval.comprehended ev element p iterable test item) m
      fun v m' => L.Values v.toList m' := by
  -- What is said of the value has to hold still when the scope it was made in was left.
  refine L.within (P := fun v m' => L.Values v.toList m') hm .child (fun hm₁ hg₁ => ?_)
    fun _ _ hg hv => hv.grow hg
  refine L.bind (bindPattern hm₁ (hitem.grow hg₁)) ?_
  intro _ m₂ hm₂ _ _
  refine L.bind (condition? hev test hm₂) ?_
  intro wanted m₃ hm₃ _ _
  split
  · refine L.bind (hev.expr element m₃ hm₃) ?_
    intro v m₄ hm₄ _ hv
    exact pure hm₄ (Discipline.values_cons hv Discipline.values_nil)
  · exact pure hm₃ Discipline.values_nil

theorem comprehension (hev : L.Evaluates ev) {element iterable : Expr Name} {p : Pattern Name}
    {test : Option (Expr Name)} (items found : List Value) (m : Interpreter) (hm : L.Good m)
    (hitems : L.Values items m) (hfound : L.Values found m) :
    L.Holds (Eval.comprehension ev element p iterable test found items) m L.Values := by
  induction items generalizing found m with
  | nil => exact pure hm fun v hv => hfound v (List.mem_reverse.mp hv)
  | cons item items ih =>
      obtain ⟨hitem, hitems⟩ := List.forall_mem_cons.mp hitems
      refine L.bind (comprehended hev hm hitem) ?_
      intro v m₁ hm₁ hg hv
      have hfound₁ : L.Values (v.toList ++ found) m₁ :=
        Discipline.values_append hv (Discipline.Values.grow hfound hg)
      exact ih _ m₁ hm₁ (Discipline.Values.grow hitems hg) hfound₁

theorem sequence (hev : L.Evaluates ev) (es : List (Expr Name)) (last : Value) (m : Interpreter)
    (hm : L.Good m) (hlast : L.Value last m) : L.Holds (Eval.sequence ev last es) m L.Value := by
  induction es generalizing last m with
  | nil => exact pure hm hlast
  | cons e es ih => exact L.bind (hev.expr e m hm) fun v m₁ hm₁ _ hv => ih v m₁ hm₁ hv

theorem expr? (hev : L.Evaluates ev) (e : Option (Expr Name)) (hm : L.Good m) :
    L.Holds (Eval.expr? ev e) m L.Value := by
  cases e with
  | none => exact pure hm trivial
  | some e => exact hev.expr e m hm

theorem branchTaken (hev : L.Evaluates ev) (subject : Option Value) {e : Expr Name}
    (hm : L.Good m) : L.Holds (Eval.branchTaken ev subject e) m fun _ _ => True := by
  cases subject with
  | none => exact condition hev e m hm
  | some v =>
      refine L.bind (hev.expr e m hm) ?_
      intro w m₁ hm₁ _ _
      exact read (fun _ _ => rfl) hm₁ trivial

theorem branches (hev : L.Evaluates ev) {subject : Option Value} {otherwise : Option (Expr Name)}
    (bs : List (Branch (Expr Name))) (m : Interpreter) (hm : L.Good m) :
    L.Holds (Eval.branches ev subject otherwise bs) m L.Value := by
  induction bs generalizing m with
  | nil => exact expr? hev otherwise hm
  | cons b bs ih =>
      refine L.bind (branchTaken hev subject hm) ?_
      intro taken m₁ hm₁ _ _
      split
      · exact hev.expr b.body m₁ hm₁
      · exact ih m₁ hm₁

theorem bindThrown {v : Value} (error : Option Name) (hm : L.Good m) (hv : L.Value v m) :
    L.Holds (Eval.bindThrown v span error) m fun _ _ => True := by
  cases error with
  | none => exact pure hm trivial
  | some n => exact bindName hm hv

/-- The outcome of an attempt refers to scopes of the state. -/
theorem handled (hev : L.Evaluates ev) {error : Option Name} {handler : Option (Expr Name)}
    {r : Except Signal Value} (hm : L.Good m) (hv : ∀ v, r = .ok v → L.Value v m)
    (hs : ∀ s, r = .error s → s.Within (L.Has · m)) :
    L.Holds (Eval.handled ev error handler r) m L.Value := by
  unfold Eval.handled
  split
  next v h =>
    refine within_value hm .child ?_
    intro hm₁ hg₁
    have hthrown : L.Value v m := hs (.throwValue v) rfl
    refine L.bind (bindThrown error hm₁ (hthrown.grow hg₁)) ?_
    intro _ m₂ hm₂ _ _
    exact hev.expr h m₂ hm₂
  · exact resume hm hv hs

theorem tryCatch (hev : L.Evaluates ev) {body : Expr Name} {error : Option Name}
    {handler finalizer : Option (Expr Name)} (hm : L.Good m) :
    L.Holds (Eval.tryCatch ev body error handler finalizer) m L.Value := by
  -- What came of the body and its handler is kept while the finalizer runs.
  refine L.bind (attempted (hev.expr body m hm)) ?_
  intro r m₁ hm₁ _ hr
  refine L.bind (attempted (handled hev hm₁ hr.1 hr.2)) ?_
  intro r' m₂ hm₂ _ hr'
  split
  · exact raise hm₂ trivial
  · refine L.bind (expr? hev finalizer hm₂) ?_
    intro _ m₃ hm₃ hg₃ _
    exact resume hm₃ (fun v hv => (hr'.1 v hv).grow hg₃) fun s hs => (hr'.2 s hs).mono hg₃

theorem exprStep (hev : L.Evaluates ev) (e : Expr Name) (hm : L.Good m) :
    L.Holds (Eval.exprStep ev e) m L.Value := by
  cases e with
  | value span literal => exact pure hm (by cases literal <;> trivial)
  | name span n => exact nameValue hm
  | unary span op operand => exact unary hev hm
  | binary span op left right => exact binary hev hm
  | assign span target value => exact assign hev hm
  | member span target n =>
      refine L.bind (hev.expr target m hm) ?_
      intro v m₁ hm₁ _ hv
      refine L.bind (memberOf hev hm₁ hv) ?_
      intro found m₂ hm₂ _ hfound
      exact pure hm₂ hfound.1
  | index span target args =>
      refine L.bind (hev.expr target m hm) ?_
      intro v m₁ hm₁ _ hv
      refine L.bind (spreadArgs hev args m₁ hm₁) ?_
      intro is m₂ hm₂ hg₂ _
      exact indexBy is v m₂ hm₂ (hv.grow hg₂)
  | invoke span target args => exact invoke hev hm
  | list span elements =>
      refine L.bind (exprs hev elements m hm) ?_
      intro values m₁ hm₁ _ hvalues
      exact newList hm₁ hvalues
  | comprehension span element p iterable test =>
      refine L.bind (hev.expr iterable m hm) ?_
      intro v m₁ hm₁ _ _
      refine L.bind (spread hm₁) ?_
      intro items m₂ hm₂ _ hitems
      refine L.bind (comprehension hev items [] m₂ hm₂ hitems Discipline.values_nil)
        fun values m₃ hm₃ _ hvalues => ?_
      exact newList hm₃ hvalues
  | lambda span decl => exact makeFunction hm
  | block span items =>
      exact within_value hm .child fun hm₁ _ => sequence hev items .unit _ hm₁ trivial
  | ifElse span test body otherwise =>
      refine L.bind (condition hev test m hm) ?_
      intro holds m₁ hm₁ _ _
      split
      · exact hev.expr body m₁ hm₁
      · exact expr? hev otherwise hm₁
  | whenCase span subject bs otherwise =>
      refine L.bind (nameValue? subject hm) ?_
      intro v m₁ hm₁ _ _
      exact branches hev bs m₁ hm₁
  | tryCatch span body error handler finalizer => exact tryCatch hev hm
  | statement span s =>
      refine L.bind (hev.stmt s m hm) ?_
      intro _ m₁ hm₁ _ _
      exact pure hm₁ trivial

/-! ## Statements -/

theorem afterPass {own : Option Name} {r : Except Signal Unit} (hm : L.Good m)
    (hs : ∀ s, r = .error s → s.Within (L.Has · m)) :
    L.Holds (Eval.afterPass own r) m fun _ _ => True := by
  unfold Eval.afterPass
  split
  · exact pure hm trivial
  · split
    · exact pure hm trivial
    · exact raise hm trivial
  · split
    · exact pure hm trivial
    · exact raise hm trivial
  next s _ _ => exact raise hm (hs s rfl)

/-- What is run in a scope of its own, for its effects. -/
theorem inChild {x : Eval Unit} (hm : L.Good m)
    (h : L.Good (m.onEnv .pushChild) → L.Grows m (m.onEnv .pushChild) →
      L.Holds x (m.onEnv .pushChild) fun _ _ => True) :
    L.Holds (Eval.inChild x) m fun _ _ => True :=
  L.within (P := fun _ _ => True) hm .child h fun _ _ _ _ => trivial

theorem pass (hev : L.Evaluates ev) {own : Option Name} {body : Stmt Name} (hm : L.Good m) :
    L.Holds (Eval.pass ev own body) m fun _ _ => True := by
  have hbody : L.Holds (Eval.inChild (ev.stmt body)) m fun _ _ => True :=
    inChild hm fun hm₁ _ => hev.stmt body _ hm₁
  refine L.bind (attempted hbody) ?_
  intro r m₁ hm₁ _ hr
  exact afterPass hm₁ hr.2

theorem whileLoop (hev : L.Evaluates ev) {own : Option Name} {test : Expr Name} {body : Stmt Name}
    (hm : L.Good m) : L.Holds (Eval.whileLoop ev own test body) m fun _ _ => True := by
  refine iterate (fun _ m hm => ?_) ev.passes () m hm
  refine L.bind (condition hev test m hm) ?_
  intro holds m₁ hm₁ _ _
  split
  · refine L.bind (pass hev hm₁) ?_
    intro goesOn m₂ hm₂ _ _
    split
    · exact pure hm₂ trivial
    · exact pure hm₂ trivial
  · exact pure hm₁ trivial

theorem doLoop (hev : L.Evaluates ev) {own : Option Name} {test : Expr Name} {body : Stmt Name}
    (hm : L.Good m) : L.Holds (Eval.doLoop ev own body test) m fun _ _ => True := by
  refine iterate (fun _ m hm => ?_) ev.passes () m hm
  refine L.bind (pass hev hm) ?_
  intro goesOn m₁ hm₁ _ _
  split
  · refine L.bind (condition hev test m₁ hm₁) ?_
    intro holds m₂ hm₂ _ _
    split
    · exact pure hm₂ trivial
    · exact pure hm₂ trivial
  · exact pure hm₁ trivial

theorem loopLimit (hev : L.Evaluates ev) (count : Option (Expr Name)) (hm : L.Good m) :
    L.Holds (Eval.loopLimit ev count) m fun _ _ => True := by
  cases count with
  | none => exact pure hm trivial
  | some e =>
      refine L.bind (hev.expr e m hm) ?_
      intro v m₁ hm₁ _ _
      split
      · exact pure hm₁ trivial
      · exact failShowing hm₁

theorem countedLoop (hev : L.Evaluates ev) {own : Option Name} {count : Option (Expr Name)}
    {body : Stmt Name} (hm : L.Good m) :
    L.Holds (Eval.countedLoop ev own count body) m fun _ _ => True := by
  refine L.bind (loopLimit hev count hm) ?_
  intro limit m₁ hm₁ _ _
  refine iterate (fun passes m hm => ?_) ev.passes 0 m₁ hm₁
  split
  · refine L.bind (pass hev hm) ?_
    intro goesOn m₂ hm₂ _ _
    split
    · exact pure hm₂ trivial
    · exact pure hm₂ trivial
  · exact pure hm trivial

theorem forItems (hev : L.Evaluates ev) {own : Option Name} {p : Pattern Name} {body : Stmt Name}
    (items : List Value) (m : Interpreter) (hm : L.Good m) (hitems : L.Values items m) :
    L.Holds (Eval.forItems ev own p span body items) m fun _ _ => True := by
  induction items generalizing m with
  | nil => exact pure hm trivial
  | cons item items ih =>
      obtain ⟨hitem, hitems⟩ := List.forall_mem_cons.mp hitems
      have hpass : L.Holds (Eval.inChild do
          Eval.bindPattern p item .constant false span
          ev.stmt body) m fun _ _ => True := by
        refine inChild hm ?_
        intro hm₁ hg₁
        refine L.bind (bindPattern hm₁ (hitem.mono hg₁)) ?_
        intro _ m₂ hm₂ _ _
        exact hev.stmt body m₂ hm₂
      refine L.bind (attempted hpass) ?_
      intro r m₁ hm₁ hg₁ hr
      refine L.bind (afterPass hm₁ hr.2) ?_
      intro goesOn m₂ hm₂ hg₂ _
      split
      · exact ih m₂ hm₂ (Discipline.Values.grow hitems (hg₁.trans hg₂))
      · exact pure hm₂ trivial

theorem stmts (hev : L.Evaluates ev) (ss : List (Stmt Name)) (m : Interpreter) (hm : L.Good m) :
    L.Holds (Eval.stmts ev ss) m fun _ _ => True := by
  induction ss generalizing m with
  | nil => exact pure hm trivial
  | cons s ss ih => exact L.bind (hev.stmt s m hm) fun _ m₁ hm₁ _ _ => ih m₁ hm₁

theorem linkedNative {decl : Function Name} (hm : L.Good m) :
    L.Holds (Eval.linkedNative decl) m fun _ _ => True := by
  unfold Eval.linkedNative
  split
  · refine read_bind (fun _ _ => rfl) hm ?_
    split
    · exact pure hm trivial
    · exact fail hm
  · exact pure hm trivial

theorem declareFunction {decl : Function Name} (hm : L.Good m) :
    L.Holds (Eval.declareFunction decl span) m fun _ _ => True := by
  refine L.bind (linkedNative hm) ?_
  intro native m₁ hm₁ _ _
  refine L.bind (makeFunction hm₁) ?_
  intro f m₂ hm₂ _ hf
  split
  · exact bindName hm₂ hf
  · exact pure hm₂ trivial

theorem stmtStep (hev : L.Evaluates ev) (s : Stmt Name) (hm : L.Good m) :
    L.Holds (Eval.stmtStep ev s) m fun _ _ => True := by
  cases s with
  | expr span e => exact L.bind (hev.expr e m hm) fun _ m₁ hm₁ _ _ => pure hm₁ trivial
  | declare span kind mutable p value =>
      exact L.bind (hev.expr value m hm) fun v m₁ hm₁ _ hv => bindPattern hm₁ hv
  | block span body => exact inChild hm fun hm₁ _ => stmts hev body _ hm₁
  | whileLoop span own test body => exact whileLoop hev hm
  | doLoop span own body test => exact doLoop hev hm
  | loop span own count body => exact countedLoop hev hm
  | forLoop span own p iterable body =>
      refine L.bind (hev.expr iterable m hm) ?_
      intro v m₁ hm₁ _ _
      refine L.bind (spread hm₁) ?_
      intro items m₂ hm₂ _ hitems
      exact forItems hev items m₂ hm₂ hitems
  | breakLoop span label => exact raise hm trivial
  | continueLoop span label => exact raise hm trivial
  | throwValue span value =>
      exact L.bind (hev.expr value m hm) fun v m₁ hm₁ _ hv => raise hm₁ hv
  | returnValue span value =>
      exact L.bind (expr? hev value hm) fun v m₁ hm₁ _ hv => raise hm₁ hv
  | exitValue span value =>
      exact L.bind (expr? hev value hm) fun v m₁ hm₁ _ hv => raise hm₁ hv
  | function span decl => exact declareFunction hm
  | cls span decl => exact declareClass hm
  | object span decl => exact declareObject hev hm
  | enum span decl => exact declareEnum hev hm

/-! ## Every bound -/

/-- A task of its own changes nothing about an evaluation. -/
theorem atLevel_eq {α : Type} (n : Nat) (x : Eval α) : Eval.atLevel n x = x := by
  funext m
  unfold Eval.atLevel
  split <;> rfl

/-- **Every evaluation keeps to every discipline**, whatever the logic and the bound. -/
theorem evaluates (L : Logic) (n : Nat) : L.Evaluates (evaluator n) := by
  -- An evaluation of bound `n + 1` evaluates its parts within the bound `n`.
  induction n with
  | zero => exact ⟨fun _ _ _ => unfinished, fun _ _ _ => unfinished⟩
  | succ n ih =>
      refine ⟨fun e m hm => ?_, fun s m hm => ?_⟩
      · show L.Holds (fun m => Eval.atLevel n (Eval.exprStep (evaluator n) e) m) m L.Value
        rw [atLevel_eq]
        exact exprStep ih e hm
      · show L.Holds (fun m => Eval.atLevel n (Eval.stmtStep (evaluator n) s) m) m fun _ _ => True
        rw [atLevel_eq]
        exact stmtStep ih s hm

/-! ## Programs -/

theorem statementValue (hev : L.Evaluates ev) (s : Stmt Name) (hm : L.Good m) :
    L.Holds (Interpreter.statementValue ev s) m L.Value := by
  unfold Interpreter.statementValue
  split
  next e => exact hev.expr e m hm
  · exact L.bind (hev.stmt s m hm) fun _ m₁ hm₁ _ _ => pure hm₁ trivial

/-- The value a program ends with refers to scopes of the state. -/
theorem ending_within {r : RunResult} {s : Signal} (hs : s.Within (L.Has · m))
    (h : m.ending span s = .ok r) : L.Value r.value m := by
  cases s with
  | returnValue v =>
      cases h
      exact hs
  | exitValue v =>
      cases h
      exact hs
  | _ => cases h

theorem runStatements (hev : L.Evaluates ev) (ss : List (Stmt Name)) (last : Value)
    (m : Interpreter) (hm : L.Good m) (hlast : L.Value last m) :
    L.Holds (Interpreter.runStatements ev last ss) m
      fun r m' => ∀ result, r = .ok result → L.Value result.value m' := by
  induction ss generalizing last m with
  | nil =>
      refine pure hm ?_
      rintro _ ⟨⟩
      exact hlast
  | cons s ss ih =>
      refine L.bind (attempted (statementValue hev s hm)) ?_
      intro r m₁ hm₁ _ hr
      split
      next v => exact ih v m₁ hm₁ (hr.1 v rfl)
      next signal => exact read (fun _ _ => rfl) hm₁ fun _ h => ending_within (hr.2 signal rfl) h

/-- A program keeps to the discipline of any logic. -/
theorem run (L : Logic) (p : Program Name) (hm : L.Good m) :
    L.Holds (Interpreter.run p) m fun r m' => ∀ result, r = .ok result → L.Value result.value m' :=
  runStatements (evaluates L _) p .unit m hm trivial

end Logic

/-! ## Sources that are run to a value -/

/-- A source runs to a value if what it is parsed to does, and leaves a state that passes a test if that
does. -/
theorem Interpreter.exists_runSource_of_passes [Text.CharNames] {source : Source} {m : Interpreter}
    {parsed : InternedProgram} {result : RunResult} {test : Interpreter → Bool}
    (hparse : m.interner.parse source.text = .ok parsed)
    (h : (runParsed parsed m).passes (fun r m' => r.toOption == some result && test m') = true) :
    ∃ m', runSource source m = .done (.ok result) m' ∧ test m' = true := by
  rw [runSource_of_parse hparse]
  obtain ⟨r, m', hrun, hpasses⟩ := Outcome.exists_done_of_passes h
  obtain ⟨hr, htest⟩ := Bool.and_eq_true_iff.mp hpasses
  cases r with
  | error d => cases hr
  | ok r =>
      obtain rfl := Option.some.inj (eq_of_beq hr)
      exact ⟨m', hrun, htest⟩

end IslandScript
