import Mathlib
import IslandScript.Command.Characters
import IslandScript.Interpreter.Run
import IslandScript.Proofs.Landing.Calls
import IslandScript.Proofs.Logic.Evaluator

/-!
# Where declarations land

The second half of the way through the evaluator: expressions, statements, and from them, by
induction on the bound, every evaluator. The main statement is `expr_declares_only_what_lands`: an
expression declares names in the scope it is evaluated in only by statements that stand bare in it,
or by defaults of the functions and classes that it calls there.
-/

namespace IslandScript

namespace Eval

variable {ev : Evaluator} {m : Interpreter} {L : List (Landing Name)} {span : Span}

/-! ## Expressions -/

theorem lands_nameValue (n : Name) : Lands L (nameValue n span) := by
  intro m
  unfold nameValue
  split
  · exact ⟨.refl m, trivial⟩
  · exact Interpreter.Lands.refl m

theorem lands_unary (hev : LandsTrees ev) (op : UnaryOp) (operand : Expr Name) :
    Lands operand.lands (unary ev span op operand) := by
  refine Lands.bind (hev.expr operand) fun v => Lands.bind (lands_read _) fun r => ?_
  split
  · exact lands_pure _
  · exact lands_newList _
  · split <;> exact lands_failShowing _ _

theorem lands_binary (hev : LandsTrees ev) (op : BinaryOp) (left right : Expr Name) :
    Lands (left.lands ++ right.lands) (binary ev op left right) := by
  refine Lands.bind (hev.expr left).left fun v => ?_
  split
  · exact lands_failShowing _ _
  · exact lands_pure _
  · refine Lands.bind (hev.expr right).right fun w => Lands.bind (lands_read _) fun r => ?_
    split
    · exact lands_pure _
    · exact lands_failShowing _ _
    · exact lands_failShowing _ _

/-- An assignment writes a name that is bound. -/
theorem lands_onEnv_write {t : ScopeId} {n : Name} (v : Value)
    (ht : m.env.scopes.assignable m.env.current n = .ok t) :
    m.Lands m.env.current L (m.onEnv (·.write t n v)) where
  evolves := .of_change (.write ht v.within_all)
  stack := rfl
  bound u k _ hk := by
    obtain ⟨r, hr⟩ := Option.isSome_iff_exists.mp hk
    rcases Scopes.own?_update_cases hr with ⟨rfl, hown⟩ | hown
    · refine .inl ?_
      by_cases hkn : k = n
      · subst hkn
        rw [Scope.own?_write_self] at hown
        obtain ⟨r', hr', -⟩ := Option.map_eq_some_iff.mp hown
        exact Option.isSome_iff_exists.mpr ⟨r', hr'⟩
      · rw [Scope.own?_write_of_ne hkn] at hown
        exact Option.isSome_iff_exists.mpr ⟨r, hown⟩
    · exact .inl (hown ▸ rfl)

theorem lands_assign (hev : LandsTrees ev) (target : Name) (value : Expr Name) :
    Lands value.lands (assign ev span target value) := by
  refine Lands.bind (hev.expr value) fun v m => ?_
  split
  next s hs => exact ⟨lands_onEnv_write v hs, trivial⟩
  · exact Interpreter.Lands.refl m
  · exact Interpreter.Lands.refl m

theorem lands_indexBy (v : Value) (is : List Value) : Lands L (indexBy span v is) := by
  induction is generalizing v with
  | nil => exact lands_pure v
  | cons i is ih =>
      refine Lands.bind (lands_read _) fun r => ?_
      split
      · exact ih _
      · exact fun m => Interpreter.Lands.refl m

theorem lands_callee (hev : LandsTrees ev) (target : Expr Name) :
    Lands target.lands (callee ev target) := by
  unfold callee
  split
  next span object n =>
    rw [Expr.lands]
    exact Lands.bind (hev.expr object) fun v => lands_memberOf hev v n
  · exact Lands.bind (hev.expr target) fun v => lands_pure _

theorem lands_invokeFunction (hev : LandsTrees ev) (target : Expr Name) (owner : Option ScopeId)
    (id : FunctionId) (args : List (Arg Name (Expr Name))) :
    Lands (.call :: Args.lands args) (invokeFunction ev span target owner id args) := by
  intro m
  refine LandsTo.read_bind ?_
  cases hf : m.functions[id.index]? with
  | none => trivial
  | some f =>
      have hreceiver : Lands (.call :: Args.lands args) (receiverOf f owner target) := by
        unfold receiverOf
        split
        · exact lands_pure _
        · exact lands_read _
      refine LandsTo.bind (hreceiver m) fun receiver m₁ hm₁ _ => ?_
      have hdefers : ∀ n, .declared n ∈ Params.lands f.decl.params → m₁.Defers n := fun n hn =>
        (Interpreter.defers_of_function hf hn).evolves hm₁.evolves
      have hargs := (landsTo_arguments hev f.name args span hdefers).behind hm₁ fun _ =>
        ⟨hm₁.current, List.Subset.refl _⟩
      refine hargs.bind fun values m₂ hm₂ _ => ?_
      exact (lands_callFunction hev f receiver values).after hm₂ (List.Subset.refl _)

theorem lands_invoke (hev : LandsTrees ev) (target : Expr Name)
    (args : List (Arg Name (Expr Name))) :
    Lands (.call :: target.lands ++ Args.lands args) (invoke ev span target args) := by
  have hcall : .call :: Args.lands args ⊆ .call :: target.lands ++ Args.lands args :=
    List.cons_subset_cons _ (List.subset_append_right _ _)
  have htarget : target.lands ⊆ .call :: target.lands ++ Args.lands args :=
    List.Subset.trans (List.subset_cons_self _ _) (List.subset_append_left _ _)
  refine Lands.bind ((lands_callee hev target).mono htarget) fun called => ?_
  split
  · exact (lands_invokeFunction hev target _ _ args).mono hcall
  · exact Lands.bind ((lands_invokeClass hev _ args).mono hcall) fun s => lands_pure _
  · exact lands_failShowing _ _

theorem lands_condition (hev : LandsTrees ev) (e : Expr Name) :
    Lands e.lands (condition ev e) := by
  refine Lands.bind (hev.expr e) fun v => ?_
  split
  · exact lands_pure _
  · exact lands_failShowing _ _

theorem lands_condition? (hev : LandsTrees ev) (e? : Option (Expr Name)) :
    Lands (Expr?.lands e?) (condition? ev e?) := by
  cases e? with
  | none => exact lands_pure _
  | some e => exact lands_condition hev e

/-- The item, the condition and the element of a comprehension land in a scope for the item. -/
theorem lands_comprehended (hev : LandsTrees ev) (element : Expr Name) (p : Pattern Name)
    (iterable : Expr Name) (test : Option (Expr Name)) (item : Value) :
    Lands L (comprehended ev element p iterable test item) := by
  have helement : Lands (Expr?.lands test ++ element.lands) (do
      if ← condition? ev test then return some (← ev.expr element) else return none) := by
    refine Lands.bind (lands_condition? hev test).left fun b => ?_
    split
    · exact Lands.bind (hev.expr element).right fun v => lands_pure _
    · exact lands_pure _
  have hpattern := lands_bindPattern iterable.span p item .constant false
  exact lands_inChild (hpattern.left.bind fun _ => helement.right)

theorem lands_comprehension (hev : LandsTrees ev) (element : Expr Name) (p : Pattern Name)
    (iterable : Expr Name) (test : Option (Expr Name)) (found items : List Value) :
    Lands L (comprehension ev element p iterable test found items) := by
  induction items generalizing found with
  | nil => exact lands_pure _
  | cons item items ih =>
      exact Lands.bind (lands_comprehended hev element p iterable test item) fun v => ih _

theorem lands_sequence (hev : LandsTrees ev) (last : Value) (es : List (Expr Name)) :
    Lands (Exprs.lands es) (sequence ev last es) := by
  induction es generalizing last with
  | nil => exact lands_pure _
  | cons e es ih => exact Lands.bind (hev.expr e).left fun v => (ih v).right

theorem lands_branchTaken (hev : LandsTrees ev) (subject : Option Value) (e : Expr Name) :
    Lands e.lands (branchTaken ev subject e) := by
  cases subject with
  | none => exact lands_condition hev e
  | some v => exact Lands.bind (hev.expr e) fun w => lands_read _

theorem lands_branches (hev : LandsTrees ev) (subject : Option Value)
    (otherwise : Option (Expr Name)) (bs : List (Branch (Expr Name))) :
    Lands (Branches.lands bs ++ Expr?.lands otherwise) (branches ev subject otherwise bs) := by
  induction bs with
  | nil => exact (lands_expr? hev otherwise).right
  | cons b bs ih =>
      rw [Branches.lands, List.append_assoc]
      refine Lands.bind (lands_branchTaken hev subject b.condition).left.left fun taken => ?_
      split
      · exact (hev.expr b.body).right.left
      · exact ih.right

/-- What the handler declares lands in a scope of its own. -/
theorem lands_handled (hev : LandsTrees ev) (error : Option Name) (handler : Option (Expr Name))
    (r : Except Signal Value) : Lands L (handled ev error handler r) := by
  unfold handled
  split
  next v e =>
    have hbind : Lands (error.toList.map .declared) (bindThrown v e.span error) := by
      cases error with
      | none => exact lands_pure _
      | some n => exact lands_bindName n _
    exact lands_inChild (hbind.left.bind fun _ => (hev.expr e).right)
  · exact lands_resume r

theorem lands_tryCatch (hev : LandsTrees ev) (body : Expr Name) (error : Option Name)
    (handler finalizer : Option (Expr Name)) :
    Lands (body.lands ++ Expr?.lands finalizer) (tryCatch ev body error handler finalizer) := by
  refine Lands.bind (lands_attempt (hev.expr body).left) fun r => ?_
  refine Lands.bind (lands_attempt (lands_handled hev error handler r)) fun r' => ?_
  split
  · exact lands_raise _
  · exact Lands.bind (lands_expr? hev finalizer).right fun _ => lands_resume _

theorem lands_exprStep (hev : LandsTrees ev) (e : Expr Name) : Lands e.lands (exprStep ev e) := by
  cases e with
  | value => exact lands_pure _
  | name _ n => exact lands_nameValue n
  | unary _ op operand =>
      rw [Expr.lands]
      exact lands_unary hev op operand
  | binary _ op left right =>
      rw [Expr.lands]
      exact lands_binary hev op left right
  | assign _ target value =>
      rw [Expr.lands]
      exact lands_assign hev target value
  | member _ target n =>
      rw [Expr.lands]
      refine Lands.bind (hev.expr target) fun v => ?_
      exact Lands.bind (lands_memberOf hev v n) fun r => lands_pure _
  | index _ target args =>
      rw [Expr.lands]
      refine Lands.bind (hev.expr target).left fun v => ?_
      exact Lands.bind (lands_spreadArgs hev args).right fun vs => lands_indexBy v vs
  | invoke _ target args =>
      rw [Expr.lands]
      exact lands_invoke hev target args
  | list _ elements =>
      rw [Expr.lands]
      exact Lands.bind (lands_exprs hev elements) fun vs => lands_newList vs
  | comprehension _ element p iterable test =>
      rw [Expr.lands]
      refine Lands.bind (hev.expr iterable) fun v => ?_
      refine Lands.bind (lands_spread v) fun items => ?_
      refine Lands.bind (lands_comprehension hev element p iterable test [] items) fun vs => ?_
      exact lands_newList vs
  | lambda _ decl => exact lands_makeFunction decl none
  | block _ items => exact lands_inChild (lands_sequence hev _ items)
  | ifElse _ test body otherwise =>
      rw [Expr.lands]
      refine Lands.bind (lands_condition hev test).left.left fun b => ?_
      split
      · exact (hev.expr body).right.left
      · exact (lands_expr? hev otherwise).right
  | whenCase _ subject bs otherwise =>
      rw [Expr.lands]
      refine Lands.bind ?_ fun v => lands_branches hev v otherwise bs
      cases subject with
      | none => exact lands_pure _
      | some n => exact Lands.bind (lands_nameValue n) fun v => lands_pure _
  | tryCatch _ body error handler finalizer =>
      rw [Expr.lands]
      exact lands_tryCatch hev body error handler finalizer
  | statement _ s =>
      rw [Expr.lands]
      exact Lands.bind (hev.stmt s) fun _ => lands_pure _

/-! ## Statements -/

theorem lands_afterPass (own : Option Name) (r : Except Signal Unit) :
    Lands L (afterPass own r) := by
  unfold afterPass
  split
  · exact lands_pure _
  · split
    · exact lands_pure _
    · exact lands_raise _
  · split
    · exact lands_pure _
    · exact lands_raise _
  · exact lands_raise _

/-- What the body of a loop declares lands in the scope of the pass. -/
theorem lands_pass (hev : LandsTrees ev) (own : Option Name) (body : Stmt Name) :
    Lands L (pass ev own body) :=
  Lands.bind (lands_attempt (lands_inChild (hev.stmt body))) fun r => lands_afterPass own r

theorem lands_whileLoop (hev : LandsTrees ev) (own : Option Name) (test : Expr Name)
    (body : Stmt Name) : Lands test.lands (whileLoop ev own test body) := by
  refine lands_iterate (fun _ => ?_) _ _
  refine Lands.bind (lands_condition hev test) fun b => ?_
  split
  · refine Lands.bind (lands_pass hev own body) fun goesOn => ?_
    split <;> exact lands_pure _
  · exact lands_pure _

theorem lands_doLoop (hev : LandsTrees ev) (own : Option Name) (test : Expr Name)
    (body : Stmt Name) : Lands test.lands (doLoop ev own body test) := by
  refine lands_iterate (fun _ => ?_) _ _
  refine Lands.bind (lands_pass hev own body) fun goesOn => ?_
  split
  · refine Lands.bind (lands_condition hev test) fun b => ?_
    split <;> exact lands_pure _
  · exact lands_pure _

theorem lands_countedLoop (hev : LandsTrees ev) (own : Option Name) (count : Option (Expr Name))
    (body : Stmt Name) : Lands (Expr?.lands count) (countedLoop ev own count body) := by
  have hlimit : Lands (Expr?.lands count) (loopLimit ev count) := by
    cases count with
    | none => exact lands_pure _
    | some e =>
        refine Lands.bind (hev.expr e) fun v => ?_
        split
        · exact lands_pure _
        · exact lands_failShowing _ _
  refine Lands.bind hlimit fun limit => lands_iterate (fun passes => ?_) _ _
  split
  · refine Lands.bind (lands_pass hev own body) fun goesOn => ?_
    split <;> exact lands_pure _
  · exact lands_pure _

theorem lands_forItems (hev : LandsTrees ev) (own : Option Name) (p : Pattern Name)
    (body : Stmt Name) (items : List Value) : Lands L (forItems ev own p span body items) := by
  induction items with
  | nil => exact lands_pure _
  | cons item items ih =>
      have hbind := lands_bindPattern span p item .constant false
      have hitem : Lands L (inChild (bindPattern p item .constant false span >>= fun _ =>
          ev.stmt body)) := lands_inChild (hbind.left.bind fun _ => (hev.stmt body).right)
      refine Lands.bind (lands_attempt hitem) fun r => ?_
      refine Lands.bind (lands_afterPass own r) fun goesOn => ?_
      split
      · exact ih
      · exact lands_pure _

theorem lands_stmts (hev : LandsTrees ev) (ss : List (Stmt Name)) :
    Lands (ss.flatMap Stmt.lands) (stmts ev ss) := by
  induction ss with
  | nil => exact lands_pure _
  | cons s ss ih => exact Lands.bind (hev.stmt s).left fun _ => ih.right

theorem lands_declareFunction (decl : Function Name) :
    Lands (decl.name.toList.map .declared) (declareFunction decl span) := by
  have hnative : Lands (decl.name.toList.map .declared) (linkedNative decl) := by
    unfold linkedNative
    split
    · refine Lands.bind (lands_read _) fun r => ?_
      split
      · exact lands_pure _
      · exact lands_fail _
    · exact lands_pure _
  refine Lands.bind hnative fun nativeId => ?_
  refine Lands.bind (lands_makeFunction decl nativeId) fun f => ?_
  cases decl.name with
  | some n => exact lands_bindName n _
  | none => exact lands_pure _

theorem lands_stmtStep (hev : LandsTrees ev) (s : Stmt Name) : Lands s.lands (stmtStep ev s) := by
  cases s with
  | expr _ e =>
      rw [Stmt.lands]
      exact Lands.bind (hev.expr e) fun _ => lands_pure _
  | declare _ kind mutable p value =>
      rw [Stmt.lands]
      exact Lands.bind (hev.expr value).right fun v => (lands_bindPattern _ p v kind mutable).left
  | block _ body => exact lands_inChild (lands_stmts hev body)
  | whileLoop _ own test body =>
      rw [Stmt.lands]
      exact lands_whileLoop hev own test body
  | doLoop _ own body test =>
      rw [Stmt.lands]
      exact lands_doLoop hev own test body
  | loop _ own count body =>
      rw [Stmt.lands]
      exact lands_countedLoop hev own count body
  | forLoop _ own p iterable body =>
      rw [Stmt.lands]
      refine Lands.bind (hev.expr iterable) fun v => ?_
      exact Lands.bind (lands_spread v) fun items => lands_forItems hev own p body items
  | breakLoop | continueLoop => exact lands_raise _
  | throwValue _ value =>
      rw [Stmt.lands]
      exact Lands.bind (hev.expr value) fun v => lands_raise _
  | returnValue _ value | exitValue _ value =>
      rw [Stmt.lands]
      exact Lands.bind (lands_expr? hev value) fun v => lands_raise _
  | function _ decl =>
      rw [Stmt.lands]
      exact lands_declareFunction decl
  | cls _ decl =>
      rw [Stmt.lands]
      exact lands_declareClass decl
  | object _ decl =>
      rw [Stmt.lands]
      exact lands_declareObject hev decl
  | enum _ decl =>
      cases decl
      rw [Stmt.lands]
      exact lands_declareEnum hev _

/-- Every evaluator lands what the trees say. -/
theorem landsTrees (k : Nat) : LandsTrees (evaluator k) := by
  -- An evaluation of bound `k + 1` evaluates its parts within the bound `k`.
  induction k with
  | zero => exact ⟨fun _ => lands_unfinished, fun _ => lands_unfinished⟩
  | succ k ih =>
      refine ⟨fun e m => ?_, fun s m => ?_⟩
      · show LandsTo m _ e.lands (atLevel k (exprStep (evaluator k) e) m) _
        rw [Logic.atLevel_eq]
        exact lands_exprStep ih e m
      · show LandsTo m _ s.lands (atLevel k (stmtStep (evaluator k) s) m) _
        rw [Logic.atLevel_eq]
        exact lands_stmtStep ih s m

end Eval

open Eval

/-- **Declarations land where they stand bare.** However an expression is evaluated and ends, every
scope that was there binds the names it did before, and no others: only the scope the expression is
evaluated in may come to bind more, and of these each is declared by a statement that stands bare in
the expression, or, where it calls something outside of blocks, by the default of a parameter. -/
theorem expr_declares_only_what_lands (k : Nat) (e : Expr Name) (m : Interpreter) :
    ((evaluator k).expr e m).Leaves fun m' =>
      ∀ t n, t.index < m.env.scopes.size →
        ¬(t = m.env.current ∧ (.declared n ∈ e.lands ∨ .call ∈ e.lands ∧ m'.Defers n)) →
        ((m'.env.scopes.own? t n).isSome ↔ (m.env.scopes.own? t n).isSome) := by
  have hkept {m' : Interpreter} (hm' : m.Lands m.env.current e.lands m') :
      ∀ t n, t.index < m.env.scopes.size → ¬(t = m.env.current ∧ m'.Admits e.lands n) →
        ((m'.env.scopes.own? t n).isSome ↔ (m.env.scopes.own? t n).isSome) := by
    intro t n ht hnot
    refine ⟨fun hown => ?_, fun hown => ?_⟩
    · exact (hm'.bound t n ht hown).resolve_right hnot
    · obtain ⟨r, hr⟩ := Option.isSome_iff_exists.mp hown
      obtain ⟨r', hr', -⟩ := (hm'.evolves.scopes.get t ht).own n r hr
      exact Option.isSome_iff_exists.mpr ⟨r', hr'⟩
  exact ((landsTrees k).expr e m).mono (fun _ _ h => hkept h.1) fun _ _ h => hkept h

/-- What is parsed from a conditional whose body is a declaration without braces, and from a line
that reads the name. -/
def bareDeclaration : InternedProgram where
  program := [
    .expr ⟨1, 1, 2⟩ (.ifElse ⟨1, 1, 2⟩ (.value ⟨1, 5, 4⟩ (.bool true))
      (.statement ⟨1, 11, 3⟩ (.declare ⟨1, 11, 3⟩ .constant false (.name ⟨5⟩)
        (.value ⟨1, 19, 4⟩ (.bool true)))) none),
    .expr ⟨2, 1, 1⟩ (.name ⟨2, 1, 1⟩ ⟨5⟩)]
  warnings := []
  interner := (Interner.new.intern "x").2

attribute [local instance] Command.charNames

/-- A conditional declares a name in the scope it is evaluated in. -/
theorem bare_declaration_lands : ∃ m,
    Interpreter.runSource ⟨"a", "if (true) let x = true\nx"⟩ (.new .empty default) =
      .done (.ok ⟨.bool true, false⟩) m ∧
    m.text ⟨5⟩ = "x" ∧ (Interpreter.new .empty default).env.own? ⟨5⟩ = none ∧
    m.env.own? ⟨5⟩ = some (.constant (.bool true)) := by
  have hparse : (Interpreter.new .empty default).interner.parse "if (true) let x = true\nx" =
      .ok bareDeclaration := by cbv
  have htest : (Interpreter.runParsed bareDeclaration (.new .empty default)).passes (fun r m =>
      r.toOption == some ⟨.bool true, false⟩ && (m.text ⟨5⟩ == "x" &&
        m.env.own? ⟨5⟩ == some (.constant (.bool true)))) = true := by decide +kernel
  obtain ⟨m, hrun, htest⟩ :=
    @Interpreter.exists_runSource_of_passes _ ⟨"a", _⟩ _ _ _ _ hparse htest
  simp only [Bool.and_eq_true, beq_iff_eq] at htest
  exact ⟨m, hrun, htest.1, rfl, htest.2⟩

end IslandScript
