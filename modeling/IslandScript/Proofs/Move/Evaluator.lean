import IslandScript.Interpreter.Run
import IslandScript.Proofs.Logic.Evaluator
import IslandScript.Proofs.Move.Calls

/-!
# Programs go by moves

The second half of the way through the evaluator: expressions, statements, and from them, by
induction on the bound, every evaluator and every program. Whatever is to be shown of the states
that a program comes to is shown of moves (`walks_run`).
-/

namespace IslandScript.Eval

variable {P : Binder Name → Prop} {ev : Evaluator} {span : Span}

/-! ## Expressions -/

theorem walks_expr? (hev : EvaluatesByMoves P ev) {e? : Option (Expr Name)}
    (h : Bears P (Expr?.binders e?)) : Walks P (expr? ev e?) := by
  cases e? with
  | none => exact walks_pure _
  | some e => exact hev.expr e h

theorem walks_nameValue (n : Name) : Walks P (nameValue n span) := by
  intro m _
  show WalksTo P m (nameValue n span m) _
  unfold nameValue
  split
  · exact ⟨.refl, trivial⟩
  · exact Relation.ReflTransGen.refl

theorem walks_unary (hev : EvaluatesByMoves P ev) (op : UnaryOp) {operand : Expr Name}
    (h : Bears P operand.binders) : Walks P (unary ev span op operand) := by
  refine Walks.bind (hev.expr operand h) fun v => Walks.bind (walks_read _) fun r => ?_
  split
  · exact walks_pure _
  · exact walks_newList _
  · split <;> exact walks_failShowing _ _ _

theorem walks_binary (hev : EvaluatesByMoves P ev) (op : BinaryOp) {left right : Expr Name}
    (hleft : Bears P left.binders) (hright : Bears P right.binders) :
    Walks P (binary ev op left right) := by
  refine Walks.bind (hev.expr left hleft) fun v => ?_
  split
  · exact walks_failShowing _ _ _
  · exact walks_pure _
  · refine Walks.bind (hev.expr right hright) fun w => Walks.bind (walks_read _) fun r => ?_
    split
    · exact walks_pure _
    · exact walks_failShowing _ _ _
    · exact walks_failShowing _ _ _

theorem walks_assign (hev : EvaluatesByMoves P ev) (target : Name) {value : Expr Name}
    (h : Bears P value.binders) : Walks P (assign ev span target value) := by
  refine Walks.bind (hev.expr value h) fun v m _ => ?_
  unfold WalksAt
  dsimp only
  split
  next s hs => exact ⟨.single (.write hs), trivial⟩
  · exact Relation.ReflTransGen.refl
  · exact Relation.ReflTransGen.refl

theorem walks_indexBy (v : Value) (is : List Value) : Walks P (indexBy span v is) := by
  induction is generalizing v with
  | nil => exact walks_pure v
  | cons i is ih =>
      refine Walks.bind (walks_read _) fun r => ?_
      split
      · exact ih _
      · exact fun _ _ => Relation.ReflTransGen.refl

theorem walks_callee (hev : EvaluatesByMoves P ev) {target : Expr Name}
    (h : Bears P target.binders) : Walks P (callee ev target) := by
  unfold callee
  split
  next span object n =>
    rw [Expr.binders] at h
    exact Walks.bind (hev.expr object h) fun v => walks_memberOf hev v n
  · exact Walks.bind (hev.expr target h) fun v => walks_pure _

theorem walks_invokeFunction (hev : EvaluatesByMoves P ev) (target : Expr Name)
    (owner : Option ScopeId) (id : FunctionId) {args : List (Arg Name (Expr Name))}
    (hargs : Bears P (Args.binders args)) :
    Walks P (invokeFunction ev span target owner id args) := by
  refine fun m hm => WalksAt.read_bind ?_
  split
  · exact walks_unfinished m hm
  next f hf =>
    have hbears := hm.functions f (Array.mem_of_getElem? hf)
    have hreceiver : Walks P (receiverOf f owner target) := by
      unfold receiverOf
      split
      · exact walks_pure _
      · exact walks_read _
    refine Walks.bind hreceiver (fun receiver => ?_) m hm
    refine Walks.bind (walks_arguments hev f.name hbears.params hargs) fun vs => ?_
    exact walks_callFunction hev hbears receiver vs

theorem walks_invoke (hev : EvaluatesByMoves P ev) {target : Expr Name}
    {args : List (Arg Name (Expr Name))} (htarget : Bears P target.binders)
    (hargs : Bears P (Args.binders args)) : Walks P (invoke ev span target args) := by
  refine Walks.bind (walks_callee hev htarget) fun called => ?_
  split
  · exact walks_invokeFunction hev target _ _ hargs
  · exact Walks.bind (walks_invokeClass hev _ hargs) fun s => walks_pure _
  · exact walks_failShowing _ _ _

theorem walks_condition (hev : EvaluatesByMoves P ev) {e : Expr Name} (h : Bears P e.binders) :
    Walks P (condition ev e) := by
  refine Walks.bind (hev.expr e h) fun v => ?_
  split
  · exact walks_pure _
  · exact walks_failShowing _ _ _

theorem walks_condition? (hev : EvaluatesByMoves P ev) {e? : Option (Expr Name)}
    (h : Bears P (Expr?.binders e?)) : Walks P (condition? ev e?) := by
  cases e? with
  | none => exact walks_pure _
  | some e => exact walks_condition hev h

theorem walks_comprehension (hev : EvaluatesByMoves P ev) {element iterable : Expr Name}
    {p : Pattern Name} {test : Option (Expr Name)} (helement : Bears P element.binders)
    (hp : Bears P (p.binders .comprehension)) (htest : Bears P (Expr?.binders test))
    (found items : List Value) :
    Walks P (comprehension ev element p iterable test found items) := by
  induction items generalizing found with
  | nil => exact walks_pure _
  | cons item items ih =>
      have hone : Walks P (comprehended ev element p iterable test item) := by
        refine walks_inChild (Walks.bind (walks_bindPattern item _ _ hp nofun) fun _ => ?_)
        refine Walks.bind (walks_condition? hev htest) fun b => ?_
        split
        · exact Walks.bind (hev.expr element helement) fun v => walks_pure _
        · exact walks_pure _
      exact Walks.bind hone fun v => ih _

theorem walks_sequence (hev : EvaluatesByMoves P ev) (last : Value) (es : List (Expr Name))
    (h : Bears P (Exprs.binders es)) : Walks P (sequence ev last es) := by
  induction es generalizing last with
  | nil => exact walks_pure _
  | cons e es ih =>
      obtain ⟨he, hes⟩ := bears_append.mp h
      exact Walks.bind (hev.expr e he) fun v => ih v hes

theorem walks_branchTaken (hev : EvaluatesByMoves P ev) (subject : Option Value) {e : Expr Name}
    (h : Bears P e.binders) : Walks P (branchTaken ev subject e) := by
  cases subject with
  | none => exact walks_condition hev h
  | some v => exact Walks.bind (hev.expr e h) fun w => walks_read _

theorem walks_branches (hev : EvaluatesByMoves P ev) (subject : Option Value)
    {otherwise : Option (Expr Name)} (bs : List (Branch (Expr Name)))
    (hbs : Bears P (Branches.binders bs)) (h : Bears P (Expr?.binders otherwise)) :
    Walks P (branches ev subject otherwise bs) := by
  induction bs with
  | nil => exact walks_expr? hev h
  | cons b bs ih =>
      obtain ⟨⟨hcondition, hbody⟩, hrest⟩ := List.forall_mem_cons.mp (bears_branches.mp hbs)
      refine Walks.bind (walks_branchTaken hev subject hcondition) fun taken => ?_
      split
      · exact hev.expr b.body hbody
      · exact ih (bears_branches.mpr hrest)

theorem walks_handled (hev : EvaluatesByMoves P ev) {error : Option Name}
    {handler : Option (Expr Name)} (r : Except Signal Value)
    (herror : ∀ n, error = some n → P ⟨.handler, n⟩) (h : Bears P (Expr?.binders handler)) :
    Walks P (handled ev error handler r) := by
  unfold handled
  split
  next v e =>
    refine walks_inChild (Walks.bind ?_ fun _ => hev.expr e h)
    cases error with
    | none => exact walks_pure _
    | some n => exact walks_bindName (herror n rfl) nofun _
  · exact walks_resume r

theorem walks_tryCatch (hev : EvaluatesByMoves P ev) {body : Expr Name} {error : Option Name}
    {handler finalizer : Option (Expr Name)} (hbody : Bears P body.binders)
    (herror : ∀ n, error = some n → P ⟨.handler, n⟩) (hhandler : Bears P (Expr?.binders handler))
    (hfinalizer : Bears P (Expr?.binders finalizer)) :
    Walks P (tryCatch ev body error handler finalizer) := by
  refine Walks.bind (walks_attempt (hev.expr body hbody)) fun r => ?_
  refine Walks.bind (walks_attempt (walks_handled hev r herror hhandler)) fun r' => ?_
  split
  · exact walks_raise _
  · exact Walks.bind (walks_expr? hev hfinalizer) fun _ => walks_resume _

theorem walks_exprStep (hev : EvaluatesByMoves P ev) (e : Expr Name) (h : Bears P e.binders) :
    Walks P (exprStep ev e) := by
  cases e with
  | value => exact walks_pure _
  | name _ n => exact walks_nameValue n
  | unary _ op operand =>
      rw [Expr.binders] at h
      exact walks_unary hev op h
  | binary _ op left right =>
      simp only [Expr.binders, bears_append] at h
      exact walks_binary hev op h.1 h.2
  | assign _ target value =>
      rw [Expr.binders] at h
      exact walks_assign hev target h
  | member _ target n =>
      rw [Expr.binders] at h
      refine Walks.bind (hev.expr target h) fun v => ?_
      exact Walks.bind (walks_memberOf hev v n) fun r => walks_pure _
  | index _ target args =>
      simp only [Expr.binders, bears_append] at h
      refine Walks.bind (hev.expr target h.1) fun v => ?_
      exact Walks.bind (walks_spreadArgs hev args h.2) fun vs => walks_indexBy v vs
  | invoke _ target args =>
      simp only [Expr.binders, bears_append] at h
      exact walks_invoke hev h.1 h.2
  | list _ elements =>
      rw [Expr.binders] at h
      exact Walks.bind (walks_exprs hev elements h) fun vs => walks_newList vs
  | comprehension _ element p iterable test =>
      simp only [Expr.binders, bears_append] at h
      obtain ⟨⟨⟨helement, hp⟩, hiterable⟩, htest⟩ := h
      refine Walks.bind (hev.expr iterable hiterable) fun v => ?_
      refine Walks.bind (walks_spread v) fun items => ?_
      refine Walks.bind (walks_comprehension hev helement hp htest [] items) fun vs => ?_
      exact walks_newList vs
  | lambda _ decl =>
      rw [Expr.binders] at h
      exact walks_makeFunction none (.of_lambda h)
  | block _ items =>
      rw [Expr.binders] at h
      exact walks_inChild (walks_sequence hev _ items h)
  | ifElse _ test body otherwise =>
      simp only [Expr.binders, bears_append] at h
      obtain ⟨⟨htest, hbody⟩, hotherwise⟩ := h
      refine Walks.bind (walks_condition hev htest) fun b => ?_
      split
      · exact hev.expr body hbody
      · exact walks_expr? hev hotherwise
  | whenCase _ subject bs otherwise =>
      simp only [Expr.binders, bears_append] at h
      refine Walks.bind ?_ fun v => walks_branches hev v bs h.1 h.2
      cases subject with
      | none => exact walks_pure _
      | some n => exact Walks.bind (walks_nameValue n) fun v => walks_pure _
  | tryCatch _ body error handler finalizer =>
      simp only [Expr.binders, bears_append] at h
      obtain ⟨⟨⟨hbody, herror⟩, hhandler⟩, hfinalizer⟩ := h
      refine walks_tryCatch hev hbody (fun n hn => ?_) hhandler hfinalizer
      cases hn
      exact herror _ (List.mem_singleton_self _)
  | statement _ s =>
      rw [Expr.binders] at h
      exact Walks.bind (hev.stmt s h) fun _ => walks_pure _

/-! ## Statements -/

theorem walks_afterPass (own : Option Name) (r : Except Signal Unit) :
    Walks P (afterPass own r) := by
  unfold afterPass
  split
  · exact walks_pure _
  · split
    · exact walks_pure _
    · exact walks_raise _
  · split
    · exact walks_pure _
    · exact walks_raise _
  · exact walks_raise _

theorem walks_pass (hev : EvaluatesByMoves P ev) (own : Option Name) {body : Stmt Name}
    (h : Bears P body.binders) : Walks P (pass ev own body) :=
  Walks.bind (walks_attempt (walks_inChild (hev.stmt body h))) fun r => walks_afterPass own r

theorem walks_whileLoop (hev : EvaluatesByMoves P ev) (own : Option Name) {test : Expr Name}
    {body : Stmt Name} (htest : Bears P test.binders) (hbody : Bears P body.binders) :
    Walks P (whileLoop ev own test body) := by
  refine walks_iterate (fun _ => ?_) _ _
  refine Walks.bind (walks_condition hev htest) fun b => ?_
  split
  · refine Walks.bind (walks_pass hev own hbody) fun goesOn => ?_
    split <;> exact walks_pure _
  · exact walks_pure _

theorem walks_doLoop (hev : EvaluatesByMoves P ev) (own : Option Name) {test : Expr Name}
    {body : Stmt Name} (htest : Bears P test.binders) (hbody : Bears P body.binders) :
    Walks P (doLoop ev own body test) := by
  refine walks_iterate (fun _ => ?_) _ _
  refine Walks.bind (walks_pass hev own hbody) fun goesOn => ?_
  split
  · refine Walks.bind (walks_condition hev htest) fun b => ?_
    split <;> exact walks_pure _
  · exact walks_pure _

theorem walks_countedLoop (hev : EvaluatesByMoves P ev) (own : Option Name)
    {count : Option (Expr Name)} {body : Stmt Name} (hcount : Bears P (Expr?.binders count))
    (hbody : Bears P body.binders) : Walks P (countedLoop ev own count body) := by
  have hlimit : Walks P (loopLimit ev count) := by
    cases count with
    | none => exact walks_pure _
    | some e =>
        refine Walks.bind (hev.expr e hcount) fun v => ?_
        split
        · exact walks_pure _
        · exact walks_failShowing _ _ _
  refine Walks.bind hlimit fun limit => walks_iterate (fun passes => ?_) _ _
  split
  · refine Walks.bind (walks_pass hev own hbody) fun goesOn => ?_
    split <;> exact walks_pure _
  · exact walks_pure _

theorem walks_forItems (hev : EvaluatesByMoves P ev) (own : Option Name) {p : Pattern Name}
    {body : Stmt Name} (hp : Bears P (p.binders .loop)) (hbody : Bears P body.binders)
    (items : List Value) : Walks P (forItems ev own p span body items) := by
  induction items with
  | nil => exact walks_pure _
  | cons item items ih =>
      have hbind : Walks P (bindPattern p item .constant false span) :=
        walks_bindPattern item .constant false hp nofun
      have hitem := walks_inChild (hbind.bind fun _ => hev.stmt body hbody)
      refine Walks.bind (walks_attempt hitem) fun r => ?_
      refine Walks.bind (walks_afterPass own r) fun goesOn => ?_
      split
      · exact ih
      · exact walks_pure _

theorem walks_stmts (hev : EvaluatesByMoves P ev) (ss : List (Stmt Name))
    (h : Bears P (Stmts.binders ss)) : Walks P (stmts ev ss) := by
  induction ss with
  | nil => exact walks_pure _
  | cons s ss ih =>
      obtain ⟨hs, hss⟩ := bears_append.mp h
      exact Walks.bind (hev.stmt s hs) fun _ => ih hss

theorem walks_linkedNative (decl : Function Name) : Walks P (linkedNative decl) := by
  unfold linkedNative
  split
  · refine Walks.bind (walks_read _) fun r => ?_
    split
    · exact walks_pure _
    · exact walks_fail _ _
  · exact walks_pure _

theorem walks_declareFunction {decl : Function Name} (h : Bears P (Function.binders decl)) :
    Walks P (declareFunction decl span) := by
  refine Walks.bind (walks_linkedNative decl) fun nativeId => ?_
  refine Walks.bind (walks_makeFunction nativeId (.of_binders h)) fun f => ?_
  split
  next n hn => exact walks_bindName (Function.bears_name h hn) nofun _
  · exact walks_pure _

theorem walks_stmtStep (hev : EvaluatesByMoves P ev) (s : Stmt Name) (h : Bears P s.binders) :
    Walks P (stmtStep ev s) := by
  cases s with
  | expr _ e =>
      rw [Stmt.binders] at h
      exact Walks.bind (hev.expr e h) fun _ => walks_pure _
  | declare _ kind mutable p value =>
      simp only [Stmt.binders, bears_append] at h
      exact Walks.bind (hev.expr value h.2) fun v =>
        walks_bindPattern v kind mutable h.1 (by decide)
  | block _ body =>
      rw [Stmt.binders] at h
      exact walks_inChild (walks_stmts hev body h)
  | whileLoop _ own test body =>
      simp only [Stmt.binders, bears_append] at h
      exact walks_whileLoop hev own h.1 h.2
  | doLoop _ own body test =>
      simp only [Stmt.binders, bears_append] at h
      exact walks_doLoop hev own h.2 h.1
  | loop _ own count body =>
      simp only [Stmt.binders, bears_append] at h
      exact walks_countedLoop hev own h.1 h.2
  | forLoop _ own p iterable body =>
      simp only [Stmt.binders, bears_append] at h
      obtain ⟨⟨hp, hiterable⟩, hbody⟩ := h
      refine Walks.bind (hev.expr iterable hiterable) fun v => ?_
      exact Walks.bind (walks_spread v) fun items => walks_forItems hev own hp hbody items
  | breakLoop | continueLoop => exact walks_raise _
  | throwValue _ value =>
      rw [Stmt.binders] at h
      exact Walks.bind (hev.expr value h) fun v => walks_raise _
  | returnValue _ value | exitValue _ value =>
      rw [Stmt.binders] at h
      exact Walks.bind (walks_expr? hev h) fun v => walks_raise _
  | function _ decl =>
      rw [Stmt.binders] at h
      exact walks_declareFunction h
  | cls _ decl =>
      rw [Stmt.binders] at h
      exact walks_declareClass h
  | object _ decl =>
      rw [Stmt.binders] at h
      exact walks_declareObject hev h
  | enum _ decl =>
      cases decl
      simp only [Stmt.binders, bears_append] at h
      exact walks_declareEnum hev h.1 h.2

/-! ## Programs -/

/-- How a linked function is declared: it is made with the native its path stands for, and bound. -/
theorem declareFunction_linked {decl : Function Name} {n : Name} (m : Interpreter)
    (hlinked : decl.linked) (hn : decl.name = some n) :
    declareFunction decl span m =
      match m.linker.function decl.path with
      | .ok id => Eval.bind n (.constant (.function ⟨m.functions.size⟩)) span
          (m.addFunction ⟨m.text n, decl, m.env.current, some id⟩).2
      | .error kind => .raised (.failed ⟨.link kind, Span.none⟩) m := by
  obtain ⟨declSpan, path, linked, name, params, body⟩ := decl
  cases hlinked
  cases hn
  have hnative : linkedNative ⟨declSpan, path, true, some n, params, body⟩ m =
      match m.linker.function path with
      | .ok id => .done (some id) m
      | .error kind => .raised (.failed ⟨.link kind, Span.none⟩) m := by
    show (match m.linker.function path with
      | .ok id => (return some id : Eval (Option NativeFunctionId))
      | .error kind => fail (.link kind) Span.none) m = _
    cases m.linker.function path <;> rfl
  unfold declareFunction
  rw [bind_apply, hnative]
  cases m.linker.function path <;> rfl

/-- A linked function that was declared is a constant of the current scope. -/
theorem links_of_declareFunction {decl : Function Name} {n : Name} {m m' : Interpreter}
    (hlt : m.env.current.index < m.env.scopes.size) (hlinked : decl.linked)
    (hn : decl.name = some n) (htext : m.text n ≠ discarded)
    (hdone : declareFunction decl span m = .done () m') : m'.Links m.env.current decl n := by
  rw [declareFunction_linked m hlinked hn] at hdone
  cases hid : m.linker.function decl.path with
  | error kind =>
      rw [hid] at hdone
      cases hdone
  | ok id =>
      rw [hid] at hdone
      rcases bindName_eq_done.mp hdone with ⟨hdiscarded, -⟩ | ⟨-, -, rfl⟩
      · exact absurd hdiscarded htext
      · exact ⟨⟨m.functions.size⟩, _, id, Environment.own?_bindIn_self hlt,
          Array.getElem?_push_size, rfl, rfl, hid⟩

/-- Every evaluator goes by moves. -/
theorem evaluatesByMoves (P : Binder Name → Prop) (n : Nat) : EvaluatesByMoves P (evaluator n) := by
  -- An evaluation of bound `n + 1` evaluates its parts within the bound `n`.
  induction n with
  | zero =>
      exact ⟨fun _ _ => walks_unfinished, fun _ _ => walks_unfinished, Logic.evaluates _ 0,
        ⟨0, rfl⟩, fun _ _ _ _ _ _ _ _ _ hdone => nomatch hdone⟩
  | succ n ih =>
      refine ⟨fun e he => ?_, fun s hs => ?_, Logic.evaluates _ _, ⟨_, rfl⟩, ?_⟩
      · show Walks P (fun m => atLevel n (exprStep (evaluator n) e) m)
        rw [Logic.atLevel_eq]
        exact walks_exprStep ih e he
      · show Walks P (fun m => atLevel n (stmtStep (evaluator n) s) m)
        rw [Logic.atLevel_eq]
        exact walks_stmtStep ih s hs
      · intro span decl k m m' hlt hlinked hk htext hdone
        change atLevel n (stmtStep (evaluator n) (.function span decl)) m = _ at hdone
        rw [Logic.atLevel_eq] at hdone
        exact links_of_declareFunction hlt hlinked hk htext hdone

theorem walks_runStatements (hev : EvaluatesByMoves P ev) (last : Value) (ss : List (Stmt Name))
    (h : Bears P (Stmts.binders ss)) : Walks P (Interpreter.runStatements ev last ss) := by
  induction ss generalizing last with
  | nil => exact walks_pure _
  | cons s ss ih =>
      obtain ⟨hs, hss⟩ := bears_append.mp h
      have hvalue : Walks P (Interpreter.statementValue ev s) := by
        unfold Interpreter.statementValue
        split
        · rw [Stmt.binders] at hs
          exact hev.expr _ hs
        · exact Walks.bind (hev.stmt s hs) fun _ => walks_pure _
      refine Walks.bind (walks_attempt hvalue) fun r => ?_
      split
      · exact ih _ hss
      · exact walks_read _

/-- Programs go by moves. -/
theorem walks_run (p : Program Name) (h : Bears P (Stmts.binders p)) :
    Walks P (Interpreter.run p) :=
  walks_runStatements (evaluatesByMoves P _) _ p h

end IslandScript.Eval
