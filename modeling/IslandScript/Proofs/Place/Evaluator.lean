import IslandScript.Interpreter.Run
import IslandScript.Proofs.Logic.Evaluator
import IslandScript.Proofs.Place.Calls

/-!
# Where programs fail

The second half of the way through the evaluator: expressions, statements, and from them, by
induction on the bound, every evaluator and every program. A program whose code stands at the places
of a set, run where all code that is kept does, fails at such a place (`gives_run`).
-/

namespace IslandScript.Eval

variable {P : Places} {ev : Evaluator} {span : Span}

/-! ## Expressions -/

theorem placed_expr? (hev : EvaluatesPlaced P ev) {e? : Option (Expr Name)}
    (h : Covers P.code (Expr?.spans e?)) : Placed P (expr? ev e?) := by
  cases e? with
  | none => exact placed_pure _
  | some e => exact hev.expr e h

theorem placed_nameValue (n : Name) (h : P.fault span) : Placed P (nameValue n span) := by
  intro m hm
  unfold nameValue
  split
  · exact ⟨hm, trivial⟩
  · exact ⟨hm, fun _ => h⟩

theorem placed_unary (hev : EvaluatesPlaced P ev) (op : UnaryOp) {operand : Expr Name}
    (hoperand : Covers P.code operand.spans) (h : P.fault span) :
    Placed P (unary ev span op operand) := by
  refine Placed.bind (hev.expr operand hoperand) fun v => Placed.bind (placed_read _) fun r => ?_
  split
  · exact placed_pure _
  · exact placed_newList _
  · split
    · exact gives_failShowing (Expr.fault_of_covers hoperand)
    · exact gives_failShowing h

theorem placed_binary (hev : EvaluatesPlaced P ev) (op : BinaryOp) {left right : Expr Name}
    (hleft : Covers P.code left.spans) (hright : Covers P.code right.spans) :
    Placed P (binary ev op left right) := by
  have hl := Expr.fault_of_covers hleft
  have hr := Expr.fault_of_covers hright
  refine Placed.bind (hev.expr left hleft) fun v => ?_
  split
  · exact gives_failShowing hl
  · exact placed_pure _
  · refine Placed.bind (hev.expr right hright) fun w => Placed.bind (placed_read _) fun r => ?_
    split
    · exact placed_pure _
    · exact gives_failShowing hl
    · exact gives_failShowing hr

theorem placed_assign (hev : EvaluatesPlaced P ev) (target : Name) {value : Expr Name}
    (hvalue : Covers P.code value.spans) (h : P.fault span) :
    Placed P (assign ev span target value) := by
  refine Placed.bind (hev.expr value hvalue) fun v m hm => ?_
  split
  · exact ⟨⟨hm.functions, hm.classes⟩, trivial⟩
  · exact ⟨hm, fun _ => h⟩
  · exact ⟨hm, fun _ => h⟩

theorem placed_indexBy (v : Value) (is : List Value) (h : P.fault span) :
    Placed P (indexBy span v is) := by
  induction is generalizing v with
  | nil => exact placed_pure v
  | cons i is ih =>
      refine Placed.bind (placed_read _) fun r => ?_
      split
      · exact ih _
      · exact fun _ hm => ⟨hm, fun _ => h⟩

theorem placed_callee (hev : EvaluatesPlaced P ev) {target : Expr Name}
    (h : Covers P.code target.spans) : Placed P (callee ev target) := by
  unfold callee
  split
  next span object n =>
    obtain ⟨hspan, hobject⟩ := covers_cons.mp h
    refine Placed.bind (hev.expr object hobject) fun v => ?_
    exact placed_memberOf hev v n (P.fault_of_code _ hspan)
  · exact Placed.bind (hev.expr target h) fun v => placed_pure _

theorem placed_invokeFunction (hev : EvaluatesPlaced P ev) (target : Expr Name)
    (owner : Option ScopeId) (id : FunctionId) {args : List (Arg Name (Expr Name))}
    (hargs : Covers P.code (Args.spans args)) (h : P.fault span) :
    Placed P (invokeFunction ev span target owner id args) := by
  refine Gives.bind (gives_readFunction id) fun f? hf => ?_
  split
  · exact gives_unfinished
  next f =>
    have hf := hf f rfl
    have hreceiver : Placed P (receiverOf f owner target) := by
      unfold receiverOf
      split
      · exact placed_pure _
      · exact placed_read _
    refine Placed.bind hreceiver fun receiver => ?_
    refine Placed.bind (placed_arguments hev f.name (covers_function.mp hf).2.1 hargs h) fun vs => ?_
    exact placed_callFunction hev hf receiver vs h

theorem placed_invoke (hev : EvaluatesPlaced P ev) {target : Expr Name}
    {args : List (Arg Name (Expr Name))} (htarget : Covers P.code target.spans)
    (hargs : Covers P.code (Args.spans args)) (h : P.fault span) :
    Placed P (invoke ev span target args) := by
  refine Placed.bind (placed_callee hev htarget) fun called => ?_
  split
  · exact placed_invokeFunction hev target _ _ hargs h
  · exact Placed.bind (placed_invokeClass hev _ hargs h) fun s => placed_pure _
  · exact gives_failShowing (Expr.fault_of_covers htarget)

theorem placed_condition (hev : EvaluatesPlaced P ev) {e : Expr Name}
    (h : Covers P.code e.spans) : Placed P (condition ev e) := by
  refine Placed.bind (hev.expr e h) fun v => ?_
  split
  · exact placed_pure _
  · exact gives_failShowing (Expr.fault_of_covers h)

theorem placed_condition? (hev : EvaluatesPlaced P ev) {e? : Option (Expr Name)}
    (h : Covers P.code (Expr?.spans e?)) : Placed P (condition? ev e?) := by
  cases e? with
  | none => exact placed_pure _
  | some e => exact placed_condition hev h

theorem placed_comprehension (hev : EvaluatesPlaced P ev) {element iterable : Expr Name}
    {test : Option (Expr Name)} (p : Pattern Name) (helement : Covers P.code element.spans)
    (hiterable : Covers P.code iterable.spans) (htest : Covers P.code (Expr?.spans test))
    (found items : List Value) :
    Placed P (comprehension ev element p iterable test found items) := by
  induction items generalizing found with
  | nil => exact placed_pure _
  | cons item items ih =>
      have hspan := Expr.fault_of_covers hiterable
      have hone : Placed P (comprehended ev element p iterable test item) := by
        refine placed_within _ (Placed.bind (placed_bindPattern p item _ _ hspan) fun _ => ?_)
        refine Placed.bind (placed_condition? hev htest) fun b => ?_
        split
        · exact Placed.bind (hev.expr element helement) fun v => placed_pure _
        · exact placed_pure _
      exact Placed.bind hone fun v => ih _

theorem placed_sequence (hev : EvaluatesPlaced P ev) (last : Value) (es : List (Expr Name))
    (h : Covers P.code (Exprs.spans es)) : Placed P (sequence ev last es) := by
  induction es generalizing last with
  | nil => exact placed_pure _
  | cons e es ih =>
      obtain ⟨he, hes⟩ := covers_append.mp h
      exact Placed.bind (hev.expr e he) fun v => ih v hes

theorem placed_branchTaken (hev : EvaluatesPlaced P ev) (subject : Option Value) {e : Expr Name}
    (h : Covers P.code e.spans) : Placed P (branchTaken ev subject e) := by
  cases subject with
  | none => exact placed_condition hev h
  | some v => exact Placed.bind (hev.expr e h) fun w => placed_read _

theorem placed_branches (hev : EvaluatesPlaced P ev) (subject : Option Value)
    {otherwise : Option (Expr Name)} (bs : List (Branch (Expr Name)))
    (hbs : Covers P.code (Branches.spans bs)) (h : Covers P.code (Expr?.spans otherwise)) :
    Placed P (branches ev subject otherwise bs) := by
  induction bs with
  | nil => exact placed_expr? hev h
  | cons b bs ih =>
      obtain ⟨⟨-, hcondition, hbody⟩, hrest⟩ := List.forall_mem_cons.mp (covers_branches.mp hbs)
      refine Placed.bind (placed_branchTaken hev subject hcondition) fun taken => ?_
      split
      · exact hev.expr b.body hbody
      · exact ih (covers_branches.mpr hrest)

theorem placed_handled (hev : EvaluatesPlaced P ev) (error : Option Name)
    {handler : Option (Expr Name)} {r : Except Signal Value}
    (h : Covers P.code (Expr?.spans handler)) (hr : Caught P r) :
    Placed P (handled ev error handler r) := by
  unfold handled
  split
  next v e =>
    have hspan := Expr.fault_of_covers h
    refine placed_within _ (Placed.bind ?_ fun _ => hev.expr e h)
    cases error with
    | none => exact placed_pure _
    | some n => exact placed_bindName n _ hspan
  · exact placed_resume hr

theorem placed_tryCatch (hev : EvaluatesPlaced P ev) {body : Expr Name} (error : Option Name)
    {handler finalizer : Option (Expr Name)} (hbody : Covers P.code body.spans)
    (hhandler : Covers P.code (Expr?.spans handler))
    (hfinalizer : Covers P.code (Expr?.spans finalizer)) :
    Placed P (tryCatch ev body error handler finalizer) := by
  refine Gives.bind (gives_attempt (hev.expr body hbody)) fun r hr => ?_
  refine Gives.bind (gives_attempt (placed_handled hev error hhandler hr)) fun r' hr' => ?_
  split
  · exact gives_raise (hr' _ rfl)
  · exact Placed.bind (placed_expr? hev hfinalizer) fun _ => placed_resume hr'

/-- Expressions fail where they stand, or where the code does that they call. -/
theorem placed_exprStep (hev : EvaluatesPlaced P ev) (e : Expr Name)
    (h : Covers P.code e.spans) : Placed P (exprStep ev e) := by
  have hspan := Expr.fault_of_covers h
  cases e with
  | value => exact placed_pure _
  | name _ n => exact placed_nameValue n hspan
  | unary _ op operand => exact placed_unary hev op (covers_cons.mp h).2 hspan
  | binary _ op left right =>
      simp only [Expr.spans, covers_append, covers_cons] at h
      obtain ⟨⟨-, hleft⟩, hright⟩ := h
      exact placed_binary hev op hleft hright
  | assign _ target value => exact placed_assign hev target (covers_cons.mp h).2 hspan
  | member _ target n =>
      refine Placed.bind (hev.expr target (covers_cons.mp h).2) fun v => ?_
      exact Placed.bind (placed_memberOf hev v n hspan) fun r => placed_pure _
  | index _ target args =>
      simp only [Expr.spans, covers_append, covers_cons] at h
      obtain ⟨⟨-, htarget⟩, hargs⟩ := h
      refine Placed.bind (hev.expr target htarget) fun v => ?_
      exact Placed.bind (placed_spreadArgs hev args hargs) fun vs => placed_indexBy v vs hspan
  | invoke _ target args =>
      simp only [Expr.spans, covers_append, covers_cons] at h
      obtain ⟨⟨-, htarget⟩, hargs⟩ := h
      exact placed_invoke hev htarget hargs hspan
  | list _ elements =>
      exact Placed.bind (placed_exprs hev elements (covers_cons.mp h).2) fun vs => placed_newList vs
  | comprehension _ element p iterable test =>
      simp only [Expr.spans, covers_append, covers_cons] at h
      obtain ⟨⟨⟨-, helement⟩, hiterable⟩, htest⟩ := h
      have hplace := Expr.fault_of_covers hiterable
      refine Placed.bind (hev.expr iterable hiterable) fun v => ?_
      refine Placed.bind (placed_spread v hplace) fun items => ?_
      refine Placed.bind (placed_comprehension hev p helement hiterable htest [] items) fun vs => ?_
      exact placed_newList vs
  | lambda _ decl => exact placed_makeFunction none (covers_cons.mp h).2
  | block _ items => exact placed_within _ (placed_sequence hev _ items (covers_cons.mp h).2)
  | ifElse _ test body otherwise =>
      simp only [Expr.spans, covers_append, covers_cons] at h
      obtain ⟨⟨⟨-, htest⟩, hbody⟩, hotherwise⟩ := h
      refine Placed.bind (placed_condition hev htest) fun b => ?_
      split
      · exact hev.expr body hbody
      · exact placed_expr? hev hotherwise
  | whenCase _ subject bs otherwise =>
      simp only [Expr.spans, covers_append, covers_cons] at h
      obtain ⟨⟨-, hbs⟩, hotherwise⟩ := h
      refine Placed.bind ?_ fun v => placed_branches hev v bs hbs hotherwise
      cases subject with
      | none => exact placed_pure _
      | some n => exact Placed.bind (placed_nameValue n hspan) fun v => placed_pure _
  | tryCatch _ body error handler finalizer =>
      simp only [Expr.spans, covers_append, covers_cons] at h
      obtain ⟨⟨⟨-, hbody⟩, hhandler⟩, hfinalizer⟩ := h
      exact placed_tryCatch hev error hbody hhandler hfinalizer
  | statement _ s => exact Placed.bind (hev.stmt s (covers_cons.mp h).2) fun _ => placed_pure _

/-! ## Statements -/

theorem placed_afterPass (own : Option Name) {r : Except Signal Unit} (hr : Caught P r) :
    Placed P (afterPass own r) := by
  unfold afterPass
  split
  · exact placed_pure _
  · split
    · exact placed_pure _
    · exact gives_raise trivial
  · split
    · exact placed_pure _
    · exact gives_raise trivial
  · exact gives_raise (hr _ rfl)

theorem placed_pass (hev : EvaluatesPlaced P ev) (own : Option Name) {body : Stmt Name}
    (h : Covers P.code body.spans) : Placed P (pass ev own body) := by
  refine Gives.bind (gives_attempt (placed_within _ (hev.stmt body h))) fun r hr => ?_
  exact placed_afterPass own hr

theorem placed_whileLoop (hev : EvaluatesPlaced P ev) (own : Option Name) {test : Expr Name}
    {body : Stmt Name} (htest : Covers P.code test.spans) (hbody : Covers P.code body.spans) :
    Placed P (whileLoop ev own test body) := by
  refine placed_iterate (fun _ => ?_) _ _
  refine Placed.bind (placed_condition hev htest) fun b => ?_
  split
  · refine Placed.bind (placed_pass hev own hbody) fun goesOn => ?_
    split <;> exact placed_pure _
  · exact placed_pure _

theorem placed_doLoop (hev : EvaluatesPlaced P ev) (own : Option Name) {test : Expr Name}
    {body : Stmt Name} (htest : Covers P.code test.spans) (hbody : Covers P.code body.spans) :
    Placed P (doLoop ev own body test) := by
  refine placed_iterate (fun _ => ?_) _ _
  refine Placed.bind (placed_pass hev own hbody) fun goesOn => ?_
  split
  · refine Placed.bind (placed_condition hev htest) fun b => ?_
    split <;> exact placed_pure _
  · exact placed_pure _

theorem placed_countedLoop (hev : EvaluatesPlaced P ev) (own : Option Name)
    {count : Option (Expr Name)} {body : Stmt Name} (hcount : Covers P.code (Expr?.spans count))
    (hbody : Covers P.code body.spans) : Placed P (countedLoop ev own count body) := by
  have hlimit : Placed P (loopLimit ev count) := by
    cases count with
    | none => exact placed_pure _
    | some e =>
        refine Placed.bind (hev.expr e hcount) fun v => ?_
        split
        · exact placed_pure _
        · exact gives_failShowing (Expr.fault_of_covers hcount)
  refine Placed.bind hlimit fun limit => placed_iterate (fun passes => ?_) _ _
  split
  · refine Placed.bind (placed_pass hev own hbody) fun goesOn => ?_
    split <;> exact placed_pure _
  · exact placed_pure _

theorem placed_forItems (hev : EvaluatesPlaced P ev) (own : Option Name) (p : Pattern Name)
    {body : Stmt Name} (hbody : Covers P.code body.spans) (h : P.fault span)
    (items : List Value) : Placed P (forItems ev own p span body items) := by
  induction items with
  | nil => exact placed_pure _
  | cons item items ih =>
      have hitem := placed_within .pushChild
        (Placed.bind (placed_bindPattern p item .constant false h) fun _ => hev.stmt body hbody)
      refine Gives.bind (gives_attempt hitem) fun r hr => ?_
      refine Placed.bind (placed_afterPass own hr) fun goesOn => ?_
      split
      · exact ih
      · exact placed_pure _

theorem placed_stmts (hev : EvaluatesPlaced P ev) (ss : List (Stmt Name))
    (h : Covers P.code (Stmts.spans ss)) : Placed P (stmts ev ss) := by
  induction ss with
  | nil => exact placed_pure _
  | cons s ss ih =>
      obtain ⟨hs, hss⟩ := covers_append.mp h
      exact Placed.bind (hev.stmt s hs) fun _ => ih hss

theorem placed_declareFunction {decl : Function Name} (hdecl : Covers P.code (Function.spans decl))
    (h : P.fault span) : Placed P (declareFunction decl span) := by
  have hlinked : Placed P (linkedNative decl) := by
    unfold linkedNative
    split
    · refine Placed.bind (placed_read _) fun r => ?_
      split
      · exact placed_pure _
      · exact gives_failLink
    · exact placed_pure _
  refine Placed.bind hlinked fun nativeId => ?_
  refine Placed.bind (placed_makeFunction nativeId hdecl) fun f => ?_
  split
  · exact placed_bindName _ _ h
  · exact placed_pure _

/-- Statements fail where they stand, or where the code does that they call. -/
theorem placed_stmtStep (hev : EvaluatesPlaced P ev) (s : Stmt Name)
    (h : Covers P.code s.spans) : Placed P (stmtStep ev s) := by
  have hspan := Stmt.fault_of_covers h
  cases s with
  | expr _ e => exact Placed.bind (hev.expr e (covers_cons.mp h).2) fun _ => placed_pure _
  | declare _ kind mutable p value =>
      refine Placed.bind (hev.expr value (covers_cons.mp h).2) fun v => ?_
      exact placed_bindPattern p v kind mutable hspan
  | block _ body => exact placed_within _ (placed_stmts hev body (covers_cons.mp h).2)
  | whileLoop _ own test body =>
      simp only [Stmt.spans, covers_append, covers_cons] at h
      obtain ⟨⟨-, htest⟩, hbody⟩ := h
      exact placed_whileLoop hev own htest hbody
  | doLoop _ own body test =>
      simp only [Stmt.spans, covers_append, covers_cons] at h
      obtain ⟨⟨-, hbody⟩, htest⟩ := h
      exact placed_doLoop hev own htest hbody
  | loop _ own count body =>
      simp only [Stmt.spans, covers_append, covers_cons] at h
      obtain ⟨⟨-, hcount⟩, hbody⟩ := h
      exact placed_countedLoop hev own hcount hbody
  | forLoop _ own p iterable body =>
      simp only [Stmt.spans, covers_append, covers_cons] at h
      obtain ⟨⟨-, hiterable⟩, hbody⟩ := h
      have hplace := Expr.fault_of_covers hiterable
      refine Placed.bind (hev.expr iterable hiterable) fun v => ?_
      refine Placed.bind (placed_spread v hplace) fun items => ?_
      exact placed_forItems hev own p hbody hplace items
  | breakLoop | continueLoop => exact gives_raise trivial
  | throwValue _ value =>
      exact Placed.bind (hev.expr value (covers_cons.mp h).2) fun v => gives_raise trivial
  | returnValue _ value | exitValue _ value =>
      exact Placed.bind (placed_expr? hev (covers_cons.mp h).2) fun v => gives_raise trivial
  | function _ decl => exact placed_declareFunction (covers_cons.mp h).2 hspan
  | cls _ decl => exact placed_declareClass (covers_cons.mp h).2 hspan
  | object _ decl => exact placed_declareObject hev (covers_cons.mp h).2 hspan
  | enum _ decl =>
      simp only [Stmt.spans, covers_append, covers_cons] at h
      obtain ⟨⟨-, -, hcls⟩, hentries⟩ := h
      exact placed_declareEnum hev hcls hentries hspan

/-! ## Programs -/

/-- Every evaluator fails where the trees do that it evaluates. -/
theorem evaluatesPlaced (P : Places) (n : Nat) : EvaluatesPlaced P (evaluator n) := by
  -- An evaluation of bound `n + 1` evaluates its parts within the bound `n`.
  induction n with
  | zero => exact ⟨fun _ _ => gives_unfinished, fun _ _ => gives_unfinished⟩
  | succ n ih =>
      refine ⟨fun e he => ?_, fun s hs => ?_⟩
      · show Placed P (fun m => atLevel n (exprStep (evaluator n) e) m)
        rw [Logic.atLevel_eq]
        exact placed_exprStep ih e he
      · show Placed P (fun m => atLevel n (stmtStep (evaluator n) s) m)
        rw [Logic.atLevel_eq]
        exact placed_stmtStep ih s hs

/-- The error a program ends with, if any, is at a place where errors may be. -/
def FailsIn (P : Places) (r : Except EvalError RunResult) : Prop :=
  ∀ e, r = .error e → e.FaultIn P.fault

theorem failsIn_ending {m : Interpreter} {s : Signal} (hs : s.FaultIn P.fault) (h : P.fault span) :
    FailsIn P (m.ending span s) := by
  cases s with
  | returnValue v | exitValue v => exact nofun
  | throwValue v | breakLoop label | continueLoop label =>
      rintro _ ⟨⟩
      exact fun _ => h
  | failed e =>
      rintro _ ⟨⟩
      exact hs

theorem gives_runStatements (hev : EvaluatesPlaced P ev) (last : Value) (ss : List (Stmt Name))
    (h : Covers P.code (Stmts.spans ss)) :
    Gives P (Interpreter.runStatements ev last ss) (FailsIn P) := by
  induction ss generalizing last with
  | nil => exact gives_pure nofun
  | cons s ss ih =>
      obtain ⟨hs, hss⟩ := covers_append.mp h
      have hspan := Stmt.fault_of_covers hs
      have hvalue : Placed P (Interpreter.statementValue ev s) := by
        unfold Interpreter.statementValue
        split
        · exact hev.expr _ (covers_cons.mp hs).2
        · exact Placed.bind (hev.stmt s hs) fun _ => placed_pure _
      refine Gives.bind (gives_attempt hvalue) fun r hr => ?_
      split
      · exact ih _ hss
      · exact gives_read fun m _ => failsIn_ending (hr _ rfl) hspan

/-- Programs fail where they stand, or where the code does that they call. -/
theorem gives_run (p : Program Name) (h : Covers P.code (Stmts.spans p)) :
    Gives P (Interpreter.run p) (FailsIn P) :=
  gives_runStatements (evaluatesPlaced P _) _ p h

end IslandScript.Eval
