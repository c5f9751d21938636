import IslandScript.Parser.Expression
import IslandScript.Proofs.Parser.Binders

/-!
# What expressions bind

The names of handlers, comprehensions and lambdas, and what the nested parts bind. The name of an
argument and the target of an assignment were read as expressions, which bind nothing.
-/

namespace IslandScript.Parser

variable {g : Grammar String}

/-! ## Bodies, conditionals and `try` -/

theorem binds_bodyItem (hg : GrammarBinds g) : Binds [] (bodyItem g) Expr.binders := by
  refine silent_kind.bind fun k => ?_
  split
  · split
    · refine silent_here.bind fun span => hg.stmt.bind fun s => binds_pure ?_
      rw [Expr.binders, List.nil_append]
    · exact hg.expr
  · exact hg.expr

theorem binds_exprBody (hg : GrammarBinds g) : Binds [] (exprBody g) Expr.binders := by
  refine silent_here.bind fun span => (silent_eatLine _).bind fun b => ?_
  split
  · refine (binds_bodyItem hg).untilBrace.bind fun items => binds_pure ?_
    rw [Expr.binders, exprs_binders, List.nil_append]
  · exact binds_bodyItem hg

theorem binds_parenthesized (hg : GrammarBinds g) : Binds [] (parenthesized g) Expr.binders :=
  (silent_expect _).bind fun _ => hg.expr.bind fun _ =>
    (silent_expect _).bind fun _ => binds_pure rfl

theorem binds_ifElse (hg : GrammarBinds g) : Binds [] (ifElse g) Expr.binders := by
  refine (silent_expectWord _).bind fun span => (binds_parenthesized hg).bind fun condition => ?_
  refine (binds_exprBody hg).bind fun body => silent_skipLineEnds.bind fun _ => ?_
  refine (silent_eatWord _).bind fun b => ?_
  split
  · refine (binds_exprBody hg).bind fun otherwise => binds_pure ?_
    simp [Expr.binders, Expr?.binders]
  · exact binds_pure (by simp [Expr.binders, Expr?.binders])

theorem binds_branch (hg : GrammarBinds g) :
    Binds [] (branch g) fun b => b.condition.binders ++ b.body.binders :=
  silent_here.bind fun _ => hg.expr.bind fun _ => (silent_expectLine _).bind fun _ =>
    (binds_exprBody hg).bind fun _ => silent_skipLineEnds.bind fun _ => binds_pure rfl

theorem binds_elseBranch (hg : GrammarBinds g) : Binds [] (elseBranch g) Expr.binders := by
  refine (silent_expectLine _).bind fun _ => (binds_exprBody hg).bind fun body => ?_
  refine silent_skipLineEnds.bind fun _ => (silent_at? _).bind fun b => ?_
  split
  · exact binds_pure rfl
  · exact silent_here.bind fun _ => binds_fail

theorem binds_branches (hg : GrammarBinds g) :
    Binds [] (branches g) fun r => Branches.binders r.1 ++ Expr?.binders r.2 := by
  refine Binds.bind (f := fun r => Branches.binders r.1.reverse ++ Expr?.binders r.2)
    (binds_loop (fun found => Branches.binders found.reverse) (fun found => ?_) rfl)
    fun r => binds_pure rfl
  refine (silent_at? _).bind fun b => ?_
  split
  · exact binds_pure (List.append_nil _)
  · refine (silent_eatWord _).bind fun b => ?_
    split
    · exact (binds_elseBranch hg).bind fun e => binds_pure rfl
    · refine (binds_branch hg).bind fun b => binds_pure ?_
      simp [StepBinders, branches_binders]

theorem silent_subject : Silent subject := by
  refine (silent_eat _).bind fun b => ?_
  split
  · exact silent_expectName.bind fun _ => (silent_expect _).bind fun _ => binds_pure rfl
  · exact binds_pure rfl

theorem binds_whenCase (hg : GrammarBinds g) : Binds [] (whenCase g) Expr.binders := by
  refine (silent_expectWord _).bind fun span => silent_subject.bind fun subject => ?_
  refine (silent_expectLine _).bind fun _ => (binds_branches hg).bind fun r => ?_
  exact (silent_expect _).bind fun _ => binds_pure (by rw [Expr.binders, List.nil_append])

theorem binds_caughtName :
    Binds [] caughtName fun n => n.toList.map (⟨.handler, ·⟩ : String → Binder String) := by
  refine (silent_eat _).bind fun b => ?_
  split
  · refine (binds_declaredName (k := .handler) nofun).bind fun n => ?_
    exact (silent_expect _).bind fun _ => binds_pure rfl
  · exact binds_pure rfl

theorem binds_catchPart (hg : GrammarBinds g) : Binds [] (catchPart g) fun r =>
    r.1.toList.map (⟨.handler, ·⟩) ++ Expr?.binders r.2 := by
  refine (silent_eatWord _).bind fun b => ?_
  split
  · refine binds_caughtName.bind fun error => (binds_exprBody hg).bind fun handler => ?_
    exact silent_skipLineEnds.bind fun _ => binds_pure rfl
  · exact binds_pure rfl

theorem binds_finallyPart (hg : GrammarBinds g) : Binds [] (finallyPart g) Expr?.binders := by
  refine (silent_eatWord _).bind fun b => ?_
  split
  · exact (binds_exprBody hg).bind fun e => binds_pure rfl
  · exact binds_pure rfl

theorem binds_tryCatch (hg : GrammarBinds g) : Binds [] (tryCatch g) Expr.binders := by
  refine (silent_expectWord _).bind fun span => (binds_exprBody hg).bind fun body => ?_
  refine silent_skipLineEnds.bind fun _ => (binds_catchPart hg).bind fun r => ?_
  refine (binds_finallyPart hg).bind fun finalizer => binds_pure ?_
  simp [Expr.binders]

/-! ## Lists and lambdas -/

theorem binds_comprehension (hg : GrammarBinds g) (span : Span) (element : Expr String) :
    Binds element.binders (comprehension g span element) Expr.binders := by
  refine (silent_expectWord _).bind fun _ => ?_
  refine (binds_pattern (k := .comprehension) nofun).bind fun names => ?_
  refine (silent_expect _).bind fun _ => hg.expr.bind fun iterable => ?_
  refine silent_skipLineEnds.bind fun _ => (silent_eatWord _).bind fun b => ?_
  have hend (condition : Option (Expr String)) :
      Binds (element.binders ++ names.binders .comprehension ++ iterable.binders ++
          Expr?.binders condition)
        (do
          skipLineEnds
          let _ ← expect .rightBracket
          return Expr.comprehension span element names iterable condition) Expr.binders :=
    silent_skipLineEnds.bind fun _ => (silent_expect _).bind fun _ => binds_pure
      (by rw [Expr.binders])
  cases b with
  | true => exact Binds.bind (hg.expr.map fun e => by rw [Expr?.binders]) hend
  | false =>
      have hnone := hend none
      rw [Expr?.binders, List.append_nil] at hnone
      exact hnone

theorem binds_listExpr (hg : GrammarBinds g) : Binds [] (listExpr g) Expr.binders := by
  refine (silent_expectLine _).bind fun span => (silent_eat _).bind fun b => ?_
  split
  · exact binds_pure (by rw [Expr.binders, Exprs.binders])
  · refine hg.expr.commaList.bind fun elements => silent_skipLineEnds.bind fun _ => ?_
    refine (silent_atWord? _).bind fun isFor => ?_
    split
    next element =>
      rw [List.nil_append, List.flatMap_singleton]
      exact binds_comprehension hg span element
    · refine (silent_expect _).bind fun _ => binds_pure ?_
      rw [Expr.binders, exprs_binders, List.nil_append]

/-- The parameters of a lambda are names like any other. -/
theorem binds_lambdaParam :
    Binds [] lambdaParam fun p => [⟨.lambdaParameter, p.name⟩] ++ Expr?.binders p.default := by
  intro s a s' hrun
  obtain ⟨⟨n, span⟩, mid, hname, h⟩ := bind_eq_ok.mp hrun
  obtain ⟨hpending, hwarnings⟩ := pending_of_expectName hname
  cases h
  refine ⟨[⟨⟨.lambdaParameter, n⟩, span⟩], ⟨hpending, fun o ho hlambda => ?_, ?_⟩, rfl⟩
  · cases List.mem_singleton.mp ho
    exact (hlambda rfl).elim
  · exact hwarnings.trans (List.append_nil _).symm

theorem binds_lambdaParams : Binds [] lambdaParams (Params.binders .lambdaParameter) := by
  refine (silent_eat _).bind fun b => ?_
  split
  · exact binds_pure rfl
  · refine Binds.bind (f := fun found => Params.binders .lambdaParameter found.reverse)
      (binds_loop (fun found => Params.binders .lambdaParameter found.reverse) (fun found => ?_) rfl)
      fun found => (silent_expect _).bind fun _ => binds_pure rfl
    refine binds_lambdaParam.bind fun p => (silent_eat _).bind fun b => ?_
    split <;> exact binds_pure (by simp [StepBinders, params_binders])

theorem binds_lambda (hg : GrammarBinds g) : Binds [] (lambda g) Expr.binders := by
  refine (silent_expect _).bind fun span => binds_lambdaParams.bind fun params => ?_
  refine (binds_exprBody hg).bind fun body => binds_pure ?_
  simp [Expr.binders, Lambda.binders, Stmt?.binders, Stmt.binders, Expr?.binders]

/-! ## Terminals and postfixes -/

theorem binds_terminal (hg : GrammarBinds g) : Binds [] (terminal g) Expr.binders := by
  refine silent_get.bind fun s => ?_
  split
  · exact silent_advance.bind fun _ => binds_pure (by rw [Expr.binders])
  · exact silent_advance.bind fun _ => binds_pure (by rw [Expr.binders])
  · exact binds_parenthesized hg
  · exact (binds_listExpr hg).inside _
  · exact (binds_lambda hg).inside _
  · exact (binds_ifElse hg).inside _
  · exact (binds_whenCase hg).inside _
  · exact (binds_tryCatch hg).inside _
  · exact binds_fail

theorem binds_indexArg (hg : GrammarBinds g) : Binds [] (indexArg g) (·.expr.binders) :=
  silent_here.bind fun _ => (silent_eat _).bind fun _ => hg.expr.bind fun _ => binds_pure rfl

/-- The name of an argument binds nothing. -/
theorem binds_callArg (hg : GrammarBinds g) : Binds [] (callArg g) (·.expr.binders) := by
  refine silent_here.bind fun span => (silent_eat _).bind fun spread => ?_
  refine hg.spread.bind fun e => (silent_eat _).bind fun b => ?_
  split
  · split
    · exact binds_fail
    next n hname =>
      rw [Expr.binders_of_name? hname]
      exact hg.spread.bind fun value => binds_pure rfl
  · exact binds_pure rfl

theorem binds_args {arg : Parser String (Arg String (Expr String))} (close : Symbol)
    (harg : Binds [] arg (·.expr.binders)) : Binds [] (args arg close) Args.binders := by
  refine silent_skipLineEnds.bind fun _ => (silent_eat _).bind fun b => ?_
  split
  · exact binds_pure rfl
  · refine harg.commaList.bind fun found => silent_skipLineEnds.bind fun _ => ?_
    exact (silent_expect _).bind fun _ => binds_pure (args_binders found)

theorem binds_callArgs (hg : GrammarBinds g) : Binds [] (callArgs g) Args.binders :=
  binds_args _ (binds_callArg hg)

theorem binds_postfixRound (hg : GrammarBinds g) (target : Expr String) :
    Binds target.binders (postfixRound g target) (StepBinders Expr.binders Expr.binders) := by
  refine silent_get.bind fun s => ?_
  split
  · refine silent_advance.bind fun _ => silent_expectName.bind fun n => binds_pure ?_
    rw [StepBinders, Expr.binders]
  · refine silent_advance.bind fun _ => ?_
    refine ((binds_args _ (binds_indexArg hg)).inside _).bind fun as => binds_pure ?_
    rw [StepBinders, Expr.binders]
  · refine silent_advance.bind fun _ => ?_
    refine ((binds_callArgs hg).inside _).bind fun as => binds_pure ?_
    rw [StepBinders, Expr.binders]
  · exact binds_pure rfl

theorem binds_postfixed (hg : GrammarBinds g) : Binds [] (postfixed g) Expr.binders :=
  (binds_terminal hg).bind fun _ => binds_loop Expr.binders (binds_postfixRound hg) rfl

/-! ## Operators -/

theorem binds_unaryStep (hg : GrammarBinds g) : Binds [] (unaryStep g) Expr.binders := by
  refine silent_kind.bind fun k => ?_
  split
  · refine silent_advance.bind fun t => hg.unary.bind fun e => binds_pure ?_
    rw [Expr.binders, List.nil_append]
  · exact binds_postfixed hg

theorem binds_chain (level : Level String) {operand : Parser String (Expr String)}
    (h : Binds [] operand Expr.binders) : Binds [] (chain level operand) Expr.binders := by
  refine h.bind fun left => binds_loop Expr.binders (fun left => ?_) rfl
  refine silent_kind.bind fun k => ?_
  split
  · exact binds_pure rfl
  · refine silent_advance.bind fun t => h.bind fun right => binds_pure ?_
    rw [StepBinders, Expr.binders]

theorem binds_infixed (hg : GrammarBinds g) : Binds [] (infixed g) Expr.binders := by
  unfold infixed
  induction levels with
  | nil => exact binds_unaryStep hg
  | cons level levels ih => exact binds_chain level ih

theorem binds_spreadStep (hg : GrammarBinds g) : Binds [] (spreadStep g) Expr.binders := by
  refine (silent_at? _).bind fun b => ?_
  split
  · refine silent_advance.bind fun t => (binds_infixed hg).bind fun e => binds_pure ?_
    rw [Expr.binders, List.nil_append]
  · exact binds_infixed hg

/-- What is assigned to is a name, which binds nothing. -/
theorem Binds.assignment {α : Type} {left : Expr String} {c : String → Parser String α}
    {all : α → List (Binder String)} (hc : left.binders = [] → ∀ n, Binds [] (c n) all) :
    Binds left.binders (assignmentTarget left >>= c) all := by
  unfold assignmentTarget
  split
  next n hname =>
    have hleft := Expr.binders_of_name? hname
    rw [hleft]
    exact Silent.bind (binds_pure rfl) (hc hleft)
  · exact fun _ _ _ hrun => nomatch hrun

/-- An expression binds what its parts do. The target of a compound assignment stands there twice,
but it binds nothing. -/
theorem binds_exprStep (hg : GrammarBinds g) : Binds [] (exprStep g) Expr.binders := by
  refine (binds_spreadStep hg).bind fun left => (silent_at? _).bind fun b => ?_
  rw [List.nil_append]
  split
  · refine silent_advance.bind fun t => Binds.assignment fun hleft target => ?_
    exact hg.expr.bind fun value => binds_pure (by rw [Expr.binders, List.nil_append])
  · refine silent_kind.bind fun k => ?_
    split
    · refine silent_advance.bind fun t => Binds.assignment fun hleft target => ?_
      refine hg.expr.bind fun value => binds_pure ?_
      rw [Expr.binders, Expr.binders, hleft]
    · exact binds_pure rfl

end IslandScript.Parser
