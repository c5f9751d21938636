import IslandScript.Parser.Expression
import IslandScript.Proofs.Parser.Declarations

/-!
# What the parsers of expressions build

An expression declares what its parts declare, and lambdas. The parameters of a lambda are bare names,
so none of them is variadic, mutable or has a marker.
-/

namespace IslandScript.Parser

variable {g : Grammar String} {cs : List String}

/-! ## Bodies, conditionals and `try` -/

theorem builds_bodyItem (hg : GrammarBuilds g) : BuildsExpr cs (bodyItem g) := by
  refine stays_kind.bind fun k => ?_
  split
  · split
    · refine stays_here.bind fun span => (hg.stmt cs).bind fun s hs => builds_pure ?_
      rwa [Expr.declarations]
    · exact hg.expr cs
  · exact hg.expr cs

theorem builds_exprBody (hg : GrammarBuilds g) : BuildsExpr cs (exprBody g) := by
  refine stays_here.bind fun span => (stays_eatLine _).bind fun b => ?_
  split
  · refine (builds_bodyItem hg).untilBrace.bind fun items hitems => builds_pure ?_
    rw [Expr.declarations]
    exact wellDeclared_exprs.mpr hitems
  · exact builds_bodyItem hg

theorem builds_parenthesized (hg : GrammarBuilds g) : BuildsExpr cs (parenthesized g) :=
  (stays_expect _).bind fun _ => (hg.expr cs).bind fun _ he =>
    (stays_expect _).bind fun _ => builds_pure he

/-- An expression that may be missing. -/
abbrev BuildsExpr? (cs : List String) (p : Parser String (Option (Expr String))) : Prop :=
  Builds cs p fun e? => WellDeclared (Expr?.declarations (innermost cs) e?)

theorem BuildsExpr.some {p : Parser String (Expr String)} (hp : BuildsExpr cs p) :
    BuildsExpr? cs (some <$> p) :=
  hp.map fun e he => by rwa [Expr?.declarations]

theorem builds_none : BuildsExpr? cs (pure none) := builds_pure (by simp)

theorem builds_ifElse (hg : GrammarBuilds g) : BuildsExpr cs (ifElse g) := by
  refine (stays_expectWord _).bind fun span => ?_
  refine (builds_parenthesized hg).bind fun condition hcondition => ?_
  refine (builds_exprBody hg).bind fun body hbody => stays_skipLineEnds.bind fun _ => ?_
  refine (stays_eatWord _).bind fun b => ?_
  split
  · refine (builds_exprBody hg).bind fun otherwise hotherwise => builds_pure ?_
    simp [Expr.declarations, hcondition, hbody, hotherwise]
  · apply builds_pure
    simp [Expr.declarations, hcondition, hbody]

theorem builds_branch (hg : GrammarBuilds g) : Builds cs (branch g) fun b =>
    WellDeclared (b.condition.declarations (innermost cs)) ∧
      WellDeclared (b.body.declarations (innermost cs)) :=
  stays_here.bind fun _ => (hg.expr cs).bind fun _ hcondition => (stays_expectLine _).bind fun _ =>
    (builds_exprBody hg).bind fun _ hbody => stays_skipLineEnds.bind fun _ =>
      builds_pure ⟨hcondition, hbody⟩

theorem builds_elseBranch (hg : GrammarBuilds g) : BuildsExpr cs (elseBranch g) := by
  refine (stays_expectLine _).bind fun _ => (builds_exprBody hg).bind fun body hbody => ?_
  refine stays_skipLineEnds.bind fun _ => (stays_at? _).bind fun b => ?_
  split
  · exact builds_pure hbody
  · exact stays_here.bind fun _ => builds_fail

theorem builds_branches (hg : GrammarBuilds g) : Builds cs (branches g) fun r =>
    WellDeclared (Branches.declarations (innermost cs) r.1) ∧
      WellDeclared (Expr?.declarations (innermost cs) r.2) := by
  refine Builds.bind (Q := fun r => WellDeclared (Branches.declarations (innermost cs) r.1) ∧
      WellDeclared (Expr?.declarations (innermost cs) r.2))
    (builds_loop (fun found => WellDeclared (Branches.declarations (innermost cs) found))
      (fun found hfound => ?_) (by simp)) fun r hr => builds_pure (by simpa using hr)
  refine (stays_at? _).bind fun b => ?_
  split
  · exact builds_pure ⟨hfound, by simp⟩
  · refine (stays_eatWord _).bind fun b => ?_
    split
    · refine (builds_elseBranch hg).bind fun e he => builds_pure ⟨hfound, ?_⟩
      rwa [Expr?.declarations]
    · refine (builds_branch hg).bind fun b hb => builds_pure ?_
      rw [wellDeclared_branches] at hfound
      exact wellDeclared_branches.mpr (List.forall_mem_cons.mpr ⟨hb, hfound⟩)

theorem stays_subject : Stays cs subject := by
  refine (stays_eat _).bind fun b => ?_
  split
  · exact stays_expectName.bind fun _ => (stays_expect _).bind fun _ => stays_pure
  · exact stays_pure

theorem builds_whenCase (hg : GrammarBuilds g) : BuildsExpr cs (whenCase g) := by
  refine (stays_expectWord _).bind fun span => stays_subject.bind fun subject => ?_
  refine (stays_expectLine _).bind fun _ => (builds_branches hg).bind fun r hr => ?_
  refine (stays_expect _).bind fun _ => builds_pure ?_
  rw [Expr.declarations]
  exact wellDeclared_append.mpr hr

theorem stays_caughtName : Stays cs caughtName := by
  refine (stays_eat _).bind fun b => ?_
  split
  · exact stays_declaredName.bind fun n => (stays_expect _).bind fun _ => stays_pure
  · exact stays_pure

theorem builds_catchPart (hg : GrammarBuilds g) : Builds cs (catchPart g) fun r =>
    WellDeclared (Expr?.declarations (innermost cs) r.2) := by
  refine (stays_eatWord _).bind fun b => ?_
  split
  · refine stays_caughtName.bind fun error => (builds_exprBody hg).bind fun handler hhandler => ?_
    refine stays_skipLineEnds.bind fun _ => builds_pure ?_
    rwa [Expr?.declarations]
  · exact builds_pure (by simp)

theorem builds_finallyPart (hg : GrammarBuilds g) : BuildsExpr? cs (finallyPart g) := by
  refine (stays_eatWord _).bind fun b => ?_
  split
  · refine (builds_exprBody hg).bind fun e he => builds_pure ?_
    rwa [Expr?.declarations]
  · exact builds_none

theorem builds_tryCatch (hg : GrammarBuilds g) : BuildsExpr cs (tryCatch g) := by
  refine (stays_expectWord _).bind fun span => (builds_exprBody hg).bind fun body hbody => ?_
  refine stays_skipLineEnds.bind fun _ => (builds_catchPart hg).bind fun r hr => ?_
  refine (builds_finallyPart hg).bind fun finalizer hfinalizer => builds_pure ?_
  rw [Expr.declarations, wellDeclared_append, wellDeclared_append]
  exact ⟨⟨hbody, hr⟩, hfinalizer⟩

/-! ## Lists and lambdas -/

theorem builds_comprehension (hg : GrammarBuilds g) (span : Span) {element : Expr String}
    (helement : WellDeclared (element.declarations (innermost cs))) :
    BuildsExpr cs (comprehension g span element) := by
  refine (stays_expectWord _).bind fun _ => stays_pattern.bind fun names => ?_
  refine (stays_expect _).bind fun _ => (hg.expr cs).bind fun iterable hiterable => ?_
  refine stays_skipLineEnds.bind fun _ => (stays_eatWord _).bind fun b => ?_
  have hend (condition : Option (Expr String))
      (hcondition : WellDeclared (Expr?.declarations (innermost cs) condition)) :
      BuildsExpr cs (do
        skipLineEnds
        let _ ← expect .rightBracket
        return .comprehension span element names iterable condition) := by
    refine stays_skipLineEnds.bind fun _ => (stays_expect _).bind fun _ => builds_pure ?_
    rw [Expr.declarations, wellDeclared_append, wellDeclared_append]
    exact ⟨⟨helement, hiterable⟩, hcondition⟩
  cases b with
  | true => exact Builds.bind (BuildsExpr.some (hg.expr cs)) hend
  | false => exact builds_none.bind hend

theorem builds_listExpr (hg : GrammarBuilds g) : BuildsExpr cs (listExpr g) := by
  refine (stays_expectLine _).bind fun span => (stays_eat _).bind fun b => ?_
  split
  · exact builds_pure (by simp [Expr.declarations])
  · refine (hg.expr cs).commaList.bind fun elements helements => stays_skipLineEnds.bind fun _ => ?_
    refine (stays_atWord? _).bind fun isFor => ?_
    split
    next element => exact builds_comprehension hg span (helements element List.mem_cons_self)
    · refine (stays_expect _).bind fun _ => builds_pure ?_
      rw [Expr.declarations]
      exact wellDeclared_exprs.mpr helements

/-- A parameter that is only a name. -/
def IsBare (p : Param String (Expr String)) : Prop :=
  p.marker = none ∧ p.mutable = false ∧ p.variadic = false ∧ p.default = none

theorem builds_lambdaParams : Builds cs lambdaParams fun ps => ∀ p ∈ ps, IsBare p := by
  refine (stays_eat _).bind fun b => ?_
  split
  · exact builds_pure nofun
  · refine Builds.bind (Q := fun found => ∀ p ∈ found, IsBare p)
      (builds_loop (fun found => ∀ p ∈ found, IsBare p) (fun found hfound => ?_) nofun)
      fun found hfound => (stays_expect _).bind fun _ => builds_pure (by simpa using hfound)
    have hparam : Builds cs lambdaParam IsBare :=
      stays_expectName.bind fun n => builds_pure ⟨rfl, rfl, rfl, rfl⟩
    refine hparam.bind fun p hp => (stays_eat _).bind fun b => ?_
    split <;> exact builds_pure (List.forall_mem_cons.mpr ⟨hp, hfound⟩)

/-- The lambda itself is declared besides what its body declares. -/
theorem builds_lambda (hg : GrammarBuilds g) : BuildsExpr cs (lambda g) := by
  refine (stays_expect _).bind fun span => builds_lambdaParams.bind fun params hparams => ?_
  refine (builds_exprBody hg).bind fun body hbody => builds_pure ?_
  have hlambda : Declaration.WellFormed (.lambda ⟨span, "", false, none, params,
      some (.returnValue body.span (some body))⟩) := by
    apply Declaration.WellFormed.lambda
    · exact {
        variadicLast := fun p hp => (hparams p (List.dropLast_subset _ hp)).2.2.1
        variadicFixed := fun p hp _ => (hparams p hp).2.1 }
    · exact fun p hp => (hparams p hp).1
  have hdefaults : WellDeclared (Params.declarations (innermost cs) params) := by
    rw [wellDeclared_params]
    intro p hp
    rw [(hparams p hp).2.2.2]
    exact wellDeclared_nil
  simp only [Expr.declarations, Function.declarations, Stmt?.declarations, Stmt.declarations,
    Expr?.declarations, wellDeclared_cons, wellDeclared_append]
  exact ⟨hlambda, hdefaults, hbody⟩

/-! ## Terminals and postfixes -/

theorem builds_terminal (hg : GrammarBuilds g) : BuildsExpr cs (terminal g) := by
  refine stays_get.bind fun s => ?_
  split
  · exact stays_advance.bind fun _ => builds_pure (by simp [Expr.declarations])
  · exact stays_advance.bind fun _ => builds_pure (by simp [Expr.declarations])
  · exact builds_parenthesized hg
  · exact (builds_listExpr hg).inside _
  · exact (builds_lambda hg).inside _
  · exact (builds_ifElse hg).inside _
  · exact (builds_whenCase hg).inside _
  · exact (builds_tryCatch hg).inside _
  · exact builds_fail

/-- An argument. -/
abbrev BuildsArg (cs : List String) (p : Parser String (Arg String (Expr String))) : Prop :=
  Builds cs p fun a => WellDeclared (a.expr.declarations (innermost cs))

theorem builds_indexArg (hg : GrammarBuilds g) : BuildsArg cs (indexArg g) :=
  stays_here.bind fun _ => (stays_eat _).bind fun _ => (hg.expr cs).bind fun _ he => builds_pure he

theorem builds_callArg (hg : GrammarBuilds g) : BuildsArg cs (callArg g) := by
  refine stays_here.bind fun span => (stays_eat _).bind fun spread => ?_
  refine (hg.spread cs).bind fun e he => (stays_eat _).bind fun b => ?_
  split
  · split
    · exact builds_fail
    · exact (hg.spread cs).bind fun value hvalue => builds_pure hvalue
  · exact builds_pure he

theorem builds_args {arg : Parser String (Arg String (Expr String))} (close : Symbol)
    (harg : BuildsArg cs arg) :
    Builds cs (args arg close) fun as => WellDeclared (Args.declarations (innermost cs) as) := by
  refine stays_skipLineEnds.bind fun _ => (stays_eat _).bind fun b => ?_
  split
  · exact builds_pure (by simp)
  · refine harg.commaList.bind fun found hfound => stays_skipLineEnds.bind fun _ => ?_
    exact (stays_expect _).bind fun _ => builds_pure (wellDeclared_args.mpr hfound)

theorem builds_postfixRound (hg : GrammarBuilds g) {target : Expr String}
    (htarget : WellDeclared (target.declarations (innermost cs))) :
    Builds cs (postfixRound g target) (StepHas
      (fun e => WellDeclared (e.declarations (innermost cs)))
      fun e => WellDeclared (e.declarations (innermost cs))) := by
  refine stays_get.bind fun s => ?_
  split
  · refine stays_advance.bind fun _ => stays_expectName.bind fun n => builds_pure ?_
    rwa [StepHas, Expr.declarations]
  · refine stays_advance.bind fun _ => ?_
    refine ((builds_args _ (builds_indexArg hg)).inside _).bind fun as has => builds_pure ?_
    rw [StepHas, Expr.declarations]
    exact wellDeclared_append.mpr ⟨htarget, has⟩
  · refine stays_advance.bind fun _ => ?_
    refine ((builds_args _ (builds_callArg hg)).inside _).bind fun as has => builds_pure ?_
    rw [StepHas, Expr.declarations]
    exact wellDeclared_append.mpr ⟨htarget, has⟩
  · exact builds_pure htarget

theorem builds_postfixed (hg : GrammarBuilds g) : BuildsExpr cs (postfixed g) :=
  (builds_terminal hg).bind fun _ he => builds_loop _ (fun _ => builds_postfixRound hg) he

/-! ## Operators -/

theorem builds_unaryStep (hg : GrammarBuilds g) : BuildsExpr cs (unaryStep g) := by
  refine stays_kind.bind fun k => ?_
  split
  · refine stays_advance.bind fun t => (hg.unary cs).bind fun e he => builds_pure ?_
    rwa [Expr.declarations]
  · exact builds_postfixed hg

theorem builds_chain (level : Level String) {operand : Parser String (Expr String)} (h : BuildsExpr cs operand) :
    BuildsExpr cs (chain level operand) := by
  refine h.bind fun left hleft => builds_loop
    (fun e => WellDeclared (e.declarations (innermost cs))) (fun left hleft => ?_) hleft
  refine stays_kind.bind fun k => ?_
  split
  · exact builds_pure hleft
  · refine stays_advance.bind fun t => h.bind fun right hright => builds_pure ?_
    rw [StepHas, Expr.declarations]
    exact wellDeclared_append.mpr ⟨hleft, hright⟩

theorem builds_infixed (hg : GrammarBuilds g) : BuildsExpr cs (infixed g) := by
  unfold infixed
  induction levels with
  | nil => exact builds_unaryStep hg
  | cons level levels ih => exact builds_chain level ih

theorem builds_spreadStep (hg : GrammarBuilds g) : BuildsExpr cs (spreadStep g) := by
  refine (stays_at? _).bind fun b => ?_
  split
  · refine stays_advance.bind fun t => (builds_infixed hg).bind fun e he => builds_pure ?_
    rwa [Expr.declarations]
  · exact builds_infixed hg

theorem stays_assignmentTarget (left : Expr String) : Stays cs (assignmentTarget left) := by
  unfold assignmentTarget
  split
  · exact stays_pure
  · exact builds_fail

theorem builds_exprStep (hg : GrammarBuilds g) : BuildsExpr cs (exprStep g) := by
  refine (builds_spreadStep hg).bind fun left hleft => (stays_at? _).bind fun b => ?_
  split
  · refine stays_advance.bind fun t => (stays_assignmentTarget left).bind fun target => ?_
    refine (hg.expr cs).bind fun value hvalue => builds_pure ?_
    rwa [Expr.declarations]
  · refine stays_kind.bind fun k => ?_
    split
    · refine stays_advance.bind fun t => (stays_assignmentTarget left).bind fun target => ?_
      refine (hg.expr cs).bind fun value hvalue => builds_pure ?_
      rw [Expr.declarations, Expr.declarations]
      exact wellDeclared_append.mpr ⟨hleft, hvalue⟩
    · exact builds_pure hleft

end IslandScript.Parser
