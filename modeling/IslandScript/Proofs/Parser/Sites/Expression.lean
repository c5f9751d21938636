import IslandScript.Parser.Expression
import IslandScript.Proofs.Parser.Sites

/-!
# Where expressions stand

An expression is given the place of its first token or of its operator, so all places of a tree that
is read are places of tokens. Only an error can be at a parameter.
-/

namespace IslandScript.Parser

variable {S : Sites} {g : Grammar String}

/-- An expression at sites of tokens. -/
abbrev ExprAt (S : Sites) (e : Expr String) : Prop := Covers S.token e.spans

/-- An argument at sites of tokens. -/
abbrev ArgAt (S : Sites) (a : Arg String (Expr String)) : Prop :=
  S.token a.span ∧ Covers S.token a.expr.spans

/-- A parameter at a site, with its default at sites of tokens. -/
def ParamAt (S : Sites) (p : Param String (Expr String)) : Prop :=
  S.site p.span ∧ Covers S.token (Expr?.spans p.default)

theorem covers_params_of_at {ps : List (Param String (Expr String))} (h : ∀ p ∈ ps, ParamAt S p) :
    Covers S.token (Params.spans ps) :=
  covers_params.mpr fun p hp => (h p hp).2

/-! ## Bodies, conditionals and `try` -/

theorem yields_bodyItem (hg : GrammarAt S g) : Yields S (bodyItem g) (ExprAt S) := by
  refine sited_kind.bind fun k => ?_
  split
  · split
    · refine yields_here.bind fun span hspan => hg.stmt.bind fun s hs => yields_pure ?_
      exact covers_cons.mpr ⟨hspan, hs⟩
    · exact hg.expr
  · exact hg.expr

theorem yields_exprBody (hg : GrammarAt S g) : Yields S (exprBody g) (ExprAt S) := by
  refine yields_here.bind fun span hspan => (sited_eatLine _).bind fun b => ?_
  split
  · refine (yields_bodyItem hg).untilBrace.bind fun items hitems => yields_pure ?_
    exact covers_cons.mpr ⟨hspan, covers_exprs.mpr hitems⟩
  · exact yields_bodyItem hg

theorem yields_parenthesized (hg : GrammarAt S g) : Yields S (parenthesized g) (ExprAt S) :=
  (yields_expect _).bind fun _ _ => hg.expr.bind fun _ he =>
    (yields_expect _).bind fun _ _ => yields_pure he

theorem yields_ifElse (hg : GrammarAt S g) : Yields S (ifElse g) (ExprAt S) := by
  refine (yields_expectWord _).bind fun span hspan => ?_
  refine (yields_parenthesized hg).bind fun condition hcondition => ?_
  refine (yields_exprBody hg).bind fun body hbody => ?_
  refine sited_skipLineEnds.bind fun _ => (sited_eatWord _).bind fun b => ?_
  split
  · refine (yields_exprBody hg).bind fun otherwise hotherwise => yields_pure ?_
    simp [ExprAt, Expr.spans, Expr?.spans, hspan, hcondition, hbody, hotherwise]
  · exact yields_pure (by simp [ExprAt, Expr.spans, Expr?.spans, hspan, hcondition, hbody])

theorem yields_branch (hg : GrammarAt S g) : Yields S (branch g) fun b =>
    S.token b.span ∧ Covers S.token b.condition.spans ∧ Covers S.token b.body.spans := by
  refine yields_here.bind fun span hspan => hg.expr.bind fun condition hcondition => ?_
  refine (yields_expectLine _).bind fun _ _ => (yields_exprBody hg).bind fun body hbody => ?_
  exact sited_skipLineEnds.bind fun _ => yields_pure ⟨hspan, hcondition, hbody⟩

theorem yields_elseBranch (hg : GrammarAt S g) : Yields S (elseBranch g) (ExprAt S) := by
  refine (yields_expectLine _).bind fun _ _ => (yields_exprBody hg).bind fun body hbody => ?_
  refine sited_skipLineEnds.bind fun _ => (sited_at? _).bind fun b => ?_
  split
  · exact yields_pure hbody
  · exact yields_here.bind fun span hspan => yields_fail (S.site_of_token _ hspan)

theorem yields_branches (hg : GrammarAt S g) : Yields S (branches g) fun r =>
    Covers S.token (Branches.spans r.1) ∧ Covers S.token (Expr?.spans r.2) := by
  refine Yields.bind (yields_loop (fun found => Covers S.token (Branches.spans found))
    (Q := fun r => Covers S.token (Branches.spans r.1) ∧ Covers S.token (Expr?.spans r.2))
    (fun found hfound => ?_) covers_nil) fun r hr => ?_
  · refine (sited_at? _).bind fun b => ?_
    split
    · exact yields_pure ⟨hfound, covers_nil⟩
    · refine (sited_eatWord _).bind fun b => ?_
      split
      · exact (yields_elseBranch hg).bind fun e he => yields_pure ⟨hfound, he⟩
      · refine (yields_branch hg).bind fun b hb => yields_pure ?_
        exact covers_branches.mpr (List.forall_mem_cons.mpr ⟨hb, covers_branches.mp hfound⟩)
  · refine yields_pure ⟨covers_branches.mpr fun b hb => ?_, hr.2⟩
    exact covers_branches.mp hr.1 b (List.mem_reverse.mp hb)

theorem sited_subject : Sited S subject := by
  refine (sited_eat _).bind fun b => ?_
  split
  · exact yields_expectName.bind fun _ _ => (yields_expect _).bind fun _ _ => yields_pure trivial
  · exact yields_pure trivial

theorem yields_whenCase (hg : GrammarAt S g) : Yields S (whenCase g) (ExprAt S) := by
  refine (yields_expectWord _).bind fun span hspan => sited_subject.bind fun subject => ?_
  refine (yields_expectLine _).bind fun _ _ => (yields_branches hg).bind fun r hr => ?_
  refine (yields_expect _).bind fun _ _ => yields_pure ?_
  simp [ExprAt, Expr.spans, hspan, hr.1, hr.2]

theorem sited_caughtName : Sited S caughtName := by
  refine (sited_eat _).bind fun b => ?_
  split
  · exact yields_declaredName.bind fun _ _ => (yields_expect _).bind fun _ _ => yields_pure trivial
  · exact yields_pure trivial

theorem yields_catchPart (hg : GrammarAt S g) :
    Yields S (catchPart g) fun r => Covers S.token (Expr?.spans r.2) := by
  refine (sited_eatWord _).bind fun b => ?_
  split
  · refine sited_caughtName.bind fun error => (yields_exprBody hg).bind fun handler hhandler => ?_
    exact sited_skipLineEnds.bind fun _ => yields_pure hhandler
  · exact yields_pure covers_nil

theorem yields_finallyPart (hg : GrammarAt S g) :
    Yields S (finallyPart g) fun e => Covers S.token (Expr?.spans e) := by
  refine (sited_eatWord _).bind fun b => ?_
  split
  · exact (yields_exprBody hg).bind fun e he => yields_pure he
  · exact yields_pure covers_nil

theorem yields_tryCatch (hg : GrammarAt S g) : Yields S (tryCatch g) (ExprAt S) := by
  refine (yields_expectWord _).bind fun span hspan => (yields_exprBody hg).bind fun body hbody => ?_
  refine sited_skipLineEnds.bind fun _ => (yields_catchPart hg).bind fun r hr => ?_
  refine (yields_finallyPart hg).bind fun finalizer hfinalizer => yields_pure ?_
  simp [ExprAt, Expr.spans, hspan, hbody, hr, hfinalizer]

/-! ## Lists and lambdas -/

theorem yields_comprehension (hg : GrammarAt S g) {span : Span} {element : Expr String}
    (hspan : S.token span) (helement : ExprAt S element) :
    Yields S (comprehension g span element) (ExprAt S) := by
  refine (yields_expectWord _).bind fun _ _ => sited_pattern.bind fun names => ?_
  refine (yields_expect _).bind fun _ _ => hg.expr.bind fun iterable hiterable => ?_
  have hend (condition : Option (Expr String))
      (hcondition : Covers S.token (Expr?.spans condition)) : Yields S
      (do
        skipLineEnds
        let _ ← expect .rightBracket
        return Expr.comprehension span element names iterable condition) (ExprAt S) := by
    refine sited_skipLineEnds.bind fun _ => (yields_expect _).bind fun _ _ => yields_pure ?_
    simp [ExprAt, Expr.spans, hspan, helement, hiterable, hcondition]
  refine sited_skipLineEnds.bind fun _ => (sited_eatWord _).bind fun b => ?_
  cases b with
  | true =>
      refine Yields.bind (Q := fun e => Covers S.token (Expr?.spans e)) ?_ hend
      exact hg.expr.map fun e he => he
  | false => exact hend none covers_nil

theorem yields_listExpr (hg : GrammarAt S g) : Yields S (listExpr g) (ExprAt S) := by
  refine (yields_expectLine _).bind fun span hspan => (sited_eat _).bind fun b => ?_
  split
  · exact yields_pure (covers_cons.mpr ⟨hspan, covers_nil⟩)
  · refine hg.expr.commaList.bind fun elements helements => sited_skipLineEnds.bind fun _ => ?_
    refine (sited_atWord? _).bind fun isFor => ?_
    split
    · exact yields_comprehension hg hspan (helements _ List.mem_cons_self)
    · refine (yields_expect _).bind fun _ _ => yields_pure ?_
      exact covers_cons.mpr ⟨hspan, covers_exprs.mpr helements⟩

theorem yields_lambdaParams : Yields S lambdaParams fun ps => ∀ p ∈ ps, ParamAt S p := by
  refine (sited_eat _).bind fun b => ?_
  split
  · exact yields_pure fun _ h => absurd h List.not_mem_nil
  · have hparam : Yields S lambdaParam (ParamAt S) :=
      yields_expectName.bind fun n hn => yields_pure ⟨S.site_of_token _ hn, covers_nil⟩
    refine Yields.bind (yields_loop (fun found => ∀ p ∈ found, ParamAt S p)
      (Q := fun found => ∀ p ∈ found, ParamAt S p) (fun found hfound => ?_)
      fun _ h => absurd h List.not_mem_nil) fun found hfound => ?_
    · refine hparam.bind fun p hp => (sited_eat _).bind fun b => ?_
      split <;> exact yields_pure (List.forall_mem_cons.mpr ⟨hp, hfound⟩)
    · refine (yields_expect _).bind fun _ _ => yields_pure ?_
      exact fun p hp => hfound p (List.mem_reverse.mp hp)

theorem yields_lambda (hg : GrammarAt S g) : Yields S (lambda g) (ExprAt S) := by
  refine (yields_expect _).bind fun span hspan => yields_lambdaParams.bind fun params hparams => ?_
  refine (yields_exprBody hg).bind fun body hbody => yields_pure ?_
  simp [ExprAt, Expr.spans, Function.spans, Stmt?.spans, Stmt.spans, Expr?.spans, hspan,
    covers_params_of_at hparams, Expr.span_of_covers hbody, hbody]

/-! ## Terminals and postfixes -/

theorem yields_terminal (hg : GrammarAt S g) : Yields S (terminal g) (ExprAt S) := by
  refine yields_get.bind fun s hs => ?_
  have hcurrent := hs.current
  split
  next span literal h =>
    rw [h] at hcurrent
    exact yields_advance.bind fun _ _ => yields_pure (covers_cons.mpr ⟨hcurrent, covers_nil⟩)
  next span n h =>
    rw [h] at hcurrent
    exact yields_advance.bind fun _ _ => yields_pure (covers_cons.mpr ⟨hcurrent, covers_nil⟩)
  · exact yields_parenthesized hg
  · exact (yields_listExpr hg).inside _
  · exact (yields_lambda hg).inside _
  · exact (yields_ifElse hg).inside _
  · exact (yields_whenCase hg).inside _
  · exact (yields_tryCatch hg).inside _
  next span found _ _ _ _ _ _ _ _ h =>
    rw [h] at hcurrent
    exact yields_fail (S.site_of_token _ hcurrent)

theorem yields_indexArg (hg : GrammarAt S g) : Yields S (indexArg g) (ArgAt S) :=
  yields_here.bind fun _ hspan => (sited_eat _).bind fun _ =>
    hg.expr.bind fun _ he => yields_pure ⟨hspan, he⟩

theorem yields_callArg (hg : GrammarAt S g) : Yields S (callArg g) (ArgAt S) := by
  refine yields_here.bind fun span hspan => (sited_eat _).bind fun spread => ?_
  refine hg.spread.bind fun e he => (sited_eat _).bind fun b => ?_
  split
  · split
    · exact yields_fail (S.site_of_token _ (Expr.span_of_covers he))
    · exact hg.spread.bind fun value hvalue => yields_pure ⟨hspan, hvalue⟩
  · exact yields_pure ⟨hspan, he⟩

theorem yields_args {arg : Parser String (Arg String (Expr String))} (close : Symbol)
    (harg : Yields S arg (ArgAt S)) :
    Yields S (args arg close) fun as => Covers S.token (Args.spans as) := by
  refine sited_skipLineEnds.bind fun _ => (sited_eat _).bind fun b => ?_
  split
  · exact yields_pure covers_nil
  · refine harg.commaList.bind fun found hfound => sited_skipLineEnds.bind fun _ => ?_
    exact (yields_expect _).bind fun _ _ => yields_pure (covers_args.mpr hfound)

theorem yields_callArgs (hg : GrammarAt S g) :
    Yields S (callArgs g) fun as => Covers S.token (Args.spans as) :=
  yields_args _ (yields_callArg hg)

theorem yields_postfixed (hg : GrammarAt S g) : Yields S (postfixed g) (ExprAt S) := by
  have hround (target : Expr String) (htarget : ExprAt S target) :
      Yields S (postfixRound g target) (StepHas (ExprAt S) (ExprAt S)) := by
    refine yields_get.bind fun s hs => ?_
    have hcurrent := hs.current
    split
    next span h =>
      rw [h] at hcurrent
      refine yields_advance.bind fun _ _ => yields_expectName.bind fun n _ => yields_pure ?_
      exact covers_cons.mpr ⟨hcurrent, htarget⟩
    next span h =>
      rw [h] at hcurrent
      refine yields_advance.bind fun _ _ => ?_
      refine ((yields_args _ (yields_indexArg hg)).inside _).bind fun as has => yields_pure ?_
      simp [StepHas, ExprAt, Expr.spans, hcurrent, htarget, has]
    next span h =>
      rw [h] at hcurrent
      refine yields_advance.bind fun _ _ => ?_
      refine ((yields_callArgs hg).inside _).bind fun as has => yields_pure ?_
      simp [StepHas, ExprAt, Expr.spans, hcurrent, htarget, has]
    · exact yields_pure htarget
  exact (yields_terminal hg).bind fun e he => yields_loop (ExprAt S) hround he

/-! ## Operators -/

theorem yields_unaryStep (hg : GrammarAt S g) : Yields S (unaryStep g) (ExprAt S) := by
  refine sited_kind.bind fun k => ?_
  split
  · refine yields_advance.bind fun t ht => hg.unary.bind fun e he => yields_pure ?_
    exact covers_cons.mpr ⟨ht, he⟩
  · exact yields_postfixed hg

theorem yields_chain (level : Level String) {operand : Parser String (Expr String)}
    (h : Yields S operand (ExprAt S)) : Yields S (chain level operand) (ExprAt S) := by
  refine h.bind fun left hleft => yields_loop (ExprAt S) (fun left hleft => ?_) hleft
  refine sited_kind.bind fun k => ?_
  split
  · exact yields_pure hleft
  · refine yields_advance.bind fun t ht => h.bind fun right hright => yields_pure ?_
    simp [StepHas, ExprAt, Expr.spans, ht, hleft, hright]

theorem yields_infixed (hg : GrammarAt S g) : Yields S (infixed g) (ExprAt S) := by
  unfold infixed
  induction levels with
  | nil => exact yields_unaryStep hg
  | cons level levels ih => exact yields_chain level ih

theorem yields_spreadStep (hg : GrammarAt S g) : Yields S (spreadStep g) (ExprAt S) := by
  refine (sited_at? _).bind fun b => ?_
  split
  · refine yields_advance.bind fun t ht => (yields_infixed hg).bind fun e he => yields_pure ?_
    exact covers_cons.mpr ⟨ht, he⟩
  · exact yields_infixed hg

theorem sited_assignmentTarget {left : Expr String} (h : ExprAt S left) :
    Sited S (assignmentTarget left) := by
  unfold assignmentTarget
  split
  · exact yields_pure trivial
  · exact yields_fail (S.site_of_token _ (Expr.span_of_covers h))

/-- An expression stands at sites of tokens. A compound assignment stands twice where its operator
does. -/
theorem yields_exprStep (hg : GrammarAt S g) : Yields S (exprStep g) (ExprAt S) := by
  refine (yields_spreadStep hg).bind fun left hleft => (sited_at? _).bind fun b => ?_
  split
  · refine yields_advance.bind fun t ht => (sited_assignmentTarget hleft).bind fun target => ?_
    exact hg.expr.bind fun value hvalue => yields_pure (covers_cons.mpr ⟨ht, hvalue⟩)
  · refine sited_kind.bind fun k => ?_
    split
    · refine yields_advance.bind fun t ht => (sited_assignmentTarget hleft).bind fun target => ?_
      refine hg.expr.bind fun value hvalue => yields_pure ?_
      simp [ExprAt, Expr.spans, ht, hleft, hvalue]
    · exact yields_pure hleft

end IslandScript.Parser
