import IslandScript.Proofs.Parser.Enclosed

/-!
# Expressions that stand elsewhere

The rules of expressions match. What must be closed is closed within the tokens, and what may go on with an
expression is no closing parenthesis.
-/

namespace IslandScript.Parser

variable {c : Enclosure} {s s' : State String} {g g' : Grammar String}

/-! ## Parts of trees up to their spans -/

section Parts


/-- The function that takes all spans away. -/
abbrev nowhere : Span → Span := fun _ => Span.none

theorem Same.exprs {es es' : List (Expr String)} (h : Same es es') :
    Exprs.mapSpans nowhere es = Exprs.mapSpans nowhere es' := by
  rw [Exprs.mapSpans_eq_map, Exprs.mapSpans_eq_map]
  exact h

theorem Same.expr? {e e' : Option (Expr String)} (h : Same e e') :
    Expr?.mapSpans nowhere e = Expr?.mapSpans nowhere e' := by
  rw [Expr?.mapSpans_eq_map, Expr?.mapSpans_eq_map]
  exact h

theorem Same.args {as as' : List (Arg String (Expr String))} (h : Same as as') :
    Args.mapSpans nowhere as = Args.mapSpans nowhere as' := by
  rw [Args.mapSpans_eq_map, Args.mapSpans_eq_map]
  exact h

theorem Same.params {ps ps' : List (Param String (Expr String))} (h : Same ps ps') :
    Params.mapSpans nowhere ps = Params.mapSpans nowhere ps' := by
  rw [Params.mapSpans_eq_map, Params.mapSpans_eq_map]
  exact h

theorem Same.branches {bs bs' : List (Branch (Expr String))} (h : Same bs bs') :
    Branches.mapSpans nowhere bs = Branches.mapSpans nowhere bs' := by
  rw [Branches.mapSpans_eq_map, Branches.mapSpans_eq_map]
  exact h

/-- Trees that differ in their spans only are the same name, or none. -/
theorem Same.name?_eq {e e' : Expr String} (h : Same e e') : e.name? = e'.name? := by
  have hname := congrArg Expr.name? h
  exact (Expr.name?_mapSpans e).symm.trans (hname.trans (Expr.name?_mapSpans e'))

end Parts

/-- The rules of a grammar are matched by those of another. -/
structure MatchGrammar (c : Enclosure) (g g' : Grammar String) : Prop where
  fail : FailAtEnd g
  expr : Matches c g.expr g'.expr
  spread : Matches c g.spread g'.spread
  unary : Matches c g.unary g'.unary
  stmt : Matches c g.stmt g'.stmt

/-! ## Bodies -/

theorem matches_bodyItem (hg : MatchGrammar c g g') : Matches c (bodyItem g) (bodyItem g') := by
  refine (failsAtEnd_bodyItem hg.fail).matches fun s s' h => h.matchesAt_kind ?_
  split
  next k _ =>
    split
    next =>
      have hstmt : Matches c (here >>= fun span => g.stmt >>= fun st => pure (Expr.statement span st))
          (here >>= fun span => g'.stmt >>= fun st => pure (Expr.statement span st)) :=
        matches_here.bind fun span span' _ => hg.stmt.bind fun st st' hst =>
          matches_pure (congrArg (Expr.statement Span.none) hst)
      exact hstmt s s' h.tracks
    next => exact hg.expr s s' h.tracks
  next => exact hg.expr s s' h.tracks

theorem matches_exprBody (hg : MatchGrammar c g g') : Matches c (exprBody g) (exprBody g') := by
  refine matches_here.bind fun span span' _ => ?_
  refine (matches_eatLine .leftBrace nofun).andThen fun b => ?_
  cases b with
  | false => exact matches_bodyItem hg
  | true =>
      refine (matches_bodyItem hg).untilBrace.bind fun items items' hitems => ?_
      exact matches_pure (congrArg (Expr.block Span.none) hitems.exprs)

theorem matches_parenthesized (hg : MatchGrammar c g g') :
    Matches c (parenthesized g) (parenthesized g') :=
  (matches_expect .leftParen).bind fun _ _ _ => hg.expr.bind fun _ _ he =>
    (matches_expect .rightParen).bind fun _ _ _ => matches_pure he

/-! ## Conditionals -/

theorem matches_ifElse (hg : MatchGrammar c g g') : Matches c (ifElse g) (ifElse g') := by
  refine (matches_expectWord .ifKey).bind fun span span' _ => ?_
  refine (matches_parenthesized hg).bind fun condition condition' hcondition => ?_
  refine (matches_exprBody hg).bind fun body body' hbody => ?_
  refine matches_skipLineEnds.andThen fun _ => ?_
  refine (matches_eatWord .elseKey).andThen fun b => ?_
  cases b with
  | false => exact matches_pure (congrArg₂ (Expr.ifElse Span.none · · none) hcondition hbody)
  | true =>
      refine (matches_exprBody hg).bind fun otherwise otherwise' hotherwise => matches_pure ?_
      change Expr.ifElse _ _ _ (some _) = .ifElse _ _ _ (some _)
      exact congr (congrArg₂ (Expr.ifElse Span.none) hcondition hbody) (congrArg some hotherwise)

theorem matches_branch (hg : MatchGrammar c g g') : Matches c (branch g) (branch g') := by
  refine matches_here.bind fun span span' _ => ?_
  refine hg.expr.bind fun condition condition' hcondition => ?_
  refine (matches_expectLine .arrow).bind fun _ _ _ => ?_
  refine (matches_exprBody hg).bind fun body body' hbody => ?_
  exact matches_skipLineEnds.andThen fun _ =>
    matches_pure (congrArg₂ (Branch.mk Span.none) hcondition hbody)

theorem matches_elseBranch (hg : MatchGrammar c g g') : Matches c (elseBranch g) (elseBranch g') := by
  refine (matches_expectLine .arrow).bind fun _ _ _ => ?_
  refine (matches_exprBody hg).bind fun body body' hbody => ?_
  refine matches_skipLineEnds.andThen fun _ => ?_
  refine matches_at? .rightBrace nofun fun b => ?_
  cases b with
  | false => exact fun s s' _ a mid hrun => nomatch hrun
  | true => exact matches_pure hbody

theorem matches_branches (hg : MatchGrammar c g g') : Matches c (branches g) (branches g') := by
  refine (matches_loop (fun found found' hfound => ?_) (Same.refl [])).bind
    fun ⟨found, otherwise⟩ ⟨found', otherwise'⟩ h => matches_pure (same_pair h.fst.reverse h.snd)
  refine matches_at? .rightBrace nofun fun b => ?_
  cases b with
  | true => exact matches_pure (same_done (same_pair hfound rfl))
  | false =>
      refine (matches_eatWord .elseKey).andThen fun b => ?_
      cases b with
      | true =>
          refine (matches_elseBranch hg).bind fun body body' hbody => ?_
          exact matches_pure (same_done (same_pair hfound (same_some hbody)))
      | false =>
          refine (matches_branch hg).bind fun b b' hb => ?_
          exact matches_pure (same_again (same_cons hb hfound))

theorem matches_subject : Matches c subject subject := by
  refine (matches_eat .leftParen nofun).andThen fun b => ?_
  cases b with
  | false => exact matches_pure rfl
  | true =>
      refine matches_expectName.bind fun n n' hn => ?_
      exact (matches_expect .rightParen).bind fun _ _ _ => matches_pure (congrArg some hn.fst.eq)

theorem matches_whenCase (hg : MatchGrammar c g g') : Matches c (whenCase g) (whenCase g') := by
  refine (matches_expectWord .when).bind fun span span' _ => ?_
  refine matches_subject.andThen fun subject => ?_
  refine (matches_expectLine .leftBrace).bind fun _ _ _ => ?_
  refine (matches_branches hg).bind fun ⟨found, otherwise⟩ ⟨found', otherwise'⟩ h => ?_
  refine (matches_expect .rightBrace).bind fun _ _ _ => matches_pure ?_
  exact congrArg₂ (Expr.whenCase Span.none subject) h.fst.branches h.snd.expr?

/-! ## Attempts -/

theorem matches_caughtName : Matches c caughtName caughtName := by
  refine (matches_eat .leftParen nofun).andThen fun b => ?_
  cases b with
  | false => exact matches_pure rfl
  | true =>
      refine matches_declaredName.bind fun n n' hn => ?_
      exact (matches_expect .rightParen).bind fun _ _ _ => matches_pure (congrArg some hn.fst.eq)

theorem matches_catchPart (hg : MatchGrammar c g g') : Matches c (catchPart g) (catchPart g') := by
  refine (matches_eatWord .catchKey).andThen fun b => ?_
  cases b with
  | false => exact matches_pure rfl
  | true =>
      refine matches_caughtName.andThen fun error => ?_
      refine (matches_exprBody hg).bind fun handler handler' hhandler => ?_
      exact matches_skipLineEnds.andThen fun _ => matches_pure (same_pair rfl (same_some hhandler))

theorem matches_finallyPart (hg : MatchGrammar c g g') : Matches c (finallyPart g) (finallyPart g') := by
  refine (matches_eatWord .finallyKey).andThen fun b => ?_
  cases b with
  | false => exact matches_pure rfl
  | true => exact (matches_exprBody hg).bind fun e e' he => matches_pure (same_some he)

theorem matches_tryCatch (hg : MatchGrammar c g g') : Matches c (tryCatch g) (tryCatch g') := by
  refine (matches_expectWord .tryKey).bind fun span span' _ => ?_
  refine (matches_exprBody hg).bind fun body body' hbody => ?_
  refine matches_skipLineEnds.andThen fun _ => ?_
  refine (matches_catchPart hg).bind fun ⟨error, handler⟩ ⟨error', handler'⟩ h => ?_
  refine (matches_finallyPart hg).bind fun finalizer finalizer' hfinalizer => matches_pure ?_
  cases h.fst.eq
  change Expr.tryCatch _ _ _ _ _ = .tryCatch _ _ _ _ _
  exact congr (congrArg₂ (Expr.tryCatch Span.none · error ·) hbody h.snd.expr?) hfinalizer.expr?

/-! ## Lists and lambdas -/

theorem matches_comprehension (hg : MatchGrammar c g g') {span span' : Span} {element element' : Expr String}
    (helement : Same element element') :
    Matches c (comprehension g span element) (comprehension g' span' element') := by
  refine (matches_expectWord .forKey).bind fun _ _ _ => ?_
  refine matches_pattern.andThen fun names => ?_
  refine (matches_expect .colon).bind fun _ _ _ => ?_
  refine hg.expr.bind fun iterable iterable' hiterable => ?_
  refine matches_skipLineEnds.andThen fun _ => ?_
  have hclose {condition condition' : Option (Expr String)} (hcondition : Same condition condition') :
      Matches c
        (skipLineEnds >>= fun _ => expect .rightBracket >>= fun _ =>
          pure (Expr.comprehension span element names iterable condition))
        (skipLineEnds >>= fun _ => expect .rightBracket >>= fun _ =>
          pure (Expr.comprehension span' element' names iterable' condition')) := by
    refine matches_skipLineEnds.andThen fun _ => ?_
    refine (matches_expect .rightBracket).bind fun _ _ _ => matches_pure ?_
    change Expr.comprehension _ _ _ _ _ = .comprehension _ _ _ _ _
    exact congr (congrArg₂ (Expr.comprehension Span.none · names ·) helement hiterable) hcondition.expr?
  refine (matches_eatWord .ifKey).andThen fun b => ?_
  cases b with
  | false => exact hclose (Same.refl none)
  | true => exact (hg.expr.map fun _ _ => same_some).bind fun _ _ => hclose

theorem matches_listEnd (hg : MatchGrammar c g g') (span span' : Span)
    (elements elements' : List (Expr String)) :
    Same elements elements' → Matches c (listEnd g span elements) (listEnd g' span' elements') := by
  intro helements
  have hlist : Matches c (expect .rightBracket >>= fun _ => pure (Expr.list span elements))
      (expect .rightBracket >>= fun _ => pure (Expr.list span' elements')) :=
    (matches_expect .rightBracket).bind fun _ _ _ =>
      matches_pure (congrArg (Expr.list Span.none) helements.exprs)
  refine matches_atWord? .forKey fun b => ?_
  match elements, elements', helements, b with
  | [element], [element'], h, true => exact matches_comprehension hg (List.cons.inj h).1
  | [_], [_], _, false => exact hlist
  | [], [], _, _ => exact hlist
  | _ :: _ :: _, _ :: _ :: _, _, _ => exact hlist
  | [_], _ :: _ :: _, h, _ => cases h.length_eq
  | _ :: _ :: _, [_], h, _ => cases h.length_eq

theorem matches_listExpr (hg : MatchGrammar c g g') : Matches c (listExpr g) (listExpr g') := by
  refine (matches_expectLine .leftBracket).bind fun span span' _ => ?_
  refine (matches_eat .rightBracket nofun).andThen fun b => ?_
  cases b with
  | true => exact matches_pure rfl
  | false =>
      refine hg.expr.commaList.bind fun elements elements' helements => ?_
      exact matches_skipLineEnds.andThen fun _ => matches_listEnd hg span span' elements elements' helements

theorem matches_lambdaParam : Matches c lambdaParam lambdaParam := by
  refine matches_expectName.bind fun ⟨n, span⟩ ⟨n', span'⟩ hn => ?_
  cases hn.fst.eq
  exact matches_pure rfl

theorem matches_lambdaParams : Matches c lambdaParams lambdaParams := by
  refine (matches_eat .colon nofun).andThen fun b => ?_
  cases b with
  | true => exact matches_pure rfl
  | false =>
      refine (matches_loop (fun params params' hparams => ?_) (Same.refl [])).bind fun params params' h => ?_
      · refine matches_lambdaParam.bind fun p p' hp => ?_
        refine (matches_eat .comma nofun).andThen fun b => ?_
        cases b with
        | false => exact matches_pure (same_done (same_cons hp hparams))
        | true => exact matches_pure (same_again (same_cons hp hparams))
      · exact (matches_expect .arrow).bind fun _ _ _ => matches_pure h.reverse

theorem matches_lambda (hg : MatchGrammar c g g') : Matches c (lambda g) (lambda g') := by
  refine (matches_expect .colon).bind fun span span' _ => ?_
  refine matches_lambdaParams.bind fun params params' hparams => ?_
  refine (matches_exprBody hg).bind fun body body' hbody => matches_pure ?_
  exact congrArg₂ (fun params body => Expr.lambda Span.none
    ⟨Span.none, "", false, none, params, some (.returnValue Span.none (some body))⟩) hparams.params hbody

/-! ## Terminals -/

theorem matches_terminal (hg : MatchGrammar c g g') : Matches c (terminal g) (terminal g') := by
  refine failsAtEnd_terminal.matches fun s s' h => ?_
  have hkind := h.kind_eq
  refine matchesAt_get ?_
  generalize s.current = t at hkind
  generalize s'.current = t' at hkind
  obtain ⟨span, k⟩ := t
  obtain ⟨span', k'⟩ := t'
  cases hkind
  split
  next literal heq =>
    cases heq
    exact h.matchesAt_advance.bind fun _ _ _ => matches_pure rfl
  next n heq =>
    cases heq
    exact h.matchesAt_advance.bind fun _ _ _ => matches_pure rfl
  next heq =>
    cases heq
    exact matches_parenthesized hg s s' h.tracks
  next heq =>
    cases heq
    exact (matches_listExpr hg).inside s s' h.tracks
  next heq =>
    cases heq
    exact (matches_lambda hg).inside s s' h.tracks
  next heq =>
    cases heq
    exact (matches_ifElse hg).inside s s' h.tracks
  next heq =>
    cases heq
    exact (matches_whenCase hg).inside s s' h.tracks
  next heq =>
    cases heq
    exact (matches_tryCatch hg).inside s s' h.tracks
  next => exact fun _ _ hrun => nomatch hrun

/-! ## Calls and indices -/

theorem matches_indexArg (hg : MatchGrammar c g g') : Matches c (indexArg g) (indexArg g') := by
  refine matches_here.bind fun span span' _ => ?_
  refine (matches_eat .star nofun).andThen fun spread => ?_
  exact hg.expr.bind fun e e' he => matches_pure (congrArg (Arg.mk Span.none spread none) he)

theorem matches_callArg (hg : MatchGrammar c g g') : Matches c (callArg g) (callArg g') := by
  refine matches_here.bind fun span span' _ => ?_
  refine (matches_eat .star nofun).andThen fun spread => ?_
  refine hg.spread.bind fun e e' he => ?_
  refine (matches_eat .equal nofun).andThen fun b => ?_
  cases b with
  | false => exact matches_pure (congrArg (Arg.mk Span.none spread none) he)
  | true =>
      have hname : e'.name? = e.name? := he.name?_eq.symm
      simp only [hname]
      cases e.name? with
      | none => exact matches_fail
      | some n =>
          exact hg.spread.bind fun value value' hvalue =>
            matches_pure (congrArg (Arg.mk Span.none spread (some n)) hvalue)

/-- A closing parenthesis that ends arguments is one of the tokens, for the text does not end before it. -/
theorem Matches.args {arg arg' : Parser String (Arg String (Expr String))} (harg : Matches c arg arg')
    (hfails : FailsAtEnd arg) {close : Symbol} :
    Matches c (Parser.args arg close) (Parser.args arg' close) := by
  refine matches_skipLineEnds.andThen fun _ => ?_
  refine FailsAtEnd.matches ?_ fun s s' h => ?_
  · refine (atEnd_eat close).bind fun b hb => ?_
    rw [hb]
    exact (failsAtEnd_commaList hfails).bind
  · refine (h.matchesAt_eatKind (.symbol close)).andThen fun b => ?_
    cases b with
    | true => exact matches_pure rfl
    | false =>
        refine harg.commaList.bind fun found found' hfound => ?_
        refine matches_skipLineEnds.andThen fun _ => ?_
        exact (matches_expect close).bind fun _ _ _ => matches_pure hfound

theorem matches_indexArgs (hg : MatchGrammar c g g') : Matches c (indexArgs g) (indexArgs g') :=
  (matches_indexArg hg).args (failsAtEnd_indexArg hg.fail)

theorem matches_callArgs (hg : MatchGrammar c g g') : Matches c (callArgs g) (callArgs g') :=
  (matches_callArg hg).args (failsAtEnd_callArg hg.fail)

/-! ## Postfixes and operators -/

theorem matches_postfixRound (hg : MatchGrammar c g g') {e e' : Expr String} (he : Same e e') :
    Matches c (postfixRound g e) (postfixRound g' e') := by
  refine matches_mayTake (same_done he) (mayTake_postfixRound e) (mayTake_postfixRound e')
    fun s s' h => ?_
  have hkind := h.kind_eq
  refine matchesAt_get ?_
  generalize s.current = t at hkind
  generalize s'.current = t' at hkind
  obtain ⟨span, k⟩ := t
  obtain ⟨span', k'⟩ := t'
  cases hkind
  split
  next heq =>
    cases heq
    refine h.matchesAt_advance.bind fun _ _ _ => matches_expectName.bind fun n n' hn => ?_
    exact matches_pure (same_again (congrArg₂ (Expr.member Span.none) he hn.fst.eq))
  next heq =>
    cases heq
    refine h.matchesAt_advance.bind fun _ _ _ => ?_
    refine (matches_indexArgs hg).inside.bind fun args args' hargs => ?_
    exact matches_pure (same_again (congrArg₂ (Expr.index Span.none) he hargs.args))
  next heq =>
    cases heq
    refine h.matchesAt_advance.bind fun _ _ _ => ?_
    refine (matches_callArgs hg).inside.bind fun args args' hargs => ?_
    exact matches_pure (same_again (congrArg₂ (Expr.invoke Span.none) he hargs.args))
  next hdot hbracket hparen =>
    split
    next heq =>
      cases heq
      exact (hdot _ rfl).elim
    next heq =>
      cases heq
      exact (hbracket _ rfl).elim
    next heq =>
      cases heq
      exact (hparen _ rfl).elim
    next => exact matchesAt_pure (same_done he) h.tracks

theorem matches_postfixed (hg : MatchGrammar c g g') : Matches c (postfixed g) (postfixed g') :=
  (matches_terminal hg).bind fun _ _ he => matches_loop (fun _ _ => matches_postfixRound hg) he

theorem matches_unaryStep (hg : MatchGrammar c g g') : Matches c (unaryStep g) (unaryStep g') := by
  refine failsAtEnd_unaryStep.matches fun s s' h => h.matchesAt_kind ?_
  split
  next op _ =>
    refine h.matchesAt_advance.bind fun _ _ _ => hg.unary.bind fun operand operand' hoperand => ?_
    exact matches_pure (congrArg (Expr.unary Span.none op) hoperand)
  next => exact matches_postfixed hg s s' h.tracks

theorem matches_chainRound {level : Level String} (hlevel : ∀ k op, level k = some op → goesOn k = true)
    {operand operand' : Parser String (Expr String)} (hoperand : Matches c operand operand') {e e' : Expr String}
    (he : Same e e') : Matches c (chainRound level operand e) (chainRound level operand' e') := by
  refine matches_mayTake (same_done he) (mayTake_chainRound hlevel e) (mayTake_chainRound hlevel e')
    fun s s' h => h.matchesAt_kind ?_
  split
  next => exact matchesAt_pure (same_done he) h.tracks
  next op _ =>
    refine h.matchesAt_advance.bind fun _ _ _ => hoperand.bind fun right right' hright => ?_
    exact matches_pure (same_again (congrArg₂ (Expr.binary Span.none op) he hright))

/-- The levels of the infix operators match, the tightest first. -/
theorem matches_levels (hg : MatchGrammar c g g') {ls : List (Level String)} (hls : ∀ level ∈ ls, level ∈ levels) :
    Matches c (ls.foldr chain (unaryStep g)) (ls.foldr chain (unaryStep g')) := by
  induction ls with
  | nil => exact matches_unaryStep hg
  | cons level ls ih =>
      have hoperand := ih fun x hx => hls x (List.mem_cons_of_mem level hx)
      have hlevel := goesOn_of_level (hls level List.mem_cons_self)
      exact hoperand.bind fun _ _ he => matches_loop (fun _ _ => matches_chainRound hlevel hoperand) he

theorem matches_infixed (hg : MatchGrammar c g g') : Matches c (infixed g) (infixed g') :=
  matches_levels hg fun _ h => h

theorem matches_spreadStep (hg : MatchGrammar c g g') : Matches c (spreadStep g) (spreadStep g') := by
  refine failsAtEnd_spreadStep.matches fun s s' h => ?_
  refine h.matchesAt_at? .star fun b => ?_
  cases b with
  | true =>
      refine h.matchesAt_advance.bind fun _ _ _ => (matches_infixed hg).bind fun e e' he => ?_
      exact matches_pure (congrArg (Expr.unary Span.none .spread) he)
  | false => exact matches_infixed hg s s' h.tracks

/-! ## Assignments -/

theorem matches_assignmentTarget {left left' : Expr String} (h : Same left left') :
    Matches c (assignmentTarget left) (assignmentTarget left') := by
  unfold assignmentTarget
  rw [← h.name?_eq]
  split
  next => exact matches_pure rfl
  next => exact matches_fail

theorem matches_assignment (hg : MatchGrammar c g g') {left left' : Expr String} (hleft : Same left left') :
    Matches c (assignment g left) (assignment g' left') := by
  refine matches_mayTake hleft (mayTake_assignment left) (mayTake_assignment left') fun s s' h => ?_
  refine h.matchesAt_at? .equal fun b => ?_
  cases b with
  | true =>
      refine h.matchesAt_advance.bind fun _ _ _ => ?_
      refine (matches_assignmentTarget hleft).andThen fun target => ?_
      refine hg.expr.bind fun value value' hvalue => ?_
      exact matches_pure (congrArg (Expr.assign Span.none target) hvalue)
  | false =>
      refine h.matchesAt_kind ?_
      split
      next op _ =>
        refine h.matchesAt_advance.bind fun _ _ _ => ?_
        refine (matches_assignmentTarget hleft).andThen fun target => ?_
        refine hg.expr.bind fun value value' hvalue => matches_pure ?_
        exact congrArg₂ (fun l r => Expr.assign Span.none target (.binary Span.none op l r)) hleft hvalue
      next => exact matchesAt_pure hleft h.tracks

theorem matches_exprStep (hg : MatchGrammar c g g') : Matches c (exprStep g) (exprStep g') := by
  rw [exprStep_eq, exprStep_eq]
  exact (matches_spreadStep hg).bind fun _ _ => matches_assignment hg

end IslandScript.Parser
