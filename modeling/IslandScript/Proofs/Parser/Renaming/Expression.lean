import Mathlib.Data.List.Forall2
import IslandScript.Proofs.Parser.Renaming

/-!
# Expressions with other names

The rules of expressions one by one. What they read differs in its names only, and so do their choices,
which are made on keywords and symbols.
-/

namespace IslandScript.Parser

variable {ν μ : Type} {f : ν → μ} {g : Grammar ν} {g' : Grammar μ}

/-! ## Operators -/

theorem unaryOp?_map (k : TokenKind ν) : unaryOp? (k.map f) = unaryOp? k := by
  cases k with
  | symbol s => cases s <;> rfl
  | _ => rfl

/-- On no level of precedence is an operator a name. -/
theorem levels_map : List.Forall₂ (fun (level : Level ν) (level' : Level μ) =>
    ∀ k, level' (k.map f) = level k) levels levels := by
  unfold levels
  repeat' constructor
  all_goals
    intro k
    cases k with
    | symbol s => cases s <;> rfl
    | keyword k => cases k <;> rfl
    | _ => rfl

theorem compoundOp?_map (k : TokenKind ν) : compoundOp? (k.map f) = compoundOp? k := by
  cases k with
  | symbol s => cases s <;> rfl
  | _ => rfl

theorem Renames.chain {level : Level ν} {level' : Level μ} (hlevel : ∀ k, level' (k.map f) = level k)
    {operand : Parser ν (Expr ν)} {operand' : Parser μ (Expr μ)} (hoperand : Renames f operand operand') :
    Renames f (Parser.chain level operand) (Parser.chain level' operand') := by
  refine hoperand.bind (renames_loop fun left => ?_)
  refine renames_kind.bind fun k => ?_
  rw [show level' (rename f k) = level k from hlevel k]
  cases level k with
  | none => exact renames_pure rfl
  | some op => exact renames_advance.bind fun t => hoperand.bind fun right => renames_pure rfl

/-! ## Parts without names of their own -/

theorem renames_assignmentTarget (left : Expr ν) :
    Renames f (assignmentTarget left) (assignmentTarget (left.mapNames f)) := by
  unfold assignmentTarget
  rw [Expr.name?_mapNames, Expr.span_mapNames]
  cases left.name? with
  | none => exact renames_fail rfl left.span
  | some n => exact renames_pure rfl

theorem renames_lambdaParam [Naming ν] [Naming μ] : Renames f lambdaParam lambdaParam :=
  renames_expectName.bind fun _ => renames_pure rfl

theorem renames_bodyItem (hg : RenamesGrammar f g g') : Renames f (bodyItem g) (bodyItem g') := by
  refine renames_kind.bind fun k => ?_
  cases k with
  | keyword k =>
      change Renames f (if startsStatement k then _ else _) (if startsStatement k then _ else _)
      split
      next => exact renames_here.bind fun span => hg.stmt.bind fun s => renames_pure rfl
      next => exact hg.expr
  | _ => exact hg.expr

variable [DecidableEq ν] [DecidableEq μ]

theorem renames_exprBody (hg : RenamesGrammar f g g') : Renames f (exprBody g) (exprBody g') := by
  refine renames_here.bind fun span => (renames_eatLine .leftBrace).bind fun b => ?_
  cases b with
  | true =>
      refine (renames_bodyItem hg).untilBrace.bind fun items => renames_pure ?_
      exact congrArg (Expr.block span) (Exprs.mapNames_eq_map items)
  | false => exact renames_bodyItem hg

theorem renames_finallyPart (hg : RenamesGrammar f g g') :
    Renames f (finallyPart g) (finallyPart g') := by
  refine (renames_eatWord .finallyKey).bind fun b => ?_
  cases b with
  | true => exact (renames_exprBody hg).bind fun body => renames_pure rfl
  | false => exact renames_pure rfl

theorem renames_indexArg (hg : RenamesGrammar f g g') : Renames f (indexArg g) (indexArg g') :=
  renames_here.bind fun _ => (renames_eat .star).bind fun _ => hg.expr.bind fun _ => renames_pure rfl

theorem renames_callArg (hg : RenamesGrammar f g g') : Renames f (callArg g) (callArg g') := by
  refine renames_here.bind fun span => (renames_eat .star).bind fun spread => ?_
  refine hg.spread.bind fun e => (renames_eat .equal).bind fun b => ?_
  cases b with
  | false => exact renames_pure rfl
  | true =>
      have hname : (rename f e).name? = e.name?.map f := Expr.name?_mapNames e
      have hspan : (rename f e).span = e.span := Expr.span_mapNames e
      simp only [hname, hspan]
      cases e.name? with
      | none => exact renames_fail rfl e.span
      | some n => exact hg.spread.bind fun value => renames_pure rfl

variable [Naming ν] [Naming μ] [Renaming f]

/-! ## Names and lists -/

theorem renames_subject : Renames f subject subject := by
  refine (renames_eat .leftParen).bind fun b => ?_
  cases b with
  | true =>
      refine renames_expectName.bind fun n => (renames_expect .rightParen).bind fun _ => ?_
      exact renames_pure rfl
  | false => exact renames_pure rfl

theorem renames_caughtName : Renames f caughtName caughtName := by
  refine (renames_eat .leftParen).bind fun b => ?_
  cases b with
  | true =>
      refine renames_declaredName.bind fun n => (renames_expect .rightParen).bind fun _ => ?_
      exact renames_pure rfl
  | false => exact renames_pure rfl

theorem renames_lambdaParams : Renames f lambdaParams lambdaParams := by
  refine (renames_eat .colon).bind fun b => ?_
  cases b with
  | true => exact renames_pure rfl
  | false =>
      refine (renames_loop (fun params => ?_) []).bind fun params => ?_
      · refine renames_lambdaParam.bind fun p => (renames_eat .comma).bind fun b => ?_
        cases b <;> exact renames_pure rfl
      · exact (renames_expect .arrow).bind fun _ => renames_pure List.map_reverse

theorem Renames.args {arg : Parser ν (Arg ν (Expr ν))} {arg' : Parser μ (Arg μ (Expr μ))}
    (harg : Renames f arg arg') (close : Symbol) :
    Renames f (Parser.args arg close) (Parser.args arg' close) := by
  refine renames_skipLineEnds.bind fun _ => (renames_eat close).bind fun b => ?_
  cases b with
  | true => exact renames_pure rfl
  | false =>
      refine harg.commaList.bind fun found => renames_skipLineEnds.bind fun _ => ?_
      exact (renames_expect close).bind fun _ => renames_pure rfl

variable (hg : RenamesGrammar f g g')

include hg

theorem renames_parenthesized : Renames f (parenthesized g) (parenthesized g') :=
  (renames_expect .leftParen).bind fun _ => hg.expr.bind fun _ =>
    (renames_expect .rightParen).bind fun _ => renames_pure rfl

theorem renames_ifElse : Renames f (ifElse g) (ifElse g') := by
  refine (renames_expectWord .ifKey).bind fun span => (renames_parenthesized hg).bind fun condition => ?_
  refine (renames_exprBody hg).bind fun body => renames_skipLineEnds.bind fun _ => ?_
  refine (renames_eatWord .elseKey).bind fun b => ?_
  cases b with
  | true => exact (renames_exprBody hg).bind fun otherwise => renames_pure rfl
  | false => exact renames_pure rfl

/-! ## Cases -/

theorem renames_branch : Renames f (branch g) (branch g') := by
  refine renames_here.bind fun span => hg.expr.bind fun condition => ?_
  refine (renames_expectLine .arrow).bind fun _ => (renames_exprBody hg).bind fun body => ?_
  exact renames_skipLineEnds.bind fun _ => renames_pure rfl

theorem renames_elseBranch : Renames f (elseBranch g) (elseBranch g') := by
  refine (renames_expectLine .arrow).bind fun _ => (renames_exprBody hg).bind fun body => ?_
  refine renames_skipLineEnds.bind fun _ => (renames_at? .rightBrace).bind fun b => ?_
  cases b with
  | true => exact renames_pure rfl
  | false => exact renames_here.bind fun span => renames_fail rfl span

theorem renames_branches : Renames f (branches g) (branches g') := by
  refine (renames_loop (fun found => ?_) []).bind fun ⟨found, otherwise⟩ => ?_
  · refine (renames_at? .rightBrace).bind fun b => ?_
    cases b with
    | true => exact renames_pure rfl
    | false =>
        refine (renames_eatWord .elseKey).bind fun b => ?_
        cases b with
        | true => exact (renames_elseBranch hg).bind fun body => renames_pure rfl
        | false => exact (renames_branch hg).bind fun b => renames_pure rfl
  · exact renames_pure (congrArg (·, rename f otherwise) List.map_reverse)

theorem renames_whenCase : Renames f (whenCase g) (whenCase g') := by
  refine (renames_expectWord .when).bind fun span => renames_subject.bind fun subject => ?_
  refine (renames_expectLine .leftBrace).bind fun _ => ?_
  refine (renames_branches hg).bind fun ⟨branches, otherwise⟩ => ?_
  refine (renames_expect .rightBrace).bind fun _ => renames_pure ?_
  exact congr (congrArg (Expr.whenCase span (subject.map f)) (Branches.mapNames_eq_map branches))
    (Expr?.mapNames_eq_map otherwise)

theorem renames_catchPart : Renames f (catchPart g) (catchPart g') := by
  refine (renames_eatWord .catchKey).bind fun b => ?_
  cases b with
  | true =>
      refine renames_caughtName.bind fun error => (renames_exprBody hg).bind fun handler => ?_
      exact renames_skipLineEnds.bind fun _ => renames_pure rfl
  | false => exact renames_pure rfl

theorem renames_tryCatch : Renames f (tryCatch g) (tryCatch g') := by
  refine (renames_expectWord .tryKey).bind fun span => (renames_exprBody hg).bind fun body => ?_
  refine renames_skipLineEnds.bind fun _ => (renames_catchPart hg).bind fun ⟨error, handler⟩ => ?_
  refine (renames_finallyPart hg).bind fun finalizer => renames_pure ?_
  exact congr (congrArg (Expr.tryCatch span (body.mapNames f) (error.map f))
    (Expr?.mapNames_eq_map handler)) (Expr?.mapNames_eq_map finalizer)

/-! ## Lists and lambdas -/

theorem renames_comprehension (span : Span) (element : Expr ν) :
    Renames f (comprehension g span element) (comprehension g' span (element.mapNames f)) := by
  refine (renames_expectWord .forKey).bind fun _ => renames_pattern.bind fun names => ?_
  refine (renames_expect .colon).bind fun _ => hg.expr.bind fun iterable => ?_
  refine renames_skipLineEnds.bind fun _ => ?_
  have hclose (condition : Option (Expr ν)) : Renames f
      (skipLineEnds >>= fun _ => expect .rightBracket >>= fun _ =>
        pure (Expr.comprehension span element names iterable condition))
      (skipLineEnds >>= fun _ => expect .rightBracket >>= fun _ =>
        pure (Expr.comprehension span (element.mapNames f) (names.mapNames f) (iterable.mapNames f)
          (condition.map (Expr.mapNames f)))) := by
    refine renames_skipLineEnds.bind fun _ => (renames_expect .rightBracket).bind fun _ => ?_
    exact renames_pure (congrArg (Expr.comprehension span _ _ _) (Expr?.mapNames_eq_map condition))
  refine (renames_eatWord .ifKey).bind fun b => ?_
  cases b with
  | true =>
      have hcondition : Renames f (some <$> g.expr) (some <$> g'.expr) := hg.expr.map fun _ => rfl
      exact hcondition.bind hclose
  | false => exact hclose none

theorem renames_listEnd (span : Span) (elements : List (Expr ν)) :
    Renames f (listEnd g span elements) (listEnd g' span (elements.map (Expr.mapNames f))) := by
  have hlist : Renames f (expect .rightBracket >>= fun _ => pure (Expr.list span elements))
      (expect .rightBracket >>= fun _ => pure (Expr.list span (elements.map (Expr.mapNames f)))) :=
    (renames_expect .rightBracket).bind fun _ =>
      renames_pure (congrArg (Expr.list span) (Exprs.mapNames_eq_map elements))
  refine (renames_atWord? .forKey).bind fun b => ?_
  match elements, b with
  | [element], true => exact renames_comprehension hg span element
  | [_], false => exact hlist
  | [], _ => exact hlist
  | _ :: _ :: _, _ => exact hlist

theorem renames_listExpr : Renames f (listExpr g) (listExpr g') := by
  refine (renames_expectLine .leftBracket).bind fun span => (renames_eat .rightBracket).bind fun b => ?_
  cases b with
  | true => exact renames_pure rfl
  | false =>
      refine hg.expr.commaList.bind fun elements => renames_skipLineEnds.bind fun _ => ?_
      exact renames_listEnd hg span elements

theorem renames_lambda : Renames f (lambda g) (lambda g') := by
  refine (renames_expect .colon).bind fun span => renames_lambdaParams.bind fun params => ?_
  refine (renames_exprBody hg).bind fun body => renames_pure ?_
  have hspan : body.span = (body.mapNames f).span := (Expr.span_mapNames body).symm
  exact congr (congrArg (fun params span' => Expr.lambda span
    ⟨span, "", false, none, params, some (.returnValue span' (some (body.mapNames f)))⟩)
    (Params.mapNames_eq_map params)) hspan

/-! ## Terminals -/

theorem renames_terminal : Renames f (terminal g) (terminal g') := by
  rintro ⟨⟨span, kind⟩, rest, ending, warnings, classes⟩
  refine renamesAt_get ?_
  cases kind with
  | value literal => exact (renames_advance _).bind fun _ => renames_pure rfl
  | name n => exact (renames_advance _).bind fun _ => renames_pure rfl
  | symbol s =>
      cases s with
      | leftParen => exact renames_parenthesized hg _
      | leftBracket => exact (renames_listExpr hg).inside .list _
      | colon => exact (renames_lambda hg).inside .lambda _
      | _ => exact renames_fail rfl span _
  | keyword k =>
      cases k with
      | ifKey => exact (renames_ifElse hg).inside .ifElse _
      | when => exact (renames_whenCase hg).inside .whenCase _
      | tryKey => exact (renames_tryCatch hg).inside .tryCatch _
      | _ => exact renames_fail rfl span _
  | _ => exact renames_fail rfl span _

/-! ## Calls and indices -/

theorem renames_indexArgs : Renames f (indexArgs g) (indexArgs g') :=
  (renames_indexArg hg).args .rightBracket

theorem renames_callArgs : Renames f (callArgs g) (callArgs g') :=
  (renames_callArg hg).args .rightParen

/-! ## Postfixes and operands -/

theorem renames_postfixRound (target : Expr ν) :
    Renames f (postfixRound g target) (postfixRound g' (target.mapNames f)) := by
  rintro ⟨⟨span, kind⟩, rest, ending, warnings, classes⟩
  refine renamesAt_get ?_
  cases kind with
  | symbol s =>
      cases s with
      | dot =>
          refine (renames_advance _).bind fun _ => renames_expectName.bind fun n => ?_
          exact renames_pure rfl
      | leftBracket =>
          refine (renames_advance _).bind fun _ => ?_
          refine ((renames_indexArgs hg).inside .arguments).bind fun args => renames_pure ?_
          exact congrArg (fun args => Step.again (Expr.index span _ args)) (Args.mapNames_eq_map args)
      | leftParen =>
          refine (renames_advance _).bind fun _ => ?_
          refine ((renames_callArgs hg).inside .arguments).bind fun args => renames_pure ?_
          exact congrArg (fun args => Step.again (Expr.invoke span _ args)) (Args.mapNames_eq_map args)
      | _ => exact renames_pure rfl _
  | _ => exact renames_pure rfl _

theorem renames_postfixed : Renames f (postfixed g) (postfixed g') :=
  (renames_terminal hg).bind (renames_loop (renames_postfixRound hg))

theorem renames_unaryStep : Renames f (unaryStep g) (unaryStep g') := by
  refine renames_kind.bind fun k => ?_
  rw [show unaryOp? (rename f k) = unaryOp? k from unaryOp?_map k]
  cases unaryOp? k with
  | none => exact renames_postfixed hg
  | some op => exact renames_advance.bind fun t => hg.unary.bind fun operand => renames_pure rfl

theorem renames_infixed : Renames f (infixed g) (infixed g') := by
  unfold infixed
  have hlevels : List.Forall₂ _ levels levels := levels_map (f := f)
  generalize (levels : List (Level ν)) = ls, (levels : List (Level μ)) = ls' at hlevels ⊢
  induction hlevels with
  | nil => exact renames_unaryStep hg
  | cons hlevel _ ih => exact ih.chain hlevel

theorem renames_spreadStep : Renames f (spreadStep g) (spreadStep g') := by
  refine (renames_at? .star).bind fun b => ?_
  cases b with
  | true => exact renames_advance.bind fun t => (renames_infixed hg).bind fun e => renames_pure rfl
  | false => exact renames_infixed hg

/-! ## Assignments -/

theorem renames_exprStep : Renames f (exprStep g) (exprStep g') := by
  refine (renames_spreadStep hg).bind fun left => (renames_at? .equal).bind fun b => ?_
  cases b with
  | true =>
      refine renames_advance.bind fun t => (renames_assignmentTarget left).bind fun target => ?_
      exact hg.expr.bind fun value => renames_pure rfl
  | false =>
      refine renames_kind.bind fun k => ?_
      rw [show compoundOp? (rename f k) = compoundOp? k from compoundOp?_map k]
      cases compoundOp? k with
      | none => exact renames_pure rfl
      | some op =>
          refine renames_advance.bind fun t => (renames_assignmentTarget left).bind fun target => ?_
          exact hg.expr.bind fun value => renames_pure rfl

end IslandScript.Parser
