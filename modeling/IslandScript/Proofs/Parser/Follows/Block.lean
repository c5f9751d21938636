import IslandScript.Proofs.Parser.Follows.Tokens

/-!
# Expression bodies in a longer text

A conditional and a `try` look for their further parts behind line ends, and so they are what makes an
expression unfinished. Everything in brackets needs its closing bracket, which is missing where the shorter
text ends.
-/

namespace IslandScript.Parser

variable {j : Seam} {Pre : Prop}

/-- A parser of expressions is followed: behind the line ends stands only one that may go on, and it is
stopped only by a token that goes on with it. -/
abbrev FollowsExpr (j : Seam) (Pre : Prop) (p p' : Parser String (Expr String)) : Prop :=
  Follows j Pre p p' (·.unfinished = true) fun e => e.unfinished = true ∧ j.GoesOn

/-- The same of a parser of statements. -/
abbrev FollowsStmt (j : Seam) (Pre : Prop) (p p' : Parser String (Stmt String)) : Prop :=
  Follows j Pre p p' (·.unfinished = true) fun s => s.unfinished = true ∧ j.GoesOn

/-- The rules of a grammar read nothing at the end of the tokens. -/
structure FailAtEnd (g : Grammar String) : Prop where
  expr : FailsAtEnd g.expr
  spread : FailsAtEnd g.spread
  unary : FailsAtEnd g.unary
  stmt : FailsAtEnd g.stmt

/-- The rules of a grammar are followed by those of another. -/
structure FollowGrammar (j : Seam) (g g' : Grammar String) : Prop where
  fail : FailAtEnd g
  expr : ∀ {Pre : Prop}, FollowsExpr j Pre g.expr g'.expr
  spread : ∀ {Pre : Prop}, FollowsExpr j Pre g.spread g'.spread
  unary : ∀ {Pre : Prop}, FollowsExpr j Pre g.unary g'.unary
  stmt : ∀ {Pre : Prop}, FollowsStmt j Pre g.stmt g'.stmt

section

variable {g g' : Grammar String}

/-! ## Bodies -/

theorem failsAtEnd_bodyItem (hg : FailAtEnd g) : FailsAtEnd (bodyItem g) := by
  refine atEnd_kind.bind fun k hk => ?_
  rw [hk]
  exact hg.expr

theorem follows_bodyItem (hg : FollowGrammar j g g') :
    FollowsExpr j Pre (bodyItem g) (bodyItem g') := by
  refine (failsAtEnd_bodyItem hg.fail).follows fun s s' htracks => ?_
  refine followsAt_kind ?_
  rw [htracks.kind_eq]
  split
  next k _ =>
    split
    next =>
      refine followsAt_here ?_
      rw [htracks.span_eq]
      exact (hg.stmt.at htracks).bind (fun s => follows_pure rfl id) fun s hs => atEnd_pure hs
    next => exact hg.expr.at htracks
  next => exact hg.expr.at htracks

theorem failsAtEnd_exprBody (hg : FailAtEnd g) : FailsAtEnd (exprBody g) := by
  refine atEnd_here.bind fun span _ => ?_
  refine (atEnd_eatLine .leftBrace).bind fun b hb => ?_
  rw [hb]
  exact failsAtEnd_bodyItem hg

theorem follows_exprBody (hg : FollowGrammar j g g') :
    FollowsExpr j Pre (exprBody g) (exprBody g') := by
  refine (failsAtEnd_exprBody hg.fail).follows fun s s' htracks => ?_
  refine followsAt_here ?_
  rw [htracks.span_eq]
  refine ((follows_eatLine .leftBrace).at htracks).bind (fun b => ?_) fun b hb => hb.2.1.elim
  cases b with
  | false => exact follows_bodyItem hg
  | true =>
      refine ((follows_bodyItem hg).untilBrace (failsAtEnd_bodyItem hg.fail)).andThen fun items => ?_
      refine follows_pure ?_ fun h => h.elim
      simp only [moved, Expr.mapSpans, Exprs.mapSpans_eq_map]

theorem follows_parenthesized (hg : FollowGrammar j g g') :
    Follows j Pre (parenthesized g) (parenthesized g') (fun _ => False) (fun _ => False) := by
  refine (follows_expect .leftParen).andThen fun _ => ?_
  refine hg.expr.closedBy (fun e => ?_) fun _ => (failsAtEnd_expect .rightParen).bind
  exact (follows_expect .rightParen).andThen fun _ => follows_pure rfl id

/-! ## Conditionals -/

theorem goesOn_of_next {k : TokenKind String} (h : j.Next k) (hk : goesOn k = true) : j.GoesOn :=
  ⟨k, h, hk⟩

theorem follows_ifElse (hg : FollowGrammar j g g') :
    FollowsExpr j Pre (ifElse g) (ifElse g') := by
  refine (follows_expectWord .ifKey).andThen fun span => ?_
  refine (follows_parenthesized hg).andThen fun condition => ?_
  refine (follows_exprBody hg).bind (fun body => ?_) fun body hbody => ?_
  · -- Here the other run may come behind the line ends, and an `else` there stops it.
    refine follows_skipLineEnds.andThen fun _ => ?_
    refine (follows_eatWord .elseKey).bind (fun b => ?_) fun b hb => ?_
    · cases b with
      | false => exact follows_pure rfl fun _ => rfl
      | true =>
          refine (follows_exprBody hg).bind (fun otherwise => ?_) fun otherwise h => ?_
          · exact follows_pure rfl id
          · exact atEnd_pure h
    · rw [hb.1]
      exact atEnd_pure ⟨rfl, goesOn_of_next hb.2.2 rfl⟩
  · refine atEnd_skipLineEnds.bind fun _ _ => ?_
    refine (atEnd_eatWord .elseKey).bind fun b hb => ?_
    rw [hb]
    exact atEnd_pure ⟨rfl, hbody.2⟩

/-! ## Cases -/

theorem failsAtEnd_branch (hg : FailAtEnd g) : FailsAtEnd (branch g) :=
  atEnd_here.bind fun _ _ => hg.expr.bind

theorem follows_branch (hg : FollowGrammar j g g') :
    Follows j Pre (branch g) (branch g') (fun _ => True) (fun _ => True) := by
  refine (failsAtEnd_branch hg.fail).follows fun s s' htracks => ?_
  refine followsAt_here ?_
  rw [htracks.span_eq]
  refine Follows.at ?_ htracks
  refine hg.expr.closedBy (fun condition => ?_) fun _ => (failsAtEnd_expectLine .arrow).bind
  refine (follows_expectLine .arrow).andThen fun _ => ?_
  refine (follows_exprBody hg).bind (fun body => ?_) fun body _ => ?_
  · exact follows_skipLineEnds.andThen fun _ => follows_pure rfl fun _ => trivial
  · exact atEnd_skipLineEnds.bind fun _ _ => atEnd_pure trivial

theorem follows_elseBranch (hg : FollowGrammar j g g') :
    Follows j Pre (elseBranch g) (elseBranch g') (fun _ => False) (fun _ => False) := by
  have hclose (body : Expr String) : FailsAtEnd (at? .rightBrace >>= fun b =>
      if b = true then pure body else here >>= fun span => fail .earlyElseBranch span) := by
    refine (atEnd_at? .rightBrace).bind fun b hb => ?_
    rw [hb]
    exact fun s _ a s' hrun => nomatch hrun
  refine (follows_expectLine .arrow).andThen fun _ => ?_
  refine (follows_exprBody hg).closedBy (fun body => ?_) fun body =>
    atEnd_skipLineEnds.bind fun _ _ => hclose body
  refine follows_skipLineEnds.andThen fun _ => ?_
  refine (hclose body).follows fun s s' htracks => followsAt_at? htracks fun b => ?_
  cases b with
  | false => exact fun a mid hrun => nomatch hrun
  | true => exact followsAt_pure rfl htracks

/-- A round of the loop over the branches of a `when`. -/
theorem failsAtEnd_branchRound (hg : FailAtEnd g) (found : List (Branch (Expr String))) :
    FailsAtEnd (at? .rightBrace >>= fun b =>
      if b = true then pure (Step.done (found, (none : Option (Expr String))))
      else eatWord .elseKey >>= fun b =>
        if b = true then elseBranch g >>= fun body => pure (.done (found, some body))
        else branch g >>= fun b => pure (.again (b :: found))) := by
  refine (atEnd_at? .rightBrace).bind fun b hb => ?_
  rw [hb]
  refine (atEnd_eatWord .elseKey).bind fun b hb => ?_
  rw [hb]
  exact (failsAtEnd_branch hg).bind

theorem follows_branches (hg : FollowGrammar j g g') :
    Follows j Pre (branches g) (branches g') (fun _ => False) (fun _ => False) := by
  suffices h : Follows j True (branches g) (branches g') (fun _ => False) (fun _ => False) from
    h.weaken fun _ => trivial
  refine (follows_loop (I := fun _ => True) (J := fun _ => True) (V := fun _ => False)
    (W := fun _ => False) (fun found => ?_) (fun found _ => (failsAtEnd_branchRound hg.fail found).atEnd)
    []).andThen fun ⟨found, otherwise⟩ => ?_
  · refine (failsAtEnd_branchRound hg.fail found).follows fun s s' htracks => ?_
    refine followsAt_at? htracks fun b => ?_
    cases b with
    | true => exact followsAt_pure rfl htracks
    | false =>
        refine ((follows_eatWord_closed .elseKey).andThen fun b => ?_).at htracks
        cases b with
        | true => exact (follows_elseBranch hg).andThen fun body => follows_pure rfl id
        | false =>
            refine (follows_branch hg).bind (fun b => ?_) fun b _ => ?_
            · exact follows_pure rfl fun _ => trivial
            · exact atEnd_pure trivial
  · refine follows_pure ?_ id
    simp only [moved, List.map_reverse]

theorem follows_subject : Follows j False subject subject (fun _ => False) (fun _ => False) := by
  refine (follows_eat_closed .leftParen).andThen fun b => ?_
  cases b with
  | false => exact follows_pure rfl id
  | true =>
      refine follows_expectName.andThen fun ⟨n, _⟩ => ?_
      exact (follows_expect .rightParen).andThen fun _ => follows_pure rfl id

theorem follows_whenCase (hg : FollowGrammar j g g') :
    Follows j Pre (whenCase g) (whenCase g') (fun _ => False) (fun _ => False) := by
  refine (follows_expectWord .when).andThen fun span => ?_
  refine follows_subject.andThen fun subject => ?_
  refine (follows_expectLine .leftBrace).andThen fun _ => ?_
  refine (follows_branches hg).andThen fun ⟨found, otherwise⟩ => ?_
  refine (follows_expect .rightBrace).andThen fun _ => follows_pure ?_ id
  simp only [moved, Expr.mapSpans, Branches.mapSpans_eq_map, Expr?.mapSpans_eq_map]

/-! ## Attempts -/

theorem follows_caughtName : Follows j False caughtName caughtName (fun _ => False) (fun _ => False) := by
  refine (follows_eat_closed .leftParen).andThen fun b => ?_
  cases b with
  | false => exact follows_pure rfl id
  | true =>
      refine follows_declaredName.andThen fun ⟨n, _⟩ => ?_
      exact (follows_expect .rightParen).andThen fun _ => follows_pure rfl id

theorem follows_catchPart (hg : FollowGrammar j g g') :
    Follows j True (catchPart g) (catchPart g') (fun _ => True) (fun _ => j.GoesOn) := by
  refine (follows_eatWord .catchKey).bind (fun b => ?_) fun b hb => ?_
  · cases b with
    | false => exact follows_pure rfl fun _ => trivial
    | true =>
        refine (follows_caughtName.weaken fun h => nomatch h.1).andThen fun error => ?_
        refine (follows_exprBody hg).bind (fun handler => ?_) fun handler h => ?_
        · exact follows_skipLineEnds.andThen fun _ => follows_pure rfl fun _ => trivial
        · exact atEnd_skipLineEnds.bind fun _ _ => atEnd_pure h.2
  · rw [hb.1]
    exact atEnd_pure (goesOn_of_next hb.2.2 rfl)

theorem atEnd_catchPart : AtEnd (catchPart g) (· = (none, none)) := by
  refine (atEnd_eatWord .catchKey).bind fun b hb => ?_
  rw [hb]
  exact atEnd_pure rfl

theorem follows_finallyPart (hg : FollowGrammar j g g') :
    Follows j True (finallyPart g) (finallyPart g') (fun e => ∀ x ∈ e, x.unfinished = true)
      (fun e => (∀ x ∈ e, x.unfinished = true) ∧ j.GoesOn) := by
  refine (follows_eatWord .finallyKey).bind (fun b => ?_) fun b hb => ?_
  · cases b with
    | false => exact follows_pure rfl fun _ x hx => nomatch hx
    | true =>
        refine (follows_exprBody hg).bind (fun e => ?_) fun e h => ?_
        · refine follows_pure rfl fun h x hx => ?_
          cases hx
          exact h
        · refine atEnd_pure ⟨fun x hx => ?_, h.2⟩
          cases hx
          exact h.1
  · rw [hb.1]
    exact atEnd_pure ⟨(fun x hx => nomatch hx), goesOn_of_next hb.2.2 rfl⟩

theorem atEnd_finallyPart : AtEnd (finallyPart g) (· = none) := by
  refine (atEnd_eatWord .finallyKey).bind fun b hb => ?_
  rw [hb]
  exact atEnd_pure rfl

theorem unfinished_tryCatch {span : Span} {body : Expr String} {error : Option String}
    {handler finalizer : Option (Expr String)} (h : ∀ x ∈ finalizer, x.unfinished = true) :
    (Expr.tryCatch span body error handler finalizer).unfinished = true := by
  cases finalizer with
  | none => rfl
  | some e => exact h e rfl

theorem follows_tryCatch (hg : FollowGrammar j g g') :
    FollowsExpr j Pre (tryCatch g) (tryCatch g') := by
  refine (follows_expectWord .tryKey).andThen fun span => ?_
  refine (follows_exprBody hg).bind (fun body => ?_) fun body hbody => ?_
  · -- Either part may be what the other run is stopped by, and the second also behind the first.
    refine follows_skipLineEnds.andThen fun _ => ?_
    refine (follows_catchPart hg).bind (fun ⟨error, handler⟩ => ?_) fun ⟨error, handler⟩ h => ?_
    · refine (follows_finallyPart hg).bind (fun finalizer => ?_) fun finalizer h => ?_
      · refine follows_pure ?_ unfinished_tryCatch
        simp only [moved, Expr.mapSpans, Expr?.mapSpans_eq_map]
      · exact atEnd_pure ⟨unfinished_tryCatch h.1, h.2⟩
    · refine atEnd_finallyPart.bind fun finalizer hnone => ?_
      rw [hnone]
      exact atEnd_pure ⟨rfl, h⟩
  · refine atEnd_skipLineEnds.bind fun _ _ => ?_
    refine atEnd_catchPart.bind fun parts hparts => ?_
    rw [hparts]
    refine atEnd_finallyPart.bind fun finalizer hnone => ?_
    rw [hnone]
    exact atEnd_pure ⟨rfl, hbody.2⟩

end

end IslandScript.Parser
