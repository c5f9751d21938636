import IslandScript.Proofs.Parser.Follows.Block

/-!
# Expressions in a longer text

Lists, calls and indices need their closing bracket. Behind an expression the loops over postfixes and
infix operators, and the rule of assignments, look for a token that goes on with it. They pass no line ends
themselves: they see what stands on a later row only where the expression before is unfinished.
-/

namespace IslandScript.Parser

variable {j : Seam} {Pre : Prop} {g g' : Grammar String}

/-! ## Lists and lambdas -/

theorem failsAtEnd_comprehension {span : Span} {element : Expr String} :
    FailsAtEnd (comprehension g span element) := (failsAtEnd_expectWord .forKey).bind

/-- What stands behind the condition of a comprehension. -/
theorem failsAtEnd_comprehensionEnd {e : Expr String} : FailsAtEnd (skipLineEnds >>= fun _ =>
    expect .rightBracket >>= fun _ => pure e) :=
  atEnd_skipLineEnds.bind fun _ _ => (failsAtEnd_expect .rightBracket).bind

theorem follows_comprehension (hg : FollowGrammar j g g') (span : Span) (element : Expr String) :
    Follows j Pre (comprehension g span element)
      (comprehension g' (j.move span) (moved j.move element)) (fun _ => False) (fun _ => False) := by
  refine (follows_expectWord .forKey).andThen fun _ => ?_
  refine follows_pattern.andThen fun names => ?_
  refine (follows_expect .colon).andThen fun _ => ?_
  refine hg.expr.closedBy (fun iterable => ?_) fun iterable => ?_
  · have hclose {Q : Prop} (condition : Option (Expr String)) : Follows j Q
        (skipLineEnds >>= fun _ => expect .rightBracket >>= fun _ =>
          pure (Expr.comprehension span element names iterable condition))
        (skipLineEnds >>= fun _ => expect .rightBracket >>= fun _ =>
          pure (Expr.comprehension (j.move span) (moved j.move element) names (moved j.move iterable)
            (moved j.move condition))) (fun _ => False) (fun _ => False) := by
      refine follows_skipLineEnds.andThen fun _ => ?_
      refine (follows_expect .rightBracket).andThen fun _ => follows_pure ?_ id
      simp only [moved, Expr.mapSpans, Expr?.mapSpans_eq_map]
    refine follows_skipLineEnds.andThen fun _ => ?_
    refine (follows_eatWord .ifKey).bind (fun b => ?_) fun b hb => ?_
    · cases b with
      | false => exact hclose none
      | true =>
          refine Follows.closedBy (hg.expr.map (fun _ => rfl) (fun _ _ => trivial)
            (V := fun _ => True) (W := fun _ => True) fun _ _ => trivial) (fun condition => ?_)
            fun condition => failsAtEnd_comprehensionEnd
          exact hclose condition
    · rw [hb.1]
      exact failsAtEnd_comprehensionEnd.atEnd
  · refine atEnd_skipLineEnds.bind fun _ _ => ?_
    refine (atEnd_eatWord .ifKey).bind fun b hb => ?_
    rw [hb]
    exact failsAtEnd_comprehensionEnd

/-- What stands behind the elements of a list. -/
theorem failsAtEnd_listEnd {span : Span} {elements : List (Expr String)} :
    FailsAtEnd (listEnd g span elements) := by
  refine (atEnd_atWord? .forKey).bind fun b _ => ?_
  split
  next => exact failsAtEnd_comprehension
  next => exact (failsAtEnd_expect .rightBracket).bind

theorem follows_listEnd (hg : FollowGrammar j g g') (span : Span) (elements : List (Expr String)) :
    Follows j Pre (listEnd g span elements) (listEnd g' (j.move span) (moved j.move elements))
      (fun _ => False) (fun _ => False) := by
  refine failsAtEnd_listEnd.follows fun s s' htracks => followsAt_atWord? htracks fun b => ?_
  have hlist : Follows j False (expect .rightBracket >>= fun _ => pure (Expr.list span elements))
      (expect .rightBracket >>= fun _ => pure (Expr.list (j.move span) (moved j.move elements)))
      (fun _ => False) (fun _ => False) := by
    refine (follows_expect .rightBracket).andThen fun _ => follows_pure ?_ id
    simp only [moved, Expr.mapSpans, Exprs.mapSpans_eq_map]
  match elements, b with
  | [element], true => exact (follows_comprehension hg span element).at htracks
  | [_], false => exact hlist.at htracks
  | [], _ => exact hlist.at htracks
  | _ :: _ :: _, _ => exact hlist.at htracks

theorem follows_listExpr (hg : FollowGrammar j g g') :
    Follows j Pre (listExpr g) (listExpr g') (fun _ => False) (fun _ => False) := by
  refine (follows_expectLine .leftBracket).andThen fun span => ?_
  refine (follows_eat .rightBracket).bind (fun b => ?_) fun b hb => ?_
  · cases b with
    | true => exact follows_pure rfl fun h => nomatch h.1
    | false =>
        refine ((hg.expr.commaList hg.fail.expr).weaken fun _ => trivial).closedBy
          (fun elements => ?_) fun elements => ?_
        · exact follows_skipLineEnds.andThen fun _ => follows_listEnd hg span elements
        · exact atEnd_skipLineEnds.bind fun _ _ => failsAtEnd_listEnd
  · rw [hb.1]
    exact (failsAtEnd_commaList hg.fail.expr).bind.atEnd

theorem follows_lambdaParam :
    Follows j Pre lambdaParam lambdaParam (fun _ => False) (fun _ => False) :=
  follows_expectName.andThen fun ⟨_, _⟩ => follows_pure rfl id

theorem follows_lambdaParams :
    Follows j False lambdaParams lambdaParams (fun _ => False) (fun _ => False) := by
  refine (follows_eat_closed .colon).andThen fun b => ?_
  cases b with
  | true => exact follows_pure rfl id
  | false =>
      refine (follows_loop (I := fun _ => False) (J := fun _ => False) (V := fun _ => False)
        (W := fun _ => False) (fun params => ?_) (fun _ h => h.elim) []).andThen fun params => ?_
      · refine follows_lambdaParam.andThen fun p => ?_
        refine (follows_eat_closed .comma).andThen fun b => ?_
        cases b with
        | false => exact follows_pure rfl id
        | true => exact follows_pure rfl id
      · rw [← moved_reverse]
        exact (follows_expect .arrow).andThen fun _ => follows_pure rfl id

theorem follows_lambda (hg : FollowGrammar j g g') : FollowsExpr j Pre (lambda g) (lambda g') := by
  refine (follows_expect .colon).andThen fun span => ?_
  refine follows_lambdaParams.andThen fun params => ?_
  refine (follows_exprBody hg).bind (fun body => ?_) fun body h => ?_
  · refine follows_pure ?_ id
    simp only [moved, Expr.mapSpans, Function.mapSpans, Params.mapSpans_eq_map, Stmt?.mapSpans,
      Stmt.mapSpans, Expr?.mapSpans, Expr.span_mapSpans]
  · exact atEnd_pure h

/-! ## Terminals -/

theorem failsAtEnd_terminal : FailsAtEnd (terminal g) := by
  intro s hs a s' hrun
  obtain ⟨⟨span, k⟩, rest, ending, warnings, classes⟩ := s
  obtain ⟨hkind, hrest⟩ := hs
  dsimp only at hkind
  subst hkind
  cases hrun

theorem follows_terminal (hg : FollowGrammar j g g') :
    FollowsExpr j Pre (terminal g) (terminal g') := by
  refine failsAtEnd_terminal.follows fun s s' htracks => ?_
  refine followsAt_get ?_
  rw [htracks.current_eq]
  generalize s.current = current
  obtain ⟨span, k⟩ := current
  dsimp only
  split
  next literal heq =>
    cases heq
    exact (followsAt_advance htracks).bind (fun _ => follows_pure rfl fun h => h.elim) fun _ h => h.elim
  next n heq =>
    cases heq
    exact (followsAt_advance htracks).bind (fun _ => follows_pure rfl fun h => h.elim) fun _ h => h.elim
  next heq =>
    cases heq
    exact ((follows_parenthesized hg).imp (fun _ h => h.elim) fun _ h => h.elim).at htracks
  next heq =>
    cases heq
    exact ((follows_listExpr hg).inside.imp (fun _ h => h.elim) fun _ h => h.elim).at htracks
  next heq =>
    cases heq
    exact (follows_lambda hg).inside.at htracks
  next heq =>
    cases heq
    exact (follows_ifElse hg).inside.at htracks
  next heq =>
    cases heq
    exact ((follows_whenCase hg).inside.imp (fun _ h => h.elim) fun _ h => h.elim).at htracks
  next heq =>
    cases heq
    exact (follows_tryCatch hg).inside.at htracks
  next => exact fun _ _ hrun => nomatch hrun

/-! ## Calls and indices -/

theorem failsAtEnd_indexArg (hg : FailAtEnd g) : FailsAtEnd (indexArg g) :=
  atEnd_here.bind fun _ _ => (atEnd_eat .star).bind fun _ _ => hg.expr.bind

theorem follows_indexArg (hg : FollowGrammar j g g') :
    Follows j Pre (indexArg g) (indexArg g') (fun _ => True) (fun _ => True) := by
  refine (failsAtEnd_indexArg hg.fail).follows fun s s' htracks => ?_
  refine followsAt_here ?_
  rw [htracks.span_eq]
  refine ((follows_eat_closed .star).andThen fun spread => ?_).at htracks
  exact hg.expr.bind (fun e => follows_pure rfl fun _ => trivial) fun e _ => atEnd_pure trivial

theorem failsAtEnd_callArg (hg : FailAtEnd g) : FailsAtEnd (callArg g) :=
  atEnd_here.bind fun _ _ => (atEnd_eat .star).bind fun _ _ => hg.spread.bind

theorem follows_callArg (hg : FollowGrammar j g g') :
    Follows j Pre (callArg g) (callArg g') (fun _ => True) (fun _ => True) := by
  refine (failsAtEnd_callArg hg.fail).follows fun s s' htracks => ?_
  refine followsAt_here ?_
  rw [htracks.span_eq]
  refine ((follows_eat_closed .star).andThen fun spread => ?_).at htracks
  refine hg.spread.bind (fun e => ?_) fun e _ => ?_
  · refine (follows_eat .equal).bind (fun b => ?_) fun b hb => ?_
    · cases b with
      | false => exact follows_pure rfl fun _ => trivial
      | true =>
          have hname : (moved j.move e).name? = e.name? := Expr.name?_mapSpans e
          simp only [hname]
          cases e.name? with
          | none => exact follows_fail
          | some n =>
              exact hg.spread.bind (fun value => follows_pure rfl fun _ => trivial)
                fun value _ => atEnd_pure trivial
    · rw [hb.1]
      exact atEnd_pure trivial
  · refine (atEnd_eat .equal).bind fun b hb => ?_
    rw [hb]
    exact atEnd_pure trivial

section Args

variable {arg arg' : Parser String (Arg String (Expr String))} {U O : Arg String (Expr String) → Prop}

theorem Follows.args (harg : Follows j True arg arg' U O) (hfails : FailsAtEnd arg) (close : Symbol) :
    Follows j Pre (Parser.args arg close) (Parser.args arg' close) (fun _ => False) (fun _ => False) := by
  refine follows_skipLineEnds.andThen fun _ => ?_
  refine (follows_eat close).bind (fun b => ?_) fun b hb => ?_
  · cases b with
    | true => exact follows_pure rfl fun h => nomatch h.1
    | false =>
        refine ((harg.commaList hfails).weaken fun _ => trivial).closedBy (fun found => ?_)
          fun found => atEnd_skipLineEnds.bind fun _ _ => (failsAtEnd_expect close).bind
        refine follows_skipLineEnds.andThen fun _ => ?_
        exact (follows_expect close).andThen fun _ => follows_pure rfl id
  · rw [hb.1]
    exact (failsAtEnd_commaList hfails).bind.atEnd

end Args

theorem follows_indexArgs (hg : FollowGrammar j g g') :
    Follows j Pre (indexArgs g) (indexArgs g') (fun _ => False) (fun _ => False) :=
  (follows_indexArg hg).args (failsAtEnd_indexArg hg.fail) .rightBracket

theorem follows_callArgs (hg : FollowGrammar j g g') :
    Follows j Pre (callArgs g) (callArgs g') (fun _ => False) (fun _ => False) :=
  (follows_callArg hg).args (failsAtEnd_callArg hg.fail) .rightParen

/-! ## What goes on with an expression -/

theorem goesOn_of_continues? {k : TokenKind String} {level : Nat} (h : continues? k = some level) :
    goesOn k = true := by
  unfold goesOn
  split
  next => rfl
  next => rfl
  next => rfl
  next => rfl
  next =>
    rw [h]
    rfl

/-- What is known behind a round of the loop of a level. -/
abbrev StepUnfinished : Step (Expr String) (Expr String) → Prop :=
  StepHas (·.unfinished = true) (·.unfinished = true)

/-- What is known where the longer stream stops such a round. -/
abbrev StepStopped (j : Seam) : Step (Expr String) (Expr String) → Prop :=
  StepHas (fun e => e.unfinished = true ∧ j.GoesOn) fun e => e.unfinished = true ∧ j.GoesOn

theorem mayTake_postfixRound (e : Expr String) (s : State String) : MayTake (postfixRound g e) (.done e) s := by
  unfold postfixRound
  refine mayTake_get ?_
  split
  next hs => exact mayTake_advance (by rw [hs]; rfl)
  next hs => exact mayTake_advance (by rw [hs]; rfl)
  next hs => exact mayTake_advance (by rw [hs]; rfl)
  next => exact mayTake_pure

theorem follows_postfixRound (hg : FollowGrammar j g g') (e : Expr String) :
    Follows j (e.unfinished = true) (postfixRound g e) (postfixRound g' (moved j.move e))
      StepUnfinished (StepStopped j) := by
  refine follows_mayTake (fun s s' htracks => ?_) (mayTake_postfixRound e) (mayTake_postfixRound _) id
    fun he hgoesOn => ⟨he, hgoesOn⟩
  refine followsAt_get ?_
  rw [htracks.current_eq]
  generalize s.current = current
  obtain ⟨span, k⟩ := current
  dsimp only
  split
  next heq =>
    cases heq
    refine (followsAt_advance htracks).bind (fun _ => ?_) fun _ h => h.elim
    exact follows_expectName.andThen fun ⟨n, _⟩ => follows_pure rfl fun h => h.elim
  next heq =>
    cases heq
    refine (followsAt_advance htracks).bind (fun _ => ?_) fun _ h => h.elim
    refine (follows_indexArgs hg).inside.andThen fun args => follows_pure ?_ fun h => h.elim
    simp only [moved, Expr.mapSpans, Args.mapSpans_eq_map]
  next heq =>
    cases heq
    refine (followsAt_advance htracks).bind (fun _ => ?_) fun _ h => h.elim
    refine (follows_callArgs hg).inside.andThen fun args => follows_pure ?_ fun h => h.elim
    simp only [moved, Expr.mapSpans, Args.mapSpans_eq_map]
  next hdot hbracket hparen =>
    split
    next heq =>
      cases heq
      exact (hdot _ rfl).elim
    next heq =>
      cases heq
      exact (hbracket _ rfl).elim
    next heq =>
      cases heq
      exact (hparen _ rfl).elim
    next => exact followsAt_pure rfl htracks

theorem mayTake_chainRound {level : Level String} (hlevel : ∀ k op, level k = some op → goesOn k = true)
    {operand : Parser String (Expr String)} (e : Expr String) (s : State String) :
    MayTake (chainRound level operand e) (.done e) s := by
  unfold chainRound
  refine mayTake_kind ?_
  split
  next => exact mayTake_pure
  next op hop => exact mayTake_advance (hlevel _ op hop)

theorem follows_chainRound {level : Level String} (hlevel : ∀ k op, level k = some op → goesOn k = true)
    {operand operand' : Parser String (Expr String)}
    (hoperand : ∀ {Pre : Prop}, FollowsExpr j Pre operand operand') (e : Expr String) :
    Follows j (e.unfinished = true) (chainRound level operand e)
      (chainRound level operand' (moved j.move e)) StepUnfinished (StepStopped j) := by
  refine follows_mayTake (fun s s' htracks => ?_) (mayTake_chainRound hlevel e)
    (mayTake_chainRound hlevel _) id fun he hgoesOn => ⟨he, hgoesOn⟩
  refine followsAt_kind ?_
  rw [htracks.kind_eq]
  split
  next => exact followsAt_pure rfl htracks
  next op _ =>
    refine (followsAt_advance htracks).bind (fun t => ?_) fun _ h => h.elim
    exact hoperand.bind (fun right => follows_pure rfl id) fun right h => atEnd_pure h

/-! ## Levels -/

theorem failsAtEnd_unaryStep : FailsAtEnd (unaryStep g) := by
  refine atEnd_kind.bind fun k hk => ?_
  rw [hk]
  exact failsAtEnd_terminal.bind

theorem follows_postfixed (hg : FollowGrammar j g g') :
    FollowsExpr j Pre (postfixed g) (postfixed g') := by
  have hround (e : Expr String) (h : e.unfinished = true ∧ j.GoesOn) :
      AtEnd (postfixRound g e) (StepStopped j) := MayTake.atEnd (mayTake_postfixRound e) h
  refine (follows_terminal hg).bind (fun e => ?_) fun e h => AtEnd.loop hround h
  exact follows_loop (follows_postfixRound hg) hround e

theorem follows_unaryStep (hg : FollowGrammar j g g') :
    FollowsExpr j Pre (unaryStep g) (unaryStep g') := by
  refine failsAtEnd_unaryStep.follows fun s s' htracks => ?_
  refine followsAt_kind ?_
  rw [htracks.kind_eq]
  split
  next op _ =>
    refine (followsAt_advance htracks).bind (fun t => ?_) fun _ h => h.elim
    exact hg.unary.bind (fun operand => follows_pure rfl id) fun operand h => atEnd_pure h
  next => exact (follows_postfixed hg).at htracks

theorem follows_chain {level : Level String} (hlevel : ∀ k op, level k = some op → goesOn k = true)
    {operand operand' : Parser String (Expr String)}
    (hoperand : ∀ {Pre : Prop}, FollowsExpr j Pre operand operand') :
    FollowsExpr j Pre (chain level operand) (chain level operand') := by
  have hround (e : Expr String) (h : e.unfinished = true ∧ j.GoesOn) :
      AtEnd (chainRound level operand e) (StepStopped j) :=
    MayTake.atEnd (mayTake_chainRound hlevel e) h
  refine hoperand.bind (fun e => ?_) fun e h => AtEnd.loop hround h
  exact follows_loop (follows_chainRound hlevel hoperand) hround e

theorem goesOn_of_level {level : Level String} (hlevel : level ∈ levels) (k : TokenKind String) (op : BinaryOp)
    (h : level k = some op) : goesOn k = true := by
  obtain ⟨n, hn, rfl⟩ := List.getElem_of_mem hlevel
  have hat : infixAt (n + 2) k = some op := by
    rw [infixAt, Nat.add_sub_cancel, List.getD_eq_getElem?_getD, List.getElem?_eq_getElem hn]
    exact h
  exact goesOn_of_continues? (continues?_of_infixAt (Nat.le_add_left 2 n) hat)

/-- The levels of the infix operators are followed, the tightest first. -/
theorem follows_levels (hg : FollowGrammar j g g') {ls : List (Level String)} (hls : ∀ level ∈ ls, level ∈ levels) :
    FollowsExpr j Pre (ls.foldr chain (unaryStep g)) (ls.foldr chain (unaryStep g')) := by
  -- By induction on the levels: the operand of each is the chain of those that bind tighter.
  induction ls generalizing Pre with
  | nil => exact follows_unaryStep hg
  | cons level ls ih =>
      refine follows_chain (goesOn_of_level (hls level List.mem_cons_self)) ?_
      exact ih fun x hx => hls x (List.mem_cons_of_mem level hx)

theorem follows_infixed (hg : FollowGrammar j g g') : FollowsExpr j Pre (infixed g) (infixed g') :=
  follows_levels hg fun _ h => h

theorem failsAtEnd_levels (ls : List (Level String)) : FailsAtEnd (ls.foldr chain (unaryStep g)) := by
  induction ls with
  | nil => exact failsAtEnd_unaryStep
  | cons level ls ih => exact ih.bind

theorem failsAtEnd_spreadStep : FailsAtEnd (spreadStep g) := by
  refine (atEnd_at? .star).bind fun b hb => ?_
  rw [hb]
  exact failsAtEnd_levels levels

theorem follows_spreadStep (hg : FollowGrammar j g g') :
    FollowsExpr j Pre (spreadStep g) (spreadStep g') := by
  refine failsAtEnd_spreadStep.follows fun s s' htracks => ?_
  refine followsAt_at? htracks fun b => ?_
  cases b with
  | true =>
      refine (followsAt_advance htracks).bind (fun t => ?_) fun _ h => h.elim
      exact (follows_infixed hg).bind (fun e => follows_pure rfl id) fun e h => atEnd_pure h
  | false => exact (follows_infixed hg).at htracks

/-! ## Assignments -/

theorem follows_assignmentTarget (left : Expr String) :
    Follows j Pre (assignmentTarget left) (assignmentTarget (moved j.move left)) (fun _ => Pre)
      (fun _ => False) := by
  have hname : (moved j.move left).name? = left.name? := Expr.name?_mapSpans left
  unfold assignmentTarget
  rw [hname]
  split
  next => exact follows_pure rfl id
  next => exact follows_fail

/-- What may stand behind the left side of an assignment. -/
def assignment (g : Grammar String) (left : Expr String) : Parser String (Expr String) := do
  if ← at? .equal then
    let t ← advance
    let target ← assignmentTarget left
    return .assign t.span target (← g.expr)
  else
    match compoundOp? (← kind) with
    | some op =>
      let t ← advance
      let target ← assignmentTarget left
      return .assign t.span target (.binary t.span op left (← g.expr))
    | none => return left

theorem exprStep_eq : exprStep g = spreadStep g >>= assignment g := rfl

theorem goesOn_of_compoundOp? {k : TokenKind String} {op : BinaryOp} (h : compoundOp? k = some op) :
    goesOn k = true := by
  unfold compoundOp? at h
  split at h
  next => rfl
  next => rfl
  next => rfl
  next => rfl
  next => rfl
  next => cases h

theorem mayTake_assignment (left : Expr String) (s : State String) : MayTake (assignment g left) left s := by
  refine mayTake_at? ?_
  split
  next hequal => exact mayTake_advance (by rw [beq_iff_eq.mp hequal]; rfl)
  next =>
    refine mayTake_kind ?_
    split
    next op hop => exact mayTake_advance (goesOn_of_compoundOp? hop)
    next => exact mayTake_pure

theorem follows_assignment (hg : FollowGrammar j g g') (left : Expr String) :
    FollowsExpr j (left.unfinished = true) (assignment g left) (assignment g' (moved j.move left)) := by
  refine follows_mayTake (fun s s' htracks => ?_) (mayTake_assignment left) (mayTake_assignment _) id
    fun he hgoesOn => ⟨he, hgoesOn⟩
  refine followsAt_at? htracks fun b => ?_
  cases b with
  | true =>
      refine (followsAt_advance htracks).bind (fun t => ?_) fun _ h => h.elim
      refine (follows_assignmentTarget left).andThen fun target => ?_
      exact hg.expr.bind (fun value => follows_pure rfl id) fun value h => atEnd_pure h
  | false =>
      refine followsAt_kind ?_
      rw [htracks.kind_eq]
      split
      next op _ =>
        refine (followsAt_advance htracks).bind (fun t => ?_) fun _ h => h.elim
        refine (follows_assignmentTarget left).andThen fun target => ?_
        exact hg.expr.bind (fun value => follows_pure rfl id) fun value h => atEnd_pure h
      next => exact followsAt_pure rfl htracks

theorem failsAtEnd_exprStep : FailsAtEnd (exprStep g) := failsAtEnd_spreadStep.bind

theorem follows_exprStep (hg : FollowGrammar j g g') : FollowsExpr j Pre (exprStep g) (exprStep g') := by
  rw [exprStep_eq, exprStep_eq]
  exact (follows_spreadStep hg).bind (follows_assignment hg) fun e h =>
    MayTake.atEnd (mayTake_assignment e) h

end IslandScript.Parser
