import IslandScript.Proofs.Parser.Follows.Expression

/-!
# Statements in a longer text

A statement is stopped behind the line ends only where an expression at its end is. `grammar n` is followed
by `grammar m` for all `n ≤ m`, for a longer text has more tokens and its grammar may nest deeper
(`follows_grammar`).
-/

namespace IslandScript.Parser

variable {j : Seam} {Pre : Prop} {g g' : Grammar String}

/-! ## What is optional at a line end -/

/-- Whether a token that may be missing is there: line ends and the end of the text are alike. -/
theorem follows_test {α : Type} [Spanned α] (test : TokenKind String → Bool)
    (htest : test .endOfLine = test .endOfFile) (c c' : Bool → Parser String α) {U O : α → Prop}
    (hc : ∀ b, Follows j False (c b) (c' b) U O) :
    Follows j False (kind >>= fun k => c (test k)) (kind >>= fun k => c' (test k)) U O := by
  intro phase s s' htracks hpre
  -- At the end of the shorter stream the other run stands at a line end, for it passed none yet.
  have hsame : test s'.current.kind = test s.current.kind := by
    cases htracks with
    | inside => rfl
    | atBreak _ _ hline => exact (congrArg test hline).trans htest
    | first => exact (hpre rfl).elim
    | finished => exact (hpre rfl).elim
  have hfollows : FollowsAt j (c (test s.current.kind)) (c' (test s'.current.kind)) U O s s' := by
    rw [hsame]
    exact hc _ phase s s' htracks hpre
  exact hfollows

theorem follows_at? {α : Type} [Spanned α] (x : Symbol) {c c' : Bool → Parser String α} {U O : α → Prop}
    (hc : ∀ b, Follows j False (c b) (c' b) U O) :
    Follows j False (at? x >>= c) (at? x >>= c') U O :=
  follows_test (· == .symbol x) rfl c c' hc

/-- A part that may be missing ends with an expression that may go on. -/
def EndsUnfinished {α : Type} (unfinished : α → Bool) (part : Option α) : Prop :=
  ∃ x ∈ part, unfinished x = true

/-! ## Bodies and bindings -/

theorem failsAtEnd_stmtBody (hg : FailAtEnd g) : FailsAtEnd (stmtBody g) := by
  refine atEnd_here.bind fun span _ => ?_
  refine (atEnd_eatLine .leftBrace).bind fun b hb => ?_
  rw [hb]
  exact hg.stmt

theorem follows_stmtBody (hg : FollowGrammar j g g') :
    FollowsStmt j Pre (stmtBody g) (stmtBody g') := by
  refine (failsAtEnd_stmtBody hg.fail).follows fun s s' htracks => ?_
  refine followsAt_here ?_
  rw [htracks.span_eq]
  refine ((follows_eatLine .leftBrace).at htracks).bind (fun b => ?_) fun b hb => hb.2.1.elim
  cases b with
  | false => exact hg.stmt
  | true =>
      refine (hg.stmt.untilBrace hg.fail.stmt).andThen fun stmts => ?_
      refine follows_pure ?_ fun h => h.elim
      simp only [moved, Stmt.mapSpans, Stmts.mapSpans_eq_map]

theorem failsAtEnd_bindingKeyword : FailsAtEnd bindingKeyword := by
  refine (atEnd_eatWord .letKey).bind fun b hb => ?_
  rw [hb]
  exact (failsAtEnd_expectWord .varKey).bind

theorem follows_bindingKeyword :
    Follows j False bindingKeyword bindingKeyword (fun _ => False) (fun _ => False) := by
  refine (follows_eatWord_closed .letKey).andThen fun b => ?_
  cases b with
  | true => exact follows_pure rfl id
  | false => exact (follows_expectWord .varKey).andThen fun _ => follows_pure rfl id

theorem failsAtEnd_declaration : FailsAtEnd (declaration g) :=
  atEnd_here.bind fun _ _ => failsAtEnd_bindingKeyword.bind

theorem follows_declaration (hg : FollowGrammar j g g') :
    FollowsStmt j Pre (declaration g) (declaration g') := by
  refine failsAtEnd_declaration.follows fun s s' htracks => ?_
  refine followsAt_here ?_
  rw [htracks.span_eq]
  refine (follows_bindingKeyword.andThen fun kind => ?_).at htracks
  refine (follows_eatWord_closed .mutKey).andThen fun mutable => ?_
  refine follows_pattern.andThen fun names => ?_
  refine (follows_expectLine .equal).andThen fun _ => ?_
  exact hg.expr.bind (fun value => follows_pure rfl id) fun value h => atEnd_pure h

/-! ## Loops -/

theorem follows_whileLoop (hg : FollowGrammar j g g') :
    FollowsStmt j Pre (whileLoop g) (whileLoop g') := by
  refine (follows_expectWord .whileKey).andThen fun span => ?_
  refine follows_label.andThen fun label => ?_
  refine (follows_parenthesized hg).andThen fun condition => ?_
  exact (follows_stmtBody hg).bind (fun body => follows_pure rfl id) fun body h => atEnd_pure h

theorem follows_doLoop (hg : FollowGrammar j g g') :
    FollowsStmt j Pre (doLoop g) (doLoop g') := by
  refine (follows_expectWord .doKey).andThen fun span => ?_
  refine follows_label.andThen fun label => ?_
  refine (follows_stmtBody hg).closedBy (fun body => ?_) fun body =>
    atEnd_skipLineEnds.bind fun _ _ => (failsAtEnd_expectWord .whileKey).bind
  refine follows_skipLineEnds.andThen fun _ => ?_
  refine (follows_expectWord .whileKey).andThen fun _ => ?_
  exact (follows_parenthesized hg).andThen fun condition => follows_pure rfl fun h => h.elim

theorem follows_loopCount (hg : FollowGrammar j g g') :
    Follows j False (loopCount g) (loopCount g') (fun _ => False) (fun _ => False) := by
  refine follows_at? .leftParen fun b => ?_
  cases b with
  | true => exact ((follows_parenthesized hg).weaken id).map (fun _ => rfl) (fun _ => id) fun _ => id
  | false => exact follows_pure rfl id

theorem follows_countedLoop (hg : FollowGrammar j g g') :
    FollowsStmt j Pre (countedLoop g) (countedLoop g') := by
  refine (follows_expectWord .loop).andThen fun span => ?_
  refine follows_label.andThen fun label => ?_
  refine (follows_loopCount hg).andThen fun count => ?_
  refine (follows_stmtBody hg).bind (fun body => follows_pure ?_ id) fun body h => atEnd_pure h
  simp only [moved, Stmt.mapSpans, Expr?.mapSpans_eq_map]

theorem follows_forLoop (hg : FollowGrammar j g g') :
    FollowsStmt j Pre (forLoop g) (forLoop g') := by
  refine (follows_expectWord .forKey).andThen fun span => ?_
  refine follows_label.andThen fun label => ?_
  refine (follows_expect .leftParen).andThen fun _ => ?_
  refine (follows_pattern).andThen fun names => ?_
  refine (follows_expect .colon).andThen fun _ => ?_
  refine hg.expr.closedBy (fun iterable => ?_) fun iterable => (failsAtEnd_expect .rightParen).bind
  refine (follows_expect .rightParen).andThen fun _ => ?_
  exact (follows_stmtBody hg).bind (fun body => follows_pure rfl id) fun body h => atEnd_pure h

/-! ## Jumps and values -/

section

variable {s s' : State String}

theorem followsAt_jump (htracks : j.Tracks .inside s s') {make : Span → Option String → Stmt String}
    (hmake : ∀ span label, make (j.move span) label = moved j.move (make span label)) :
    FollowsAt j (jump make) (jump make) (·.unfinished = true)
      (fun s => s.unfinished = true ∧ j.GoesOn) s s' := by
  refine (followsAt_advance htracks).bind (fun t => ?_) fun _ h => h.elim
  refine follows_label.andThen fun label => ?_
  exact follows_pure (hmake t.span label) fun h => h.elim

theorem followsAt_throwStmt (hg : FollowGrammar j g g') (htracks : j.Tracks .inside s s') :
    FollowsAt j (throwStmt g) (throwStmt g') (·.unfinished = true)
      (fun s => s.unfinished = true ∧ j.GoesOn) s s' := by
  refine (followsAt_advance htracks).bind (fun t => ?_) fun _ h => h.elim
  exact hg.expr.bind (fun value => follows_pure rfl id) fun value h => atEnd_pure h

theorem followsAt_leave (hg : FollowGrammar j g g') (htracks : j.Tracks .inside s s')
    {make : Span → Option (Expr String) → Stmt String}
    (hmake : ∀ span value, make (j.move span) (moved j.move value) = moved j.move (make span value))
    (hunfinished : ∀ span e, (make span (some e)).unfinished = e.unfinished) :
    FollowsAt j (leave g make) (leave g' make) (·.unfinished = true)
      (fun s => s.unfinished = true ∧ j.GoesOn) s s' := by
  refine (followsAt_advance htracks).bind (fun t => ?_) fun _ h => h.elim
  refine follows_test endsStatement rfl
    (fun b => if b = true then pure (make t.span none)
      else g.expr >>= fun e => pure (make t.span (some e)))
    (fun b => if b = true then pure (make (j.move t.span) none)
      else g'.expr >>= fun e => pure (make (j.move t.span) (some e))) fun b => ?_
  cases b with
  | true => exact follows_pure (hmake t.span none) fun h => h.elim
  | false =>
      refine hg.expr.bind (fun e => follows_pure (hmake t.span (some e)) ?_) fun e h => atEnd_pure ?_
      · exact (hunfinished t.span e).trans
      · exact ⟨(hunfinished t.span e).trans h.1, h.2⟩

theorem failsAtEnd_exprStmt (hg : FailAtEnd g) : FailsAtEnd (exprStmt g) :=
  atEnd_here.bind fun _ _ => hg.expr.bind

theorem follows_exprStmt (hg : FollowGrammar j g g') :
    FollowsStmt j Pre (exprStmt g) (exprStmt g') := by
  refine (failsAtEnd_exprStmt hg.fail).follows fun s s' htracks => ?_
  refine followsAt_here ?_
  rw [htracks.span_eq]
  exact (hg.expr.at htracks).bind (fun e => follows_pure rfl id) fun e h => atEnd_pure h

end

/-! ## Parameters -/

theorem atEnd_marker (ofClass : Bool) : AtEnd (marker ofClass) fun _ => True := by
  unfold marker
  split
  next =>
    refine (atEnd_eatWord .letKey).bind fun b hb => ?_
    rw [hb]
    refine (atEnd_eatWord .varKey).bind fun b hb => ?_
    rw [hb]
    exact atEnd_pure trivial
  next => exact atEnd_pure trivial

theorem follows_marker (ofClass : Bool) :
    Follows j False (marker ofClass) (marker ofClass) (fun _ => False) (fun _ => False) := by
  unfold marker
  split
  next =>
    refine (follows_eatWord_closed .letKey).andThen fun b => ?_
    cases b with
    | true => exact follows_pure rfl id
    | false =>
        refine (follows_eatWord_closed .varKey).andThen fun b => ?_
        cases b with
        | true => exact follows_pure rfl id
        | false => exact follows_pure rfl id
  next => exact follows_pure rfl id

theorem failsAtEnd_param (ofClass : Bool) : FailsAtEnd (param g ofClass) :=
  atEnd_here.bind fun _ _ => (atEnd_marker ofClass).bind fun _ _ =>
    (atEnd_eatWord .mutKey).bind fun _ _ => (atEnd_eat .star).bind fun _ _ =>
      failsAtEnd_declaredName.bind

theorem follows_param (hg : FollowGrammar j g g') (ofClass : Bool) :
    Follows j Pre (param g ofClass) (param g' ofClass) (fun _ => True) (fun _ => True) := by
  refine (failsAtEnd_param ofClass).follows fun s s' htracks => ?_
  refine followsAt_here ?_
  rw [htracks.span_eq]
  refine ((follows_marker ofClass).andThen fun marker => ?_).at htracks
  refine (follows_eatWord_closed .mutKey).andThen fun mutable => ?_
  refine (follows_eat_closed .star).andThen fun variadic => ?_
  refine follows_declaredName.andThen fun ⟨n, span⟩ => ?_
  dsimp only [moved]
  split
  next => exact follows_fail
  next =>
    have hparam (default : Option (Expr String)) :
        (⟨(j.move s.current.span).rangeTo (j.move span), marker, mutable, variadic, n,
          moved j.move default⟩ : Param String (Expr String)) =
        moved j.move ⟨s.current.span.rangeTo span, marker, mutable, variadic, n, default⟩ := by
      rw [j.rangeTo_move]
      rfl
    refine (follows_eat_closed .equal).andThen fun b => ?_
    cases b with
    | false => exact follows_pure (hparam none) fun _ => trivial
    | true =>
        refine Follows.bind (hg.expr.map (fun _ => rfl) (fun _ _ => trivial)
          (V := fun _ => True) (W := fun _ => True) fun _ _ => trivial) (fun default => ?_)
          fun default _ => atEnd_pure trivial
        exact follows_pure (hparam default) fun _ => trivial

theorem failsAtEnd_nextParam (ofClass : Bool) (before : List (Param String (Expr String))) :
    FailsAtEnd (nextParam g ofClass before) := by
  unfold nextParam
  split
  next p _ =>
    split
    next => exact failsAtEnd_fail
    next => exact failsAtEnd_param ofClass
  next => exact failsAtEnd_param ofClass

theorem follows_nextParam (hg : FollowGrammar j g g') (ofClass : Bool)
    (before : List (Param String (Expr String))) :
    Follows j Pre (nextParam g ofClass before) (nextParam g' ofClass (moved j.move before))
      (fun _ => True) (fun _ => True) := by
  cases before with
  | nil => exact follows_param hg ofClass
  | cons p before =>
      change Follows j Pre (if p.variadic = true then fail (.misplacedVariadic p.name) p.span
        else param g ofClass) (if p.variadic = true then fail (.misplacedVariadic p.name) (j.move p.span)
        else param g' ofClass) (fun _ => True) fun _ => True
      split
      next => exact follows_fail
      next => exact follows_param hg ofClass

/-- A round of the loop over parameters. -/
def paramRound (g : Grammar String) (ofClass : Bool) (params : List (Param String (Expr String))) :
    Parser String (Step (List (Param String (Expr String))) (List (Param String (Expr String)))) := do
  let p ← nextParam g ofClass params
  if ← eatLine .comma then return .again (p :: params) else return .done (p :: params)

theorem failsAtEnd_paramRound (ofClass : Bool) (params : List (Param String (Expr String))) :
    FailsAtEnd (paramRound g ofClass params) := (failsAtEnd_nextParam ofClass params).bind

theorem follows_paramRound (hg : FollowGrammar j g g') (ofClass : Bool)
    (params : List (Param String (Expr String))) :
    Follows j True (paramRound g ofClass params) (paramRound g' ofClass (moved j.move params))
      (StepHas (fun _ => True) fun _ => True) (StepHas (fun _ => True) fun _ => True) := by
  refine (follows_nextParam hg ofClass params).bind (fun p => ?_) fun p _ => ?_
  · refine (follows_eatLine .comma).bind (fun b => ?_) fun b _ => ?_
    · cases b with
      | false => exact follows_pure rfl fun _ => trivial
      | true => exact follows_pure rfl fun _ => trivial
    · cases b with
      | false => exact atEnd_pure trivial
      | true => exact atEnd_pure trivial
  · refine (atEnd_eatLine .comma).bind fun b hb => ?_
    rw [hb]
    exact atEnd_pure trivial

/-- What stands behind the opening parenthesis of a list of parameters that is not empty. -/
theorem failsAtEnd_paramLoop (ofClass : Bool) :
    FailsAtEnd (loop (paramRound g ofClass) [] : Parser String (List (Param String (Expr String)))) :=
  AtEnd.loop (I := fun _ => True) (fun params _ => (failsAtEnd_paramRound ofClass params).atEnd) trivial

theorem follows_paramList (hg : FollowGrammar j g g') (ofClass : Bool) :
    Follows j Pre (paramList g ofClass) (paramList g' ofClass) (fun _ => False) (fun _ => False) := by
  refine follows_skipLineEnds.andThen fun _ => ?_
  refine (follows_eat .rightParen).bind (fun b => ?_) fun b hb => ?_
  · cases b with
    | true => exact follows_pure rfl fun h => nomatch h.1
    | false =>
        refine Follows.closedBy ((follows_loop (I := fun _ => True) (J := fun _ => True)
          (V := fun _ => True) (W := fun _ => True) (follows_paramRound hg ofClass)
          (fun params _ => (failsAtEnd_paramRound ofClass params).atEnd) []).weaken fun _ => trivial)
          (fun params => ?_) fun params => atEnd_skipLineEnds.bind fun _ _ =>
            (failsAtEnd_expect .rightParen).bind
        refine follows_skipLineEnds.andThen fun _ => ?_
        refine (follows_expect .rightParen).andThen fun _ => ?_
        rw [← moved_reverse]
        exact follows_pure rfl id
  · rw [hb.1]
    exact (failsAtEnd_paramLoop ofClass).bind.atEnd

theorem follows_params (hg : FollowGrammar j g g') (ofClass : Bool) :
    Follows j False (params g ofClass) (params g' ofClass) (fun _ => False) (fun _ => False) := by
  refine (follows_eat_closed .leftParen).andThen fun b => ?_
  cases b with
  | true => exact follows_paramList hg ofClass
  | false => exact follows_pure rfl id

/-! ## Functions -/

theorem follows_functionBody (hg : FollowGrammar j g g') :
    Follows j False (functionBody g) (functionBody g') (EndsUnfinished Stmt.unfinished)
      (fun body => EndsUnfinished Stmt.unfinished body ∧ j.GoesOn) := by
  refine follows_at? .leftBrace fun b => ?_
  cases b with
  | true =>
      refine (follows_stmtBody hg).bind (fun body => ?_) fun body h => ?_
      · exact follows_pure rfl fun h => ⟨body, rfl, h⟩
      · exact atEnd_pure ⟨⟨body, rfl, h.1⟩, h.2⟩
  | false =>
      refine follows_at? .equal fun b => ?_
      cases b with
      | true =>
          refine (follows_expectLine .equal).andThen fun span => ?_
          refine hg.expr.bind (fun value => ?_) fun value h => ?_
          · exact follows_pure rfl fun h => ⟨_, rfl, h⟩
          · exact atEnd_pure ⟨⟨_, rfl, h.1⟩, h.2⟩
      | false => exact follows_pure rfl fun h => h.elim

theorem atEnd_linkPath (n : String) : AtEnd (linkPath n) fun _ => True := by
  intro s _ path s' hrun
  cases hrun
  exact ⟨rfl, trivial⟩

theorem unfinished_function {span : Span} {path : String} {linked : Bool} {n : Option String}
    {params : List (Param String (Expr String))} {body : Option (Stmt String)} {at' : Span}
    (h : EndsUnfinished Stmt.unfinished body) :
    (Stmt.function at' ⟨span, path, linked, n, params, body⟩ : Stmt String).unfinished = true := by
  obtain ⟨s, hs, h⟩ := h
  cases hs
  exact h

theorem follows_function (hg : FollowGrammar j g g') :
    FollowsStmt j Pre (function g) (function g') := by
  refine (follows_expectWord .funKey).andThen fun span => ?_
  refine (follows_eat_closed .atSign).andThen fun linked => ?_
  refine follows_declaredName.andThen fun ⟨n, _⟩ => ?_
  refine (follows_params hg false).andThen fun params => ?_
  refine (follows_functionBody hg).bind (fun body => ?_) fun body h => ?_
  · refine (follows_linkPath n).andThen fun path => follows_pure ?_ unfinished_function
    simp only [moved, Stmt.mapSpans, Function.mapSpans, Params.mapSpans_eq_map, Stmt?.mapSpans_eq_map]
  · exact (atEnd_linkPath n).bind fun path _ => atEnd_pure ⟨unfinished_function h.1, h.2⟩

/-! ## Classes -/

theorem follows_base (hg : FollowGrammar j g g') :
    Follows j False (base g) (base g') (EndsUnfinished Expr.unfinished)
      (fun base => EndsUnfinished Expr.unfinished base ∧ j.GoesOn) := by
  refine (follows_eat_closed .colon).andThen fun b => ?_
  cases b with
  | true =>
      refine Follows.map hg.expr (fun _ => rfl) (fun e h => ⟨e, rfl, h⟩) fun e h => ?_
      exact ⟨⟨e, rfl, h.1⟩, h.2⟩
  | false => exact follows_pure rfl fun h => h.elim

theorem follows_classBody (hg : FollowGrammar j g g') (n : String) :
    Follows j Pre (classBody g n) (classBody g' n) (fun stmts => stmts = [] ∧ Pre)
      (fun stmts => stmts = [] ∧ Pre ∧ j.GoesOn) := by
  refine (follows_eatLine .leftBrace).bind (fun b => ?_) fun b hb => ?_
  · cases b with
    | true =>
        have hstmts : Follows j (true = true ∨ Pre) (Parser.untilBrace g.stmt)
            (Parser.untilBrace g'.stmt) (fun _ => False) (fun _ => False) :=
          hg.stmt.untilBrace hg.fail.stmt
        exact (hstmts.withinClass n).imp (fun _ h => h.elim) fun _ h => h.elim
    | false => exact follows_pure rfl fun h => ⟨rfl, h.resolve_left Bool.false_ne_true⟩
  · rw [hb.1]
    exact atEnd_pure ⟨rfl, hb.2.1, goesOn_of_next hb.2.2 rfl⟩

theorem atEnd_classBody (n : String) : AtEnd (classBody g n) (· = []) := by
  refine (atEnd_eatLine .leftBrace).bind fun b hb => ?_
  rw [hb]
  exact atEnd_pure rfl

theorem unfinished_class {span : Span} {path : String} {linked : Bool} {n : String}
    {params : List (Param String (Expr String))} {base : Option (Expr String)}
    (h : EndsUnfinished Expr.unfinished base) :
    Class.unfinished (⟨span, path, linked, n, params, base, []⟩ : Class String) = true := by
  obtain ⟨e, he, h⟩ := h
  cases he
  exact h

theorem mapSpans_class {f : Span → Span} {span : Span} {path : String} {linked : Bool} {n : String}
    {params : List (Param String (Expr String))} {base : Option (Expr String)}
    {init : List (Stmt String)} :
    Class.mapSpans f ⟨span, path, linked, n, params, base, init⟩ =
      ⟨f span, path, linked, n, moved f params, moved f base, moved f init⟩ := by
  simp only [moved, Class.mapSpans, Params.mapSpans_eq_map, Expr?.mapSpans_eq_map,
    Stmts.mapSpans_eq_map]

theorem follows_classDecl (hg : FollowGrammar j g g') :
    FollowsStmt j Pre (classDecl g) (classDecl g') := by
  refine (follows_expectWord .classKey).andThen fun span => ?_
  refine (follows_eat_closed .atSign).andThen fun linked => ?_
  refine follows_declaredName.andThen fun ⟨n, _⟩ => ?_
  refine (follows_params hg true).andThen fun params => ?_
  refine (follows_base hg).bind (fun base => ?_) fun base h => ?_
  · refine (follows_classBody hg n).bind (fun init => ?_) fun init h => ?_
    · refine follows_pure ?_ fun h => ?_
      · exact congrArg (Stmt.cls (j.move span)) mapSpans_class.symm
      · rw [h.1]
        exact unfinished_class h.2
    · rw [h.1]
      exact atEnd_pure ⟨unfinished_class h.2.1, h.2.2⟩
  · refine (atEnd_classBody n).bind fun init hinit => ?_
    rw [hinit]
    exact atEnd_pure ⟨unfinished_class h.1, h.2⟩

theorem follows_objectDecl (hg : FollowGrammar j g g') :
    FollowsStmt j Pre (objectDecl g) (objectDecl g') := by
  refine (follows_expectWord .object).andThen fun span => ?_
  refine follows_declaredName.andThen fun ⟨n, _⟩ => ?_
  refine (follows_base hg).bind (fun base => ?_) fun base h => ?_
  · refine (follows_classBody hg n).bind (fun init => ?_) fun init h => ?_
    · refine follows_pure ?_ fun h => ?_
      · exact congrArg (Stmt.object (j.move span)) (Eq.symm mapSpans_class)
      · rw [h.1]
        exact unfinished_class h.2
    · rw [h.1]
      exact atEnd_pure ⟨unfinished_class h.2.1, h.2.2⟩
  · refine (atEnd_classBody n).bind fun init hinit => ?_
    rw [hinit]
    exact atEnd_pure ⟨unfinished_class h.1, h.2⟩

/-! ## Enums -/

theorem failsAtEnd_enumEntry (ordinal : Nat) : FailsAtEnd (enumEntry g ordinal) :=
  failsAtEnd_declaredName.bind

theorem follows_enumEntry (hg : FollowGrammar j g g') (ordinal : Nat) :
    Follows j Pre (enumEntry g ordinal) (enumEntry g' ordinal) (fun _ => True) (fun _ => False) := by
  refine follows_declaredName.andThen fun ⟨n, span⟩ => ?_
  have hrest (args : List (Arg String (Expr String))) : Follows j False
      (eat .comma >>= fun _ => skipLineEnds >>= fun _ =>
        pure (⟨span, n, args, ordinal⟩ : EnumEntry String (Expr String)))
      (eat .comma >>= fun _ => skipLineEnds >>= fun _ =>
        pure ⟨j.move span, n, moved j.move args, ordinal⟩) (fun _ => True) (fun _ => False) := by
    refine (follows_eat_closed .comma).andThen fun _ => ?_
    exact follows_skipLineEnds.andThen fun _ => follows_pure rfl fun _ => trivial
  refine (follows_eat_closed .leftParen).andThen fun b => ?_
  cases b with
  | true => exact (follows_callArgs hg).andThen hrest
  | false => exact hrest []

/-- A round of the loop over the entries of an enum. -/
def entryRound (g : Grammar String) (found : List (EnumEntry String (Expr String))) :
    Parser String (Step (List (EnumEntry String (Expr String))) (List (EnumEntry String (Expr String)))) := do
  if ← eat .rightBrace then return .done found
  else return .again ((← enumEntry g found.length) :: found)

theorem failsAtEnd_entryRound (found : List (EnumEntry String (Expr String))) :
    FailsAtEnd (entryRound g found) := by
  refine (atEnd_eat .rightBrace).bind fun b hb => ?_
  rw [hb]
  exact (failsAtEnd_enumEntry found.length).bind

theorem follows_entryRound (hg : FollowGrammar j g g') (found : List (EnumEntry String (Expr String))) :
    Follows j True (entryRound g found) (entryRound g' (moved j.move found))
      (StepHas (fun _ => True) fun _ => False) (StepHas (fun _ => True) fun _ => False) := by
  refine (follows_eat .rightBrace).bind (fun b => ?_) fun b hb => ?_
  · cases b with
    | true => exact follows_pure rfl fun h => nomatch h.1
    | false =>
        have hlength : (moved j.move found).length = found.length := List.length_map _
        rw [hlength]
        exact (follows_enumEntry hg found.length).andThen fun entry => follows_pure rfl fun _ => trivial
  · rw [hb.1]
    exact (failsAtEnd_enumEntry found.length).bind.atEnd

theorem follows_enumEntries (hg : FollowGrammar j g g') :
    Follows j Pre (enumEntries g) (enumEntries g') (fun _ => False) (fun _ => False) := by
  suffices h : Follows j True (enumEntries g) (enumEntries g') (fun _ => False) (fun _ => False) from
    h.weaken fun _ => trivial
  refine (follows_loop (I := fun _ => True) (J := fun _ => True) (V := fun _ => False)
    (W := fun _ => False) (follows_entryRound hg)
    (fun found _ => (failsAtEnd_entryRound found).atEnd) []).andThen fun found => ?_
  rw [← moved_reverse]
  exact follows_pure rfl id

theorem follows_enumDecl (hg : FollowGrammar j g g') :
    FollowsStmt j Pre (enumDecl g) (enumDecl g') := by
  refine (follows_expectWord .enumKey).andThen fun span => ?_
  refine follows_declaredName.andThen fun ⟨n, _⟩ => ?_
  refine (follows_params hg true).andThen fun params => ?_
  refine (follows_expectLine .leftBrace).andThen fun _ => ?_
  refine (follows_enumEntries hg).andThen fun entries => follows_pure ?_ fun h => h.elim
  simp only [moved, Stmt.mapSpans, mapSpans_class, Entries.mapSpans_eq_map]
  rfl

/-! ## The grammar -/

theorem failsAtEnd_stmtStep (hg : FailAtEnd g) : FailsAtEnd (stmtStep g) := by
  refine atEnd_kind.bind fun k hk => ?_
  rw [hk]
  exact failsAtEnd_exprStmt hg

theorem follows_stmtStep (hg : FollowGrammar j g g') :
    FollowsStmt j Pre (stmtStep g) (stmtStep g') := by
  refine (failsAtEnd_stmtStep hg.fail).follows fun s s' htracks => ?_
  refine followsAt_kind ?_
  rw [htracks.kind_eq]
  split
  next => exact (follows_declaration hg).inside.at htracks
  next => exact (follows_declaration hg).inside.at htracks
  next => exact (follows_whileLoop hg).inside.at htracks
  next => exact (follows_doLoop hg).inside.at htracks
  next => exact (follows_countedLoop hg).inside.at htracks
  next => exact (follows_forLoop hg).inside.at htracks
  next => exact followsAt_jump htracks fun _ _ => rfl
  next => exact followsAt_jump htracks fun _ _ => rfl
  next => exact followsAt_throwStmt hg htracks
  next => exact followsAt_throwStmt hg htracks
  next =>
    refine followsAt_leave hg htracks (fun span value => ?_) fun _ _ => rfl
    simp only [moved, Stmt.mapSpans, Expr?.mapSpans_eq_map]
  next =>
    refine followsAt_leave hg htracks (fun span value => ?_) fun _ _ => rfl
    simp only [moved, Stmt.mapSpans, Expr?.mapSpans_eq_map]
  next => exact (follows_function hg).inside.at htracks
  next => exact (follows_classDecl hg).inside.at htracks
  next => exact (follows_objectDecl hg).inside.at htracks
  next => exact (follows_enumDecl hg).inside.at htracks
  next => exact (follows_stmtBody hg).at htracks
  next => exact (follows_exprStmt hg).at htracks

theorem failAtEnd_grammar (n : Nat) : FailAtEnd (grammar n) := by
  induction n with
  | zero => exact ⟨failsAtEnd_throw, failsAtEnd_throw, failsAtEnd_throw, failsAtEnd_throw⟩
  | succ n ih =>
      exact {
        expr := (failsAtEnd_exprStep : FailsAtEnd (exprStep (grammar n)))
        spread := (failsAtEnd_spreadStep : FailsAtEnd (spreadStep (grammar n)))
        unary := (failsAtEnd_unaryStep : FailsAtEnd (unaryStep (grammar n)))
        stmt := failsAtEnd_stmtStep ih }

/-- A grammar is followed by one whose rules may nest deeper. -/
theorem follows_grammar {n m : Nat} (h : n ≤ m) : FollowGrammar j (grammar n) (grammar m) := by
  -- By induction on the depth of the first: the rules of a depth are those of the one before, put together.
  induction n generalizing m with
  | zero =>
      exact {
        fail := failAtEnd_grammar 0
        expr := follows_throw
        spread := follows_throw
        unary := follows_throw
        stmt := follows_throw }
  | succ n ih =>
      obtain ⟨m, rfl⟩ : ∃ k, m = k + 1 := Nat.exists_eq_succ_of_ne_zero (Nat.ne_zero_of_lt h)
      have hg : FollowGrammar j (grammar n) (grammar m) := ih (Nat.le_of_succ_le_succ h)
      exact {
        fail := failAtEnd_grammar (n + 1)
        expr := follows_exprStep hg
        spread := follows_spreadStep hg
        unary := follows_unaryStep hg
        stmt := follows_stmtStep hg }

end IslandScript.Parser
