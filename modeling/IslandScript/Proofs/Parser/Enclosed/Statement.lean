import IslandScript.Proofs.Parser.Enclosed.Expression

/-!
# Statements that stand elsewhere

Statements come among the tokens of an expression in its bodies. Only a `return` or an `exit` looks at what
is behind it without need, and so it must not be the last token. `grammar m` matches `grammar n` for all
`n ≤ m` (`matches_grammar`).
-/

namespace IslandScript.Parser

variable {c : Enclosure} {s s' : State String} {g g' : Grammar String}

/-! ## Parts of trees up to their spans -/

theorem Same.stmts {l l' : List (Stmt String)} (h : Same l l') :
    Stmts.mapSpans nowhere l = Stmts.mapSpans nowhere l' := by
  rw [Stmts.mapSpans_eq_map, Stmts.mapSpans_eq_map]
  exact h

theorem Same.stmt? {st st' : Option (Stmt String)} (h : Same st st') :
    Stmt?.mapSpans nowhere st = Stmt?.mapSpans nowhere st' := by
  rw [Stmt?.mapSpans_eq_map, Stmt?.mapSpans_eq_map]
  exact h

theorem Same.entries {es es' : List (EnumEntry String (Expr String))} (h : Same es es') :
    Entries.mapSpans nowhere es = Entries.mapSpans nowhere es' := by
  rw [Entries.mapSpans_eq_map, Entries.mapSpans_eq_map]
  exact h

theorem same_class {span span' : Span} {path : String} {linked : Bool} {n : String}
    {params params' : List (Param String (Expr String))} {base base' : Option (Expr String)}
    {init init' : List (Stmt String)} (hparams : Same params params') (hbase : Same base base')
    (hinit : Same init init') :
    Class.mapSpans nowhere (⟨span, path, linked, n, params, base, init⟩ : Class String) =
      Class.mapSpans nowhere ⟨span', path, linked, n, params', base', init'⟩ := by
  rw [mapSpans_class, mapSpans_class]
  change ClassDecl.mk _ _ _ _ _ _ _ = .mk _ _ _ _ _ _ _
  exact congr (congrArg₂ (ClassDecl.mk Span.none path linked n) hparams hbase) hinit

/-! ## Bodies and bindings -/

theorem matches_stmtBody (hg : MatchGrammar c g g') : Matches c (stmtBody g) (stmtBody g') := by
  refine matches_here.bind fun span span' _ => ?_
  refine (matches_eatLine .leftBrace nofun).andThen fun b => ?_
  cases b with
  | false => exact hg.stmt
  | true =>
      refine hg.stmt.untilBrace.bind fun stmts stmts' hstmts => ?_
      exact matches_pure (congrArg (Stmt.block Span.none) hstmts.stmts)

theorem matches_bindingKeyword : Matches c bindingKeyword bindingKeyword := by
  refine (matches_eatWord .letKey).andThen fun b => ?_
  cases b with
  | true => exact matches_pure rfl
  | false => exact (matches_expectWord .varKey).bind fun _ _ _ => matches_pure rfl

theorem matches_declaration (hg : MatchGrammar c g g') : Matches c (declaration g) (declaration g') := by
  refine matches_here.bind fun span span' _ => ?_
  refine matches_bindingKeyword.andThen fun kind => ?_
  refine (matches_eatWord .mutKey).andThen fun mutable => ?_
  refine matches_pattern.andThen fun names => ?_
  refine (matches_expectLine .equal).bind fun _ _ _ => hg.expr.bind fun value value' hvalue => ?_
  exact matches_pure (congrArg (Stmt.declare Span.none kind mutable names) hvalue)

/-! ## Loops -/

theorem matches_whileLoop (hg : MatchGrammar c g g') : Matches c (whileLoop g) (whileLoop g') := by
  refine (matches_expectWord .whileKey).bind fun span span' _ => ?_
  refine matches_label.andThen fun label => ?_
  refine (matches_parenthesized hg).bind fun condition condition' hcondition => ?_
  refine (matches_stmtBody hg).bind fun body body' hbody => ?_
  exact matches_pure (congrArg₂ (Stmt.whileLoop Span.none label) hcondition hbody)

theorem matches_doLoop (hg : MatchGrammar c g g') : Matches c (doLoop g) (doLoop g') := by
  refine (matches_expectWord .doKey).bind fun span span' _ => ?_
  refine matches_label.andThen fun label => ?_
  refine (matches_stmtBody hg).bind fun body body' hbody => ?_
  refine matches_skipLineEnds.andThen fun _ => (matches_expectWord .whileKey).bind fun _ _ _ => ?_
  refine (matches_parenthesized hg).bind fun condition condition' hcondition => ?_
  exact matches_pure (congrArg₂ (Stmt.doLoop Span.none label) hbody hcondition)

theorem matches_loopCount (hg : MatchGrammar c g g') : Matches c (loopCount g) (loopCount g') := by
  refine matches_at? .leftParen nofun fun b => ?_
  cases b with
  | true => exact (matches_parenthesized hg).map fun _ _ => same_some
  | false => exact matches_pure rfl

theorem matches_countedLoop (hg : MatchGrammar c g g') : Matches c (countedLoop g) (countedLoop g') := by
  refine (matches_expectWord .loop).bind fun span span' _ => ?_
  refine matches_label.andThen fun label => ?_
  refine (matches_loopCount hg).bind fun count count' hcount => ?_
  refine (matches_stmtBody hg).bind fun body body' hbody => ?_
  exact matches_pure (congrArg₂ (Stmt.loop Span.none label) hcount.expr? hbody)

theorem matches_forLoop (hg : MatchGrammar c g g') : Matches c (forLoop g) (forLoop g') := by
  refine (matches_expectWord .forKey).bind fun span span' _ => ?_
  refine matches_label.andThen fun label => ?_
  refine (matches_expect .leftParen).bind fun _ _ _ => ?_
  refine matches_pattern.andThen fun names => ?_
  refine (matches_expect .colon).bind fun _ _ _ => ?_
  refine hg.expr.bind fun iterable iterable' hiterable => ?_
  refine (matches_expect .rightParen).bind fun _ _ _ => ?_
  refine (matches_stmtBody hg).bind fun body body' hbody => ?_
  exact matches_pure (congrArg₂ (Stmt.forLoop Span.none label names) hiterable hbody)

/-! ## Jumps and values -/

section

variable (h : c.Inside s s')

include h

theorem matchesAt_jump {make : Span → Option String → Stmt String}
    (hmake : ∀ span span' label, Same (make span label) (make span' label)) :
    MatchesAt c (jump make) (jump make) s s' :=
  h.matchesAt_advance.bind fun _ _ _ => matches_label.andThen fun label =>
    matches_pure (hmake _ _ label)

theorem matchesAt_throwStmt (hg : MatchGrammar c g g') :
    MatchesAt c (throwStmt g) (throwStmt g') s s' :=
  h.matchesAt_advance.bind fun _ _ _ => hg.expr.bind fun _ _ hvalue =>
    matches_pure (congrArg (Stmt.throwValue Span.none) hvalue)

/-- There is another token behind this one, and whether it ends the statement is the same in both places. -/
theorem matchesAt_leave (hg : MatchGrammar c g g') (hlooks : looksAhead s.current.kind = true)
    {make : Span → Option (Expr String) → Stmt String}
    (hmake : ∀ span span' value value', Same value value' → Same (make span value) (make span' value')) :
    MatchesAt c (leave g make) (leave g' make) s s' := by
  obtain ⟨t, rest, t', rest', hrest, hrest', hnext⟩ := h.exists_next hlooks
  intro a mid hrun
  rw [leave, bind_eq (advance_of_cons hrest)] at hrun
  rw [leave, bind_eq (advance_of_cons hrest')]
  refine hnext.matchesAt_kind ?_ a mid hrun
  split
  next => exact matchesAt_pure (hmake _ _ none none rfl) hnext.tracks
  next =>
    exact (hg.expr _ _ hnext.tracks).bind fun value value' hvalue =>
      matches_pure (hmake _ _ (some value) (some value') (same_some hvalue))

end

theorem matches_exprStmt (hg : MatchGrammar c g g') : Matches c (exprStmt g) (exprStmt g') :=
  matches_here.bind fun _ _ _ => hg.expr.bind fun _ _ he => matches_pure (congrArg (Stmt.expr Span.none) he)

/-! ## Parameters -/

theorem matches_marker (ofClass : Bool) : Matches c (marker ofClass) (marker ofClass) := by
  unfold marker
  split
  next =>
    refine (matches_eatWord .letKey).andThen fun b => ?_
    cases b with
    | true => exact matches_pure rfl
    | false =>
        refine (matches_eatWord .varKey).andThen fun b => ?_
        cases b with
        | true => exact matches_pure rfl
        | false => exact matches_pure rfl
  next => exact matches_pure rfl

theorem matches_param (hg : MatchGrammar c g g') (ofClass : Bool) :
    Matches c (param g ofClass) (param g' ofClass) := by
  refine matches_here.bind fun start start' _ => ?_
  refine (matches_marker ofClass).andThen fun marker => ?_
  refine (matches_eatWord .mutKey).andThen fun mutable => ?_
  refine (matches_eat .star nofun).andThen fun variadic => ?_
  refine matches_declaredName.bind fun ⟨n, span⟩ ⟨n', span'⟩ hn => ?_
  cases hn.fst.eq
  dsimp only
  split
  next => exact matches_fail
  next =>
    have hparam {default default' : Option (Expr String)} (h : Same default default') :
        Same (⟨start.rangeTo span, marker, mutable, variadic, n, default⟩ : Param String (Expr String))
          ⟨start'.rangeTo span', marker, mutable, variadic, n, default'⟩ :=
      congrArg (Param.mk Span.none marker mutable variadic n) h
    refine (matches_eat .equal nofun).andThen fun b => ?_
    cases b with
    | false => exact matches_pure (hparam (Same.refl none))
    | true => exact (hg.expr.map fun _ _ => same_some).bind fun _ _ h => matches_pure (hparam h)

theorem matches_nextParam (hg : MatchGrammar c g g') (ofClass : Bool)
    {before before' : List (Param String (Expr String))} (h : Same before before') :
    Matches c (nextParam g ofClass before) (nextParam g' ofClass before') := by
  cases before with
  | nil =>
      cases before' with
      | nil => exact matches_param hg ofClass
      | cons p' before' => cases h
  | cons p before =>
      cases before' with
      | nil => cases h
      | cons p' before' =>
          have hp : p.mapSpans nowhere = p'.mapSpans nowhere := (List.cons.inj h).1
          have hvariadic : p.variadic = p'.variadic := congrArg (fun p => p.variadic) hp
          change Matches c (if p.variadic = true then fail (.misplacedVariadic p.name) p.span
            else param g ofClass) (if p'.variadic = true then fail (.misplacedVariadic p'.name) p'.span
            else param g' ofClass)
          rw [← hvariadic]
          split
          next => exact matches_fail
          next => exact matches_param hg ofClass

theorem matches_paramRound (hg : MatchGrammar c g g') (ofClass : Bool)
    {params params' : List (Param String (Expr String))} (h : Same params params') :
    Matches c (paramRound g ofClass params) (paramRound g' ofClass params') := by
  refine (matches_nextParam hg ofClass h).bind fun p p' hp => ?_
  refine (matches_eatLine .comma nofun).andThen fun b => ?_
  cases b with
  | false => exact matches_pure (same_done (same_cons hp h))
  | true => exact matches_pure (same_again (same_cons hp h))

theorem matches_paramList (hg : MatchGrammar c g g') (ofClass : Bool) :
    Matches c (paramList g ofClass) (paramList g' ofClass) := by
  refine matches_skipLineEnds.andThen fun _ => ?_
  refine FailsAtEnd.matches ?_ fun s s' h => ?_
  · refine (atEnd_eat .rightParen).bind fun b hb => ?_
    rw [hb]
    exact (failsAtEnd_paramLoop ofClass).bind
  · refine (h.matchesAt_eatKind (.symbol .rightParen)).andThen fun b => ?_
    cases b with
    | true => exact matches_pure rfl
    | false =>
        refine (matches_loop (fun _ _ => matches_paramRound hg ofClass) (Same.refl [])).bind
          fun params params' hparams => ?_
        refine matches_skipLineEnds.andThen fun _ => ?_
        exact (matches_expect .rightParen).bind fun _ _ _ => matches_pure hparams.reverse

theorem matches_params (hg : MatchGrammar c g g') (ofClass : Bool) :
    Matches c (params g ofClass) (params g' ofClass) := by
  refine (matches_eat .leftParen nofun).andThen fun b => ?_
  cases b with
  | true => exact matches_paramList hg ofClass
  | false => exact matches_pure rfl

/-! ## Functions -/

theorem matches_functionBody (hg : MatchGrammar c g g') : Matches c (functionBody g) (functionBody g') := by
  refine matches_at? .leftBrace nofun fun b => ?_
  cases b with
  | true => exact (matches_stmtBody hg).bind fun body body' hbody => matches_pure (same_some hbody)
  | false =>
      refine matches_at? .equal nofun fun b => ?_
      cases b with
      | true =>
          refine (matches_expectLine .equal).bind fun span span' _ => hg.expr.bind fun value value' h => ?_
          exact matches_pure (congrArg (fun value => some (Stmt.returnValue Span.none (some value))) h)
      | false => exact matches_pure rfl

theorem matches_function (hg : MatchGrammar c g g') : Matches c (function g) (function g') := by
  refine (matches_expectWord .funKey).bind fun span span' _ => ?_
  refine (matches_eat .atSign nofun).andThen fun linked => ?_
  refine matches_declaredName.bind fun ⟨n, _⟩ ⟨n', _⟩ hn => ?_
  cases hn.fst.eq
  refine (matches_params hg false).bind fun params params' hparams => ?_
  refine (matches_functionBody hg).bind fun body body' hbody => ?_
  refine (matches_linkPath n).andThen fun path => matches_pure ?_
  exact congrArg₂ (fun params body => Stmt.function Span.none ⟨Span.none, path, linked, some n, params, body⟩)
    hparams.params hbody.stmt?

/-! ## Classes -/

theorem matches_base (hg : MatchGrammar c g g') : Matches c (base g) (base g') := by
  refine (matches_eat .colon nofun).andThen fun b => ?_
  cases b with
  | true => exact hg.expr.map fun _ _ => same_some
  | false => exact matches_pure rfl

theorem matches_classBody (hg : MatchGrammar c g g') (n : String) :
    Matches c (classBody g n) (classBody g' n) := by
  refine (matches_eatLine .leftBrace nofun).andThen fun b => ?_
  cases b with
  | true => exact hg.stmt.untilBrace.withinClass n
  | false => exact matches_pure rfl

theorem matches_classDecl (hg : MatchGrammar c g g') : Matches c (classDecl g) (classDecl g') := by
  refine (matches_expectWord .classKey).bind fun span span' _ => ?_
  refine (matches_eat .atSign nofun).andThen fun linked => ?_
  refine matches_declaredName.bind fun ⟨n, _⟩ ⟨n', _⟩ hn => ?_
  cases hn.fst.eq
  refine (matches_params hg true).bind fun params params' hparams => ?_
  refine (matches_base hg).bind fun base base' hbase => ?_
  refine (matches_classBody hg n).bind fun init init' hinit => ?_
  exact matches_pure (congrArg (Stmt.cls Span.none) (same_class hparams hbase hinit))

theorem matches_objectDecl (hg : MatchGrammar c g g') : Matches c (objectDecl g) (objectDecl g') := by
  refine (matches_expectWord .object).bind fun span span' _ => ?_
  refine matches_declaredName.bind fun ⟨n, _⟩ ⟨n', _⟩ hn => ?_
  cases hn.fst.eq
  refine (matches_base hg).bind fun base base' hbase => ?_
  refine (matches_classBody hg n).bind fun init init' hinit => ?_
  exact matches_pure (congrArg (Stmt.object Span.none) (same_class rfl hbase hinit))

/-! ## Enums -/

theorem matches_enumEntry (hg : MatchGrammar c g g') (ordinal : Nat) :
    Matches c (enumEntry g ordinal) (enumEntry g' ordinal) := by
  refine matches_declaredName.bind fun ⟨n, span⟩ ⟨n', span'⟩ hn => ?_
  cases hn.fst.eq
  have hrest {args args' : List (Arg String (Expr String))} (h : Same args args') : Matches c
      (eat .comma >>= fun _ => skipLineEnds >>= fun _ =>
        pure (⟨span, n, args, ordinal⟩ : EnumEntry String (Expr String)))
      (eat .comma >>= fun _ => skipLineEnds >>= fun _ => pure ⟨span', n, args', ordinal⟩) := by
    refine (matches_eat .comma nofun).andThen fun _ => matches_skipLineEnds.andThen fun _ => ?_
    exact matches_pure (congrArg (EnumEntry.mk Span.none n · ordinal) h)
  refine (matches_eat .leftParen nofun).andThen fun b => ?_
  cases b with
  | true => exact (matches_callArgs hg).bind fun _ _ => hrest
  | false => exact hrest (Same.refl [])

theorem matches_entryRound (hg : MatchGrammar c g g')
    {found found' : List (EnumEntry String (Expr String))} (h : Same found found') :
    Matches c (entryRound g found) (entryRound g' found') := by
  refine (matches_eat .rightBrace nofun).andThen fun b => ?_
  cases b with
  | true => exact matches_pure (same_done h)
  | false =>
      rw [← h.length_eq]
      exact (matches_enumEntry hg found.length).bind fun entry entry' hentry =>
        matches_pure (same_again (same_cons hentry h))

theorem matches_enumEntries (hg : MatchGrammar c g g') : Matches c (enumEntries g) (enumEntries g') :=
  (matches_loop (fun _ _ => matches_entryRound hg) (Same.refl [])).bind fun _ _ h => matches_pure h.reverse

theorem matches_enumDecl (hg : MatchGrammar c g g') : Matches c (enumDecl g) (enumDecl g') := by
  refine (matches_expectWord .enumKey).bind fun span span' _ => ?_
  refine matches_declaredName.bind fun ⟨n, _⟩ ⟨n', _⟩ hn => ?_
  cases hn.fst.eq
  refine (matches_params hg true).bind fun params params' hparams => ?_
  refine (matches_expectLine .leftBrace).bind fun _ _ _ => ?_
  refine (matches_enumEntries hg).bind fun entries entries' hentries => matches_pure ?_
  exact congrArg₂ (fun decl entries => Stmt.enum Span.none ⟨Span.none, decl, entries⟩)
    (same_class hparams rfl rfl) hentries.entries

/-! ## The grammar -/

theorem matches_stmtStep (hg : MatchGrammar c g g') : Matches c (stmtStep g) (stmtStep g') := by
  refine (failsAtEnd_stmtStep hg.fail).matches fun s s' h => h.matchesAt_kind ?_
  split
  next => exact (matches_declaration hg).inside s s' h.tracks
  next => exact (matches_declaration hg).inside s s' h.tracks
  next => exact (matches_whileLoop hg).inside s s' h.tracks
  next => exact (matches_doLoop hg).inside s s' h.tracks
  next => exact (matches_countedLoop hg).inside s s' h.tracks
  next => exact (matches_forLoop hg).inside s s' h.tracks
  next => exact matchesAt_jump h fun _ _ _ => rfl
  next => exact matchesAt_jump h fun _ _ _ => rfl
  next => exact matchesAt_throwStmt h hg
  next => exact matchesAt_throwStmt h hg
  next hkind =>
    exact matchesAt_leave h hg (by rw [hkind]; rfl) fun _ _ _ _ hvalue =>
      congrArg (Stmt.returnValue Span.none) hvalue.expr?
  next hkind =>
    exact matchesAt_leave h hg (by rw [hkind]; rfl) fun _ _ _ _ hvalue =>
      congrArg (Stmt.exitValue Span.none) hvalue.expr?
  next => exact (matches_function hg).inside s s' h.tracks
  next => exact (matches_classDecl hg).inside s s' h.tracks
  next => exact (matches_objectDecl hg).inside s s' h.tracks
  next => exact (matches_enumDecl hg).inside s s' h.tracks
  next => exact matches_stmtBody hg s s' h.tracks
  next => exact matches_exprStmt hg s s' h.tracks

/-- A grammar is matched by one whose rules may nest deeper. -/
theorem matches_grammar {n m : Nat} (h : n ≤ m) : MatchGrammar c (grammar n) (grammar m) := by
  -- By induction on the depth of the first, as its rules are those of the depth before, put together.
  induction n generalizing m with
  | zero =>
      exact {
        fail := failAtEnd_grammar 0
        expr := matches_throw
        spread := matches_throw
        unary := matches_throw
        stmt := matches_throw }
  | succ n ih =>
      obtain ⟨m, rfl⟩ : ∃ k, m = k + 1 := Nat.exists_eq_succ_of_ne_zero (Nat.ne_zero_of_lt h)
      have hg : MatchGrammar c (grammar n) (grammar m) := ih (Nat.le_of_succ_le_succ h)
      exact {
        fail := failAtEnd_grammar (n + 1)
        expr := matches_exprStep hg
        spread := matches_spreadStep hg
        unary := matches_unaryStep hg
        stmt := matches_stmtStep hg }

end IslandScript.Parser
