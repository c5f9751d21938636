import IslandScript.Command.Characters
import IslandScript.Proofs.Parser.LineBreak

/-!
# Statements in the body of a conditional

An expression body holds expressions, and statements in the place of expressions. What is one statement
alone is one item there, with the same contents (`parse_inBody`): the tokens of the text are read alike
wherever they stand, and the brace behind them goes on with no statement. Two forms of statements start
like no item: a `throw` under its other name and a block. In their place the parser looks for an
expression, and fails.
-/

namespace IslandScript

/-- A statement as an item of an expression body: its expression, or else the statement, at a place. -/
def Stmt.toItem (place : Span) : Stmt String → Expr String
  | .expr _ e => e
  | s => .statement place s

namespace Parser

variable {α β : Type} {j : Seam} {s s' : State String} {g : Grammar String}

/-! ## Statements that are no expressions -/

/-- Whatever a parser reads fulfils a condition. -/
def Gives (p : Parser String α) (Q : α → Prop) : Prop := ∀ s a s', p s = .ok (a, s') → Q a

theorem Gives.bind {p : Parser String α} {c : α → Parser String β} {Q : β → Prop} (h : ∀ a, Gives (c a) Q) :
    Gives (p >>= c) Q := by
  intro s b s' hrun
  obtain ⟨a, mid, -, hsecond⟩ := bind_eq_ok.mp hrun
  exact h a mid b s' hsecond

theorem gives_pure {Q : α → Prop} {a : α} (h : Q a) : Gives (pure a) Q := by
  intro s a' s' hrun
  cases hrun
  exact h

theorem Gives.inside {p : Parser String α} {Q : α → Prop} (construct : Construct) (h : Gives p Q) :
    Gives (Parser.inside construct p) Q := by
  intro s a s' hrun
  unfold Parser.inside at hrun
  split at hrun
  · cases hrun
  · exact h s a s' hrun

/-- A statement that stays one as an item. -/
def Wrapped (s : Stmt String) : Prop := ∀ place, s.toItem place = .statement place s

/-- A construct that is made at its end makes the statement that is made there. -/
theorem gives_wrapped (construct : Construct) {p : Parser String α} {c : α → Parser String (Stmt String)}
    (h : ∀ a, Gives (c a) Wrapped) : Gives (inside construct (p >>= c)) Wrapped :=
  (Gives.bind h).inside construct

theorem gives_jump {make : Span → Option String → Stmt String}
    (h : ∀ span label, Wrapped (make span label)) : Gives (jump make) Wrapped := by
  refine Gives.bind fun t => Gives.bind fun label => ?_
  exact gives_pure (h _ _)

theorem gives_throwStmt : Gives (throwStmt g) Wrapped :=
  Gives.bind fun _ => Gives.bind fun _ => gives_pure fun _ => rfl

theorem gives_leave {make : Span → Option (Expr String) → Stmt String}
    (h : ∀ span value, Wrapped (make span value)) : Gives (leave g make) Wrapped := by
  refine Gives.bind fun t => Gives.bind fun k => ?_
  split
  · exact gives_pure (h _ _)
  · exact Gives.bind fun value => gives_pure (h _ _)

/-- The tokens that start a statement in an expression body. -/
def startsWrapped : TokenKind String → Bool
  | .keyword k => startsStatement k
  | _ => false

/-- The tokens that start a statement, but no item of an expression body. -/
def startsNoItem : TokenKind String → Bool
  | .keyword .catchKey | .symbol .leftBrace => true
  | _ => false

/-- What such a token starts is a statement other than an expression. -/
theorem wrapped_of_stmtStep {st : Stmt String} (h : startsWrapped s.current.kind = true)
    (hrun : stmtStep g s = .ok (st, s')) : Wrapped st := by
  obtain ⟨⟨span, k⟩, rest, ending, warnings, classes⟩ := s
  cases k with
  | keyword k =>
      cases k with
      | letKey | varKey | whileKey | doKey | loop | forKey | funKey | classKey | object | enumKey =>
          revert hrun
          refine gives_wrapped _ (fun _ => ?_) _ _ _
          repeat refine Gives.bind fun _ => ?_
          exact gives_pure fun _ => rfl
      | breakKey | continueKey => exact gives_jump (fun _ _ _ => rfl) _ _ _ hrun
      | returnKey | exit => exact gives_leave (fun _ _ _ => rfl) _ _ _ hrun
      | throwKey => exact gives_throwStmt _ _ _ hrun
      | _ => cases h
  | _ => cases h

/-! ## Items -/

/-- An item and the line ends behind it. -/
def lineItem (g : Grammar String) : Parser String (Expr String) := do
  let e ← bodyItem g
  skipLineEnds
  return e

theorem bind_congr_left {p q : Parser String α} {c : α → Parser String β} (h : p s = q s') :
    (p >>= c) s = (q >>= c) s' := by
  change (p s).bind _ = (q s').bind _
  rw [h]

theorem bodyItem_of_wrapped (h : startsWrapped s.current.kind = true) :
    bodyItem g s = (g.stmt >>= fun st => pure (Expr.statement s.current.span st)) s := by
  obtain ⟨⟨span, k⟩, rest, ending, warnings, classes⟩ := s
  cases k with
  | keyword k =>
      have hk : startsStatement k = true := h
      show (if startsStatement k = true then _ else g.expr) _ = _
      rw [if_pos hk]
      rfl
  | _ => cases h

theorem bodyItem_of_expr (h : startsWrapped s.current.kind = false) : bodyItem g s = g.expr s := by
  obtain ⟨⟨span, k⟩, rest, ending, warnings, classes⟩ := s
  cases k with
  | keyword k =>
      have hk : ¬ startsStatement k = true := Bool.eq_false_iff.mp h
      show (if startsStatement k = true then _ else g.expr) _ = _
      rw [if_neg hk]
  | _ => rfl

theorem lineItem_of_wrapped (h : startsWrapped s.current.kind = true) :
    lineItem g s = (g.stmt >>= fun st => skipLineEnds >>= fun _ =>
      pure (Expr.statement s.current.span st)) s := by
  rw [lineItem, bind_congr_left (bodyItem_of_wrapped h), bind_assoc]
  rfl

theorem lineItem_of_expr (h : startsWrapped s.current.kind = false) :
    lineItem g s = (g.expr >>= fun e => skipLineEnds >>= fun _ => pure e) s :=
  bind_congr_left (bodyItem_of_expr h)

theorem stmtStep_of_expr (h : startsWrapped s.current.kind = false)
    (hstarts : startsNoItem s.current.kind = false) : stmtStep g s = exprStmt g s := by
  obtain ⟨⟨span, k⟩, rest, ending, warnings, classes⟩ := s
  cases k with
  | keyword k =>
      cases k <;> first
        | rfl
        | exact absurd h.symm Bool.false_ne_true
        | exact absurd hstarts.symm Bool.false_ne_true
  | symbol x => cases x <;> first | rfl | exact absurd hstarts.symm Bool.false_ne_true
  | _ => rfl

/-- A statement and the line ends behind it, as an item. -/
def stmtItem (g : Grammar String) : Parser String (Expr String) := do
  let span ← here
  let st ← g.stmt
  skipLineEnds
  return st.toItem span

theorem stmtItem_eq_ok {e : Expr String} : stmtItem g s = .ok (e, s') ↔
    ∃ st mid, g.stmt s = .ok (st, mid) ∧ skipLineEnds mid = .ok ((), s') ∧
      e = st.toItem s.current.span := by
  have happly : stmtItem g s = (g.stmt >>= fun st => skipLineEnds >>= fun _ =>
    pure (st.toItem s.current.span)) s := rfl
  rw [happly]
  constructor
  · intro h
    obtain ⟨st, mid, hst, h⟩ := bind_eq_ok.mp h
    obtain ⟨_, last, hskip, h⟩ := bind_eq_ok.mp h
    cases h
    exact ⟨st, mid, hst, hskip, rfl⟩
  · rintro ⟨st, mid, hst, hskip, rfl⟩
    rw [bind_eq hst, bind_eq hskip]
    rfl

theorem followsAt_lineItem {g' : Grammar String} (hg : FollowGrammar j g g')
    (htracks : j.Tracks .inside s s') :
    FollowsAt j (lineItem g) (lineItem g') (fun _ => True) (fun _ => j.GoesOn) s s' := by
  refine ((follows_bodyItem hg).at htracks).bind (fun e => ?_) fun e hend => ?_
  · exact follows_skipLineEnds.andThen fun _ => follows_pure rfl fun _ => trivial
  · exact atEnd_skipLineEnds.bind fun _ _ => atEnd_pure hend.2

/-- Where an item may start, it is read as a statement is. -/
theorem followsAt_item {n m : Nat} (hnm : n ≤ m) (htracks : j.Tracks .inside s s')
    (hstarts : startsNoItem s.current.kind = false) :
    FollowsAt j (stmtItem (grammar n)) (lineItem (grammar m)) (fun _ => True) (fun _ => j.GoesOn)
      s s' := by
  intro e last hrun
  obtain ⟨st, mid, hst, hskip, rfl⟩ := stmtItem_eq_ok.mp hrun
  have hkind : s'.current.kind = s.current.kind := htracks.kind_eq
  obtain ⟨n, rfl⟩ : ∃ k, n = k + 1 := by
    cases n with
    | zero => cases hst
    | succ n => exact ⟨n, rfl⟩
  -- The first token decides whether the item is a statement in the place of an expression.
  cases hwrapped : startsWrapped s.current.kind with
  | true =>
      have hstatement : st.toItem s.current.span = .statement s.current.span st :=
        wrapped_of_stmtStep (g := grammar n) hwrapped hst _
      have hfollows : FollowsAt j
          ((grammar (n + 1)).stmt >>= fun st => skipLineEnds >>= fun _ =>
            pure (Expr.statement s.current.span st))
          ((grammar m).stmt >>= fun st => skipLineEnds >>= fun _ =>
            pure (Expr.statement s'.current.span st)) (fun _ => True) (fun _ => j.GoesOn) s s' := by
        rw [htracks.span_eq]
        refine ((follows_grammar hnm).stmt.at htracks).bind (fun st => ?_) fun st hend => ?_
        · exact follows_skipLineEnds.andThen fun _ => follows_pure rfl fun _ => trivial
        · exact atEnd_skipLineEnds.bind fun _ _ => atEnd_pure hend.2
      rw [lineItem_of_wrapped (hkind ▸ hwrapped), hstatement]
      apply hfollows
      rw [bind_eq hst, bind_eq hskip]
      rfl
  | false =>
      -- Any other statement here is an expression, and the item is that one.
      have hrun' : exprStmt (grammar n) s = .ok (st, mid) :=
        (stmtStep_of_expr hwrapped hstarts).symm.trans hst
      obtain ⟨e, mid', he, hpure⟩ := bind_eq_ok.mp (show
        ((grammar n).expr >>= fun e => pure (Stmt.expr s.current.span e)) s = .ok (st, mid) from hrun')
      cases hpure
      have hfollows : FollowsAt j
          ((grammar n).expr >>= fun e => skipLineEnds >>= fun _ => pure e)
          ((grammar m).expr >>= fun e => skipLineEnds >>= fun _ => pure e)
          (fun _ => True) (fun _ => j.GoesOn) s s' := by
        refine ((follows_grammar (Nat.le_of_succ_le hnm)).expr.at htracks).bind (fun e => ?_)
          fun e hend => ?_
        · exact follows_skipLineEnds.andThen fun _ => follows_pure rfl fun _ => trivial
        · exact atEnd_skipLineEnds.bind fun _ _ => atEnd_pure hend.2
      rw [lineItem_of_expr (hkind ▸ hwrapped)]
      apply hfollows
      rw [bind_eq he, bind_eq hskip]
      rfl

/-! ## The text between braces -/

section Between

variable {n m k : Nat} {here : Span} {first eol close : Token String} {more : List (Token String)}
  {st : Stmt String} {last : State String} {ending : Except LexError Span}

/-- A text, and the same that many rows further down with a line end and a closing brace behind it, where
it breaks off. -/
def Seam.closed (k : Nat) (here : Span) (hline : eol.kind = .endOfLine)
    (hclose : close.kind = .symbol .rightBrace) : Seam where
  move := Span.lower k
  rangeTo_move := Span.rangeTo_lower k
  before := []
  tail := [eol] ++ [close]
  ending := .ok here
  ending' := .error ⟨.earlyEndOfFile, Span.none⟩
  joins := by
    apply Joins.upTo here _ (List.cons_ne_nil _ _)
    · intro t ht
      rw [List.mem_singleton.mp ht]
      exact hline
    · rw [hclose]
      exact nofun

/-- With a brace to come, an item is read as the statement is alone, up to the brace. -/
theorem lineItem_closed (hnm : n ≤ m) (htokens : ∀ t ∈ first :: more, t.kind ≠ .endOfFile)
    (hline : eol.kind = .endOfLine) (hclose : close.kind = .symbol .rightBrace)
    (hstarts : startsNoItem first.kind = false)
    (hrun : stmtItem (grammar n) ⟨first, more, .ok here, [], []⟩ = .ok (st.toItem first.span, last))
    (hlast : last.current.kind = .endOfFile) :
    lineItem (grammar m) ⟨moved (Span.lower k) first, moved (Span.lower k) more ++ [eol, close],
        .error ⟨.earlyEndOfFile, Span.none⟩, [], []⟩ =
      .ok ((st.toItem first.span).mapSpans (Span.lower k),
        ⟨close, [], .error ⟨.earlyEndOfFile, Span.none⟩,
          last.warnings.map (ParseWarning.mapSpan (Span.lower k)), []⟩) := by
  have htracks : (Seam.closed k here hline hclose).Tracks .inside ⟨first, more, .ok here, [], []⟩
      ⟨moved (Span.lower k) first, moved (Span.lower k) more ++ [eol, close],
        .error ⟨.earlyEndOfFile, Span.none⟩, [] ++ moved (Span.lower k) [], []⟩ :=
    .inside fun _ => htokens
  obtain ⟨hclasses, ⟨phase, last', hitem, htracks', -⟩ | ⟨-, -, hgoesOn⟩⟩ :=
    followsAt_item hnm htracks hstarts _ last hrun
  · have hbehind : last'.current.kind ≠ .endOfLine := by
      obtain ⟨e, mid, -, hskip⟩ := bind_eq_ok.mp hitem
      obtain ⟨_, mid', hskip, hpure⟩ := bind_eq_ok.mp hskip
      cases hpure
      exact (skipLineEnds_eq_ok hskip).2
    obtain rfl := htracks'.passed_of_end hlast (List.cons_ne_nil _ _) hbehind
    cases htracks' with
    | @first here' t e ws classes hok htail =>
        cases htail
        cases hclasses
        exact hitem
    | finished _ hok => cases hok
  · -- A brace goes on with nothing.
    obtain ⟨_, ⟨t, ht, rfl⟩, hgoesOn⟩ := hgoesOn
    cases ht
    change goesOn close.kind = true at hgoesOn
    rw [hclose] at hgoesOn
    cases hgoesOn

/-- An item that is read before the tokens break off is read alike where they end. -/
theorem lineItem_of_error {e : Expr String} {t : Token String} {rest : List (Token String)}
    {err : LexError} {ws : List ParseWarning}
    (hrun : lineItem (grammar m) ⟨t, rest, .error err, [], []⟩ =
      .ok (e, ⟨close, [], .error err, ws, []⟩)) (ending : Except LexError Span) :
    lineItem (grammar m) ⟨t, rest, ending, [], []⟩ = .ok (e, ⟨close, [], ending, ws, []⟩) := by
  have htracks : (Seam.broken [] err ending).Tracks .inside ⟨t, rest, .error err, [], []⟩
      ⟨moved id t, moved id rest ++ [], ending, [] ++ moved id [], []⟩ :=
    .inside fun hne => absurd rfl hne
  rw [List.append_nil, moved_id_tokens] at htracks
  obtain ⟨-, ⟨phase, last', hitem, htracks', -⟩ | ⟨-, -, hgoesOn⟩⟩ :=
    followsAt_lineItem (follows_grammar (Nat.le_refl m)) htracks e _ hrun
  · obtain rfl := htracks'.inside_of_error rfl
    cases htracks'
    change lineItem _ _ = .ok (e.mapSpans id, ⟨close, moved id [] ++ [], ending, [] ++ moved id ws, []⟩)
      at hitem
    rw [moved_id_warnings ws, Expr.mapSpans_id] at hitem
    exact hitem
  · exact absurd hgoesOn (Seam.not_goesOn fun t ht => nomatch ht)

end Between

/-! ## Terminals where nothing goes on -/

section Terminal

variable {e : Expr String} {failure : Failure}

theorem postfixRound_of_stops (hstops : Stops 9 s.current.kind) (e : Expr String) :
    postfixRound g e s = .ok (.done e, s) := by
  obtain ⟨⟨span, k⟩, rest, ending, warnings, classes⟩ := s
  cases k with
  | symbol x => cases x <;> first | rfl | exact absurd (hstops 9 rfl) (Nat.lt_irrefl 9)
  | _ => rfl

theorem chainRound_of_none {level : Level String} (hend : level s.current.kind = none)
    (operand : Parser String (Expr String)) (e : Expr String) :
    chainRound level operand e s = .ok (.done e, s) := by
  have hkind : kind s = .ok (s.current.kind, s) := rfl
  rw [chainRound, bind_eq hkind, hend]
  rfl

theorem level_eq_none {n : Nat} {level : Level String} (hlevel : level ∈ levels.drop n) {k : TokenKind String}
    (hstops : Stops (n + 2) k) : level k = none := by
  obtain ⟨i, hi, rfl⟩ := List.getElem_of_mem hlevel
  have hi' : n + i < (levels : List (Level String)).length := by
    rw [List.length_drop] at hi
    omega
  have hnone : infixAt (n + i + 2) k = none :=
    infixAt_eq_none (Nat.le_add_left 2 _) (hstops.mono (by omega))
  rw [List.getElem_drop]
  rwa [infixAt, Nat.add_sub_cancel, List.getD_eq_getElem _ _ hi'] at hnone

/-- Operators of no level stand behind what an operand read. -/
theorem foldr_chain_of_none {p : Parser String (Expr String)} (h : p s = .ok (e, s')) {ls : List (Level String)}
    (hls : ∀ level ∈ ls, level s'.current.kind = none) : ls.foldr chain p s = .ok (e, s') := by
  induction ls with
  | nil => exact h
  | cons level ls ih =>
      rw [List.forall_mem_cons] at hls
      have hround := chainRound_of_none hls.1 (ls.foldr chain p) e
      show (ls.foldr chain p >>= loop (chainRound level (ls.foldr chain p))) s = _
      rw [bind_eq (ih hls.2), loop_apply]
      exact iterate_done hround _ _

theorem foldr_chain_of_error {p : Parser String (Expr String)} (h : p s = .error failure)
    (ls : List (Level String)) : ls.foldr chain p s = .error failure := by
  induction ls with
  | nil => exact h
  | cons level ls ih => exact bind_eq_error ih

theorem at?_of_ne {x : Symbol} (h : s.current.kind ≠ .symbol x) : at? x s = .ok (false, s) :=
  congrArg (fun b => Except.ok (b, s)) (beq_eq_false_iff_ne.mpr h)

/-- No assignment stands behind what goes on with nothing. -/
theorem exprStep_of_spread (h : spreadStep g s = .ok (e, s')) (hend : continues? s'.current.kind = none) :
    exprStep g s = .ok (e, s') := by
  have hequal : s'.current.kind ≠ .symbol .equal := by
    intro hequal
    rw [hequal] at hend
    cases hend
  have hkind : kind s' = .ok (s'.current.kind, s') := rfl
  rw [exprStep, bind_eq h, bind_eq (at?_of_ne hequal), if_neg Bool.false_ne_true, bind_eq hkind,
    compoundOp?_eq_none hend]
  rfl

variable (hstart : unaryOp? s.current.kind = none) (hstar : s.current.kind ≠ .symbol .star)

include hstart in
theorem unaryStep_eq_postfixed : unaryStep g s = postfixed g s := by
  have hkind : kind s = .ok (s.current.kind, s) := rfl
  rw [unaryStep, bind_eq hkind, hstart]

include hstar in
theorem spreadStep_eq_infixed : spreadStep g s = infixed g s := by
  show (if (s.current.kind == .symbol .star) = true then
    advance >>= fun t => infixed g >>= fun e => pure (Expr.unary t.span .spread e) else infixed g) s = _
  rw [beq_eq_false_iff_ne.mpr hstar, if_neg Bool.false_ne_true]

include hstart hstar

/-- A terminal that no operator stands before or behind is the whole expression. -/
theorem exprStep_of_terminal (h : terminal g s = .ok (e, s'))
    (hend : continues? s'.current.kind = none) : exprStep g s = .ok (e, s') := by
  have hpostfixed : postfixed g s = .ok (e, s') := by
    show (terminal g >>= loop (postfixRound g)) s = _
    rw [bind_eq h, loop_apply]
    exact iterate_done (postfixRound_of_stops (stops_of_continues?_eq_none hend) e) _ _
  have hspread : spreadStep g s = .ok (e, s') := by
    rw [spreadStep_eq_infixed hstar]
    refine foldr_chain_of_none ?_ fun level hlevel =>
      level_eq_none (n := 0) hlevel (stops_of_continues?_eq_none hend)
    rw [unaryStep_eq_postfixed hstart, hpostfixed]
  exact exprStep_of_spread hspread hend

/-- If no terminal is read, no expression is. -/
theorem exprStep_of_terminal_error (h : terminal g s = .error failure) :
    exprStep g s = .error failure := by
  apply bind_eq_error
  rw [spreadStep_eq_infixed hstar]
  apply foldr_chain_of_error
  rw [unaryStep_eq_postfixed hstart]
  exact bind_eq_error h

end Terminal

/-! ## The conditional around the text -/

section Conditional

variable {n : Nat} {eol : Token String} {rest : List (Token String)} {ending : Except LexError Span}
  {ws : List ParseWarning} {classes : List String} {inner last : State String} {failure : Failure}

/-- The tokens of a condition that always holds and of an opening brace. -/
def openingTokens : List (Token String) :=
  [⟨⟨1, 1, 2⟩, .keyword .ifKey⟩, ⟨⟨1, 4, 1⟩, .symbol .leftParen⟩, ⟨⟨1, 5, 4⟩, .value (.bool true)⟩,
    ⟨⟨1, 9, 1⟩, .symbol .rightParen⟩, ⟨⟨1, 11, 1⟩, .symbol .leftBrace⟩]

theorem scan_opening [Text.CharNames]
    : Lexer.scan "if (true) \x7b" = ⟨openingTokens, .ok ⟨1, 12, 1⟩⟩ := by cbv

/-- A conditional with that condition and one item in its body. -/
def conditional (item : Expr String) : Expr String :=
  .ifElse ⟨1, 1, 2⟩ (.value ⟨1, 5, 4⟩ (.bool true)) (.block ⟨1, 11, 1⟩ [item]) none

/-- One item up to the closing brace. -/
theorem untilBrace_single {item : Parser String α} {a : α} {t : Token String} {mid : State String}
    (hs : s.current.kind ≠ .symbol .rightBrace)
    (hitem : (item >>= fun a => skipLineEnds >>= fun _ => pure a) s = .ok (a, mid))
    (hmid : mid.current.kind = .symbol .rightBrace) (hadvance : advance mid = .ok (t, last)) :
    untilBrace item s = .ok ([a], last) := by
  -- The first round reads the item and the second one the brace.
  let round (found : List α) : Parser String (Step (List α) (List α)) := eat .rightBrace >>= fun b =>
    if b = true then pure (.done found)
    else item >>= fun a => skipLineEnds >>= fun _ => pure (.again (a :: found))
  have hagain : round [] s = .ok (.again [a], mid) := by
    obtain ⟨a', mid', hfirst, hitem⟩ := bind_eq_ok.mp hitem
    obtain ⟨_, mid'', hskip, hpure⟩ := bind_eq_ok.mp hitem
    cases hpure
    have heat : eat .rightBrace s = .ok (false, s) := eatKind_of_ne hs
    show (eat .rightBrace >>= _) s = _
    rw [bind_eq heat, if_neg Bool.false_ne_true, bind_eq hfirst, bind_eq hskip]
    rfl
  have hdone : round [a] mid = .ok (.done [a], last) := by
    have heat : eat .rightBrace mid = .ok (true, last) := by
      rw [eat, eatKind_of_eq hmid, bind_eq hadvance]
      rfl
    show (eat .rightBrace >>= _) mid = _
    rw [bind_eq heat, if_pos rfl]
    rfl
  show (loop round [] >>= fun found => pure found.reverse) s = _
  have hloop : loop round [] s = .ok ([a], last) := by
    rw [loop_apply, iterate_again hagain]
    exact iterate_done hdone _ _
  rw [bind_eq hloop]
  rfl

/-- If no item is read, the body is not. -/
theorem untilBrace_of_error {item : Parser String α} (hs : s.current.kind ≠ .symbol .rightBrace)
    (hitem : item s = .error failure) : untilBrace item s = .error failure := by
  have heat : eat .rightBrace s = .ok (false, s) := eatKind_of_ne hs
  apply bind_eq_error
  rw [loop_apply, iterate_cons]
  apply bind_eq_error
  rw [bind_eq heat, if_neg Bool.false_ne_true]
  exact bind_eq_error hitem

/-- Behind a conditional's body the text ends. -/
def closing (g : Grammar String) (items : List (Expr String)) : Parser String (Expr String) := do
  skipLineEnds
  if ← eatWord .elseKey then
    return .ifElse ⟨1, 1, 2⟩ (.value ⟨1, 5, 4⟩ (.bool true)) (.block ⟨1, 11, 1⟩ items)
      (some (← exprBody g))
  else return .ifElse ⟨1, 1, 2⟩ (.value ⟨1, 5, 4⟩ (.bool true)) (.block ⟨1, 11, 1⟩ items) none

/-- The state before the opening tokens, with others behind them. -/
def State.opening (rest : List (Token String)) (ending : Except LexError Span) : State String :=
  ⟨⟨⟨1, 1, 2⟩, .keyword .ifKey⟩, openingTokens.tail ++ rest, ending, [], []⟩

/-- Behind the opening tokens and line ends, a conditional is read on as its body is. -/
theorem ifElse_opening (hskip : skipLineEnds ⟨eol, rest, ending, [], []⟩ = .ok ((), inner)) :
    ifElse (grammar (n + 1)) (State.opening (eol :: rest) ending) =
      (untilBrace (bodyItem (grammar (n + 1))) >>= closing (grammar (n + 1))) inner := by
  -- The states before the condition and before the body.
  let atParen : State String := ⟨⟨⟨1, 4, 1⟩, .symbol .leftParen⟩, openingTokens.tail.tail ++ eol :: rest, ending,
    [], []⟩
  let atBrace : State String := ⟨⟨⟨1, 11, 1⟩, .symbol .leftBrace⟩, eol :: rest, ending, [], []⟩
  have hword : expectWord .ifKey (State.opening (eol :: rest) ending) = .ok (⟨1, 1, 2⟩, atParen) := rfl
  have hcondition : parenthesized (grammar (n + 1)) atParen =
      .ok (.value ⟨1, 5, 4⟩ (.bool true), atBrace) := rfl
  have hhere : here atBrace = .ok (⟨1, 11, 1⟩, atBrace) := rfl
  have hopen : eat .leftBrace atBrace = .ok (true, ⟨eol, rest, ending, [], []⟩) := rfl
  have heat : eatLine .leftBrace atBrace = .ok (true, inner) := by
    rw [eatLine, bind_eq hopen, if_pos rfl, bind_eq hskip]
    rfl
  have hbody : exprBody (grammar (n + 1)) atBrace = (untilBrace (bodyItem (grammar (n + 1))) >>=
      fun items => pure (.block ⟨1, 11, 1⟩ items)) inner := by
    rw [exprBody, bind_eq hhere, bind_eq heat, if_pos rfl]
  rw [ifElse, bind_eq hword, bind_eq hcondition, bind_congr_left hbody, bind_assoc]
  rfl

/-- A conditional up to the end of the text is a statement. -/
theorem stmt_of_ifElse {span : Span} {e : Expr String}
    (h : ifElse (grammar (n + 1)) ⟨⟨span, .keyword .ifKey⟩, rest, ending, ws, classes⟩ = .ok (e, last))
    (hend : last.current.kind = .endOfFile) :
    (grammar (n + 3)).stmt ⟨⟨span, .keyword .ifKey⟩, rest, ending, ws, classes⟩ =
      .ok (.expr span e, last) := by
  have hterminal : terminal (grammar (n + 1)) ⟨⟨span, .keyword .ifKey⟩, rest, ending, ws, classes⟩ =
      .ok (e, last) := by
    show inside .ifElse (ifElse (grammar (n + 1))) _ = _
    rw [inside, h]
  have hexpr : (grammar (n + 2)).expr ⟨⟨span, .keyword .ifKey⟩, rest, ending, ws, classes⟩ =
      .ok (e, last) := by
    refine exprStep_of_terminal ?_ ?_ hterminal ?_
    · rfl
    · intro hstar
      cases hstar
    · rw [hend]
      rfl
  show ((grammar (n + 2)).expr >>= fun e => pure (Stmt.expr span e)) _ = _
  rw [bind_eq hexpr]
  rfl

/-- If the conditional is not read, the statement is not. -/
theorem stmt_of_ifElse_error {span : Span} {e : ParseError}
    (h : ifElse (grammar (n + 1)) ⟨⟨span, .keyword .ifKey⟩, rest, ending, ws, classes⟩ =
      .error (.error e)) :
    (grammar (n + 3)).stmt ⟨⟨span, .keyword .ifKey⟩, rest, ending, ws, classes⟩ =
      .error (.error (e.inside .ifElse)) := by
  have hterminal : terminal (grammar (n + 1)) ⟨⟨span, .keyword .ifKey⟩, rest, ending, ws, classes⟩ =
      .error (.error (e.inside .ifElse)) := by
    show inside .ifElse (ifElse (grammar (n + 1))) _ = _
    rw [inside, h]
  have hexpr : (grammar (n + 2)).expr ⟨⟨span, .keyword .ifKey⟩, rest, ending, ws, classes⟩ =
      .error (.error (e.inside .ifElse)) := by
    refine exprStep_of_terminal_error ?_ ?_ hterminal
    · rfl
    · intro hstar
      cases hstar
  show ((grammar (n + 2)).expr >>= fun e => pure (Stmt.expr span e)) _ = _
  exact bind_eq_error hexpr

/-- No statement starts with a closing brace. -/
theorem stmt_ne_rightBrace {st : Stmt String} (h : (grammar n).stmt s = .ok (st, s')) :
    s.current.kind ≠ .symbol .rightBrace := by
  intro hkind
  obtain ⟨⟨span, k⟩, rest, ending, warnings, classes⟩ := s
  cases hkind
  match n with
  | 0 | 1 => cases h
  | n + 2 =>
      -- It would be an expression, and no terminal starts so.
      have hexpr : (grammar (n + 1)).expr ⟨⟨span, .symbol .rightBrace⟩, rest, ending, warnings, classes⟩ =
          .error (.error ⟨.invalidTerminal (.symbol .rightBrace), span, none⟩) := by
        apply exprStep_of_terminal_error
        · rfl
        · exact nofun
        · rfl
      have hstmt : ((grammar (n + 1)).expr >>= fun e => pure (Stmt.expr span e)) _ = _ :=
        bind_eq_error hexpr
      cases hstmt.symm.trans h

/-- Where a statement starts like no item, no item is read. -/
theorem bodyItem_error (hstarts : startsNoItem s.current.kind = true) :
    bodyItem (grammar (n + 1)) s =
      .error (.error ⟨.invalidTerminal s.current.kind, s.current.span, none⟩) := by
  obtain ⟨⟨span, k⟩, rest, ending, warnings, classes⟩ := s
  obtain rfl | rfl : k = .keyword .catchKey ∨ k = .symbol .leftBrace := by
    unfold startsNoItem at hstarts
    split at hstarts
    next h => exact .inl h
    next h => exact .inr h
    next => cases hstarts
  all_goals
    rw [bodyItem_of_expr rfl]
    apply exprStep_of_terminal_error
    · rfl
    · exact nofun
    · rfl

end Conditional

/-! ## Texts -/

/-- A text on rows of its own between `if (true) {` and a closing brace. -/
def inBody (text : String) : String := "if (true) \x7b" ++ "\n" ++ (text ++ "\n" ++ "\x7d")

theorem scan_close [Text.CharNames]
    : Lexer.scan "\x7d" = ⟨[⟨⟨1, 1, 1⟩, .symbol .rightBrace⟩], .ok ⟨1, 2, 1⟩⟩ := by cbv

section Whole

variable {text : String} {st : Stmt String} {ws : List ParseWarning} {ends more : List (Token String)}
  {first : Token String}

section

variable [Text.CharNames]

/-- The tokens of a text stand between the opening tokens and a closing brace, each in a row of its own. -/
theorem scan_inBody {here : Span} (hending : (Lexer.scan text).ending = .ok here)
    (htokens : (Lexer.scan text).tokens = ends ++ first :: more) :
    ∃ eol close last, eol.kind = .endOfLine ∧ close.kind = .symbol .rightBrace ∧
      Lexer.scan (inBody text) = ⟨openingTokens ++ ⟨⟨1, 12, 1⟩, .endOfLine⟩ ::
        (ends.map (·.down 1) ++ first.down 1 :: (more.map (·.down 1) ++ [eol, close])), .ok last⟩ := by
  have hinner := Lexer.scan_lineBreak hending "\x7d"
  rw [scan_close, htokens] at hinner
  have hopening : (Lexer.scan "if (true) \x7b").ending = .ok ⟨1, 12, 1⟩ := by rw [scan_opening]
  have houter := Lexer.scan_lineBreak hopening (text ++ "\n" ++ "\x7d")
  have hrow : "if (true) \x7b".toList.count '\n' = 0 := by decide
  rw [hinner, scan_opening, hrow] at houter
  let rows := 1 + text.toList.count '\n'
  refine ⟨(⟨here, .endOfLine⟩ : Token String).down 1,
    ((⟨⟨1, 1, 1⟩, .symbol .rightBrace⟩ : Token String).down rows).down 1,
    ((⟨1, 2, 1⟩ : Span).down rows).down 1, rfl, rfl, ?_⟩
  rw [inBody, houter]
  simp [rows]

/-- If the first statement is not read, the text is not parsed. -/
theorem parse_error {start mid : State String} {failure : Failure}
    (hstart : State.start (Lexer.scan text) = .ok start) (hskips : skipLineEnds start = .ok ((), mid))
    (hmid : mid.current.kind ≠ .endOfFile)
    (hstmt : (grammar (2 * (Lexer.scan text).tokens.length + 2)).stmt mid = .error failure) :
    parse text = .error failure := by
  have hprogram : program (grammar (2 * (Lexer.scan text).tokens.length + 2)) start =
      .error failure := by
    rw [program, bind_eq hskips]
    apply bind_eq_error
    rw [loop_apply, iterate_cons]
    apply bind_eq_error
    rw [programRound_of_ne hmid]
    exact bind_eq_error hstmt
  rw [parse_eq_bind, hstart]
  change (program _ start).bind _ = _
  rw [hprogram]
  rfl

/-- Where the body is read, so is the text around it. -/
theorem parse_opening {item : Expr String} {eol close : Token String} {rest : List (Token String)}
    {inner : State String} {here : Span} {n : Nat}
    (hscan : Lexer.scan text = ⟨openingTokens ++ eol :: rest, .ok here⟩)
    (hfuel : 2 * (Lexer.scan text).tokens.length + 2 = n + 3)
    (hskip : skipLineEnds ⟨eol, rest, .ok here, [], []⟩ = .ok ((), inner))
    (hinner : inner.current.kind ≠ .symbol .rightBrace) (hclose : close.kind = .symbol .rightBrace)
    (hitem : lineItem (grammar (n + 1)) inner = .ok (item, ⟨close, [], .ok here, ws, []⟩)) :
    parse text = .ok ⟨[.expr ⟨1, 1, 2⟩ (conditional item)], ws⟩ := by
  let last : State String := ⟨⟨here, .endOfFile⟩, [], .ok here, ws, []⟩
  have hbody : untilBrace (bodyItem (grammar (n + 1))) inner = .ok ([item], last) :=
    untilBrace_single hinner hitem hclose (advance_of_end rfl rfl)
  have hifElse : ifElse (grammar (n + 1)) (State.opening (eol :: rest) (.ok here)) =
      .ok (conditional item, last) := by
    rw [ifElse_opening hskip, bind_eq hbody]
    rfl
  have hstmt := stmt_of_ifElse hifElse rfl
  have hrun : Run text ⟨[.expr ⟨1, 1, 2⟩ (conditional item)], ws⟩ (State.opening (eol :: rest) (.ok here))
      (State.opening (eol :: rest) (.ok here)) last := {
    start_eq := by
      rw [hscan]
      rfl
    skips := skipLineEnds_of_ne nofun
    reads := by
      rw [hfuel]
      exact statements_succ_eq_ok.mpr ⟨_, last, last, [], hstmt, skipLineEnds_of_ne nofun, rfl, rfl⟩
    atEnd := rfl
    bounded := Nat.le_add_left 1 _
    warnings_eq := rfl }
  exact hrun.parse_eq

/-- Where no item is read, neither is the text around it. -/
theorem parse_opening_error
    {eol : Token String} {rest : List (Token String)} {inner : State String} {here : Span}
    {n : Nat} {e : ParseError}
    (hscan : Lexer.scan text = ⟨openingTokens ++ eol :: rest, .ok here⟩)
    (hfuel : 2 * (Lexer.scan text).tokens.length + 2 = n + 3)
    (hskip : skipLineEnds ⟨eol, rest, .ok here, [], []⟩ = .ok ((), inner))
    (hinner : inner.current.kind ≠ .symbol .rightBrace)
    (hitem : bodyItem (grammar (n + 1)) inner = .error (.error e)) :
    parse text = .error (.error (e.inside .ifElse)) := by
  have hifElse : ifElse (grammar (n + 1)) (State.opening (eol :: rest) (.ok here)) = .error (.error e) := by
    rw [ifElse_opening hskip]
    exact bind_eq_error (untilBrace_of_error hinner hitem)
  have hstart : State.start (Lexer.scan text) = .ok (State.opening (eol :: rest) (.ok here)) := by
    rw [hscan]
    rfl
  apply parse_error hstart (skipLineEnds_of_ne nofun) nofun
  rw [hfuel]
  exact stmt_of_ifElse_error hifElse

/-- What is one statement alone is one item in the body of a conditional, some rows further down, unless
it starts like no item. Then there is no expression at its first token. -/
theorem parse_inBody (h : parse text = .ok ⟨[st], ws⟩) : ∃ first ∈ firstToken? text,
    (startsNoItem first.kind = false → parse (inBody text) =
      .ok ⟨[.expr ⟨1, 1, 2⟩ (conditional ((st.toItem first.span).mapSpans (Span.lower 1)))],
        ws.map (ParseWarning.mapSpan (Span.lower 1))⟩) ∧
    (startsNoItem first.kind = true → parse (inBody text) =
      .error (.error ⟨.invalidTerminal first.kind, first.span.lower 1, some .ifElse⟩)) := by
  obtain ⟨start, mid, last, hrun⟩ := exists_run h
  obtain ⟨here, hending⟩ := hrun.ending
  rcases exists_first (Lexer.scan text).tokens with hblank | ⟨ends, first, more, htokens, hends, hfirst⟩
  · -- Line ends alone are no statement.
    have hskips := hrun.skips.symm.trans
      (skipLineEnds_start_blank hblank (hrun.start_of_ending hending))
    cases hskips
    cases hrun.eq_zero ⟨rfl, rfl⟩
  · have hmid := hrun.mid_eq htokens hends hfirst
    rw [hending] at hmid
    subst hmid
    obtain ⟨_, behind, _, _, hstmt, hskip, hnone, hl⟩ := statements_succ_eq_ok.mp hrun.reads
    cases hnone
    cases hl
    obtain ⟨eol, close, here', hline, hclose, hscan⟩ := scan_inBody hending htokens
    -- The tokens of the text as they stand between the braces.
    have hmem (t : Token String) (ht : t ∈ first :: more) : t ∈ (Lexer.scan text).tokens := by
      rw [htokens]
      exact List.mem_append_right _ ht
    have hmoved := moved_lower hmem 1
    have hfirst' : moved (Span.lower 1) first = first.down 1 := (List.cons.inj hmoved).1
    have hmore' : moved (Span.lower 1) more = more.map (·.down 1) := (List.cons.inj hmoved).2
    let inner : State String := ⟨first.down 1, more.map (·.down 1) ++ [eol, close], .ok here', [], []⟩
    have hinner : skipLineEnds ⟨⟨⟨1, 12, 1⟩, .endOfLine⟩, ends.map (·.down 1) ++
        first.down 1 :: (more.map (·.down 1) ++ [eol, close]), .ok here', [], []⟩ = .ok ((), inner) := by
      have hends' : ∀ t ∈ ends.map (·.down 1), t.kind = .endOfLine := List.forall_mem_map.mpr hends
      rw [skipLineEnds_append hends' rfl rfl]
      exact skipLineEnds_of_ne hfirst
    have hbrace : first.kind ≠ .symbol .rightBrace := stmt_ne_rightBrace hstmt
    -- With more tokens, calls may nest deeper; the conditional itself takes two levels of that.
    have hlength : 2 * (Lexer.scan text).tokens.length + 2 ≤
        2 * (Lexer.scan (inBody text)).tokens.length - 1 + 1 := by
      rw [hscan, htokens]
      simp only [List.length_append, List.length_cons, List.length_map]
      omega
    have hfuel : 2 * (Lexer.scan (inBody text)).tokens.length + 2 =
        2 * (Lexer.scan (inBody text)).tokens.length - 1 + 3 := by omega
    refine ⟨first, firstToken?_eq htokens hends hfirst, fun hstarts => ?_, fun hstarts => ?_⟩
    · have hitem := lineItem_closed (k := 1) hlength
        (fun t ht => (Lexer.placed_of_mem_scan (hmem t ht)).1) hline hclose hstarts
        (stmtItem_eq_ok.mpr ⟨st, behind, hstmt, hskip, rfl⟩) hrun.atEnd
      rw [hfirst', hmore', hrun.warnings_eq] at hitem
      exact parse_opening hscan hfuel hinner hbrace hclose (lineItem_of_error hitem _)
    · have hspan : (first.down 1).span = first.span.lower 1 := by rw [← hfirst']; rfl
      rw [← hspan]
      exact parse_opening_error hscan hfuel hinner hbrace (bodyItem_error hstarts)

end

attribute [local instance] Command.charNames

/-- A jump is an item of its own there, and a `throw` under its other name starts like none. -/
theorem parse_inBody_jumps :
    (∃ first ∈ firstToken? "break", startsNoItem first.kind = false ∧
      parse (inBody "break") = .ok ⟨[.expr ⟨1, 1, 2⟩ (conditional
        (.statement (first.span.lower 1) (.breakLoop (.lower 1 ⟨1, 1, 5⟩) none)))], []⟩) ∧
    ∃ first ∈ firstToken? "catch x", startsNoItem first.kind = true ∧
      parse (inBody "catch x") =
        .error (.error ⟨.invalidTerminal first.kind, first.span.lower 1, some .ifElse⟩) := by
  have hbreak : parse "break" = .ok ⟨[.breakLoop ⟨1, 1, 5⟩ none], []⟩ := by cbv
  have hcatch : parse "catch x" = .ok ⟨[.throwValue ⟨1, 1, 5⟩ (.name ⟨1, 7, 1⟩ "x")], []⟩ := by cbv
  have hfirst : firstToken? "break" = some ⟨⟨1, 1, 5⟩, .keyword .breakKey⟩ := by decide +kernel
  have hfirst' : firstToken? "catch x" = some ⟨⟨1, 1, 5⟩, .keyword .catchKey⟩ := by decide +kernel
  obtain ⟨first, hmem, hitem, -⟩ := parse_inBody hbreak
  obtain ⟨first', hmem', -, herror⟩ := parse_inBody hcatch
  cases hmem.symm.trans hfirst
  cases hmem'.symm.trans hfirst'
  exact ⟨⟨_, hmem, rfl, hitem rfl⟩, _, hmem', rfl, herror rfl⟩

/-- A `throw` under its other name is a statement, but none in the body of a conditional. -/
theorem catch_inBody_rejected :
    parse "catch x" = .ok ⟨[.throwValue ⟨1, 1, 5⟩ (.name ⟨1, 7, 1⟩ "x")], []⟩ ∧
      ∀ p, parse (inBody "catch x") ≠ .ok p := by
  have hrejected : parse (inBody "catch x") =
      .error (.error ⟨.invalidTerminal (.keyword .catchKey), ⟨2, 1, 5⟩, some .ifElse⟩) := by cbv
  refine ⟨by cbv, fun p h => ?_⟩
  cases hrejected.symm.trans h

end Whole

end Parser
end IslandScript
