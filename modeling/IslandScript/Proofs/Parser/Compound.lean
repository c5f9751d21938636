import IslandScript.Command.Characters
import IslandScript.Proofs.Parser.Body
import IslandScript.Proofs.Parser.Enclosed.Statement

/-!
# Compound assignments

`x += e` is read as `x = x + (e)` (`parse_compoundAssignment`). What stands on the right is read in
different places: on the level of assignments up to the end of the text, and in parentheses as an operand
of the operator. The runs are compared in two steps: that on the right side alone with that behind `x +=`,
and this one with that in the parentheses.
-/

namespace IslandScript.Parser

variable {g : Grammar String} {s s' mid next last : State String} {t : Token String} {span : Span}

/-! ## Operands and operators -/

/-- Two operands with an operator between them, behind which nothing goes on. -/
theorem infixed_of_binary {op : BinaryOp} {left right : Expr String}
    (hleft : unaryStep g s = .ok (left, mid)) (hop : mid.current.kind = op.lexeme.kind)
    (hadvance : advance mid = .ok (t, next)) (hright : unaryStep g next = .ok (right, last))
    (hend : continues? last.current.kind = none) :
    infixed g s = .ok (.binary t.span op left right, last) := by
  obtain ⟨n, hlevel⟩ : ∃ n, op.level = n + 2 := ⟨op.level - 2, (Nat.sub_add_cancel op.le_level).symm⟩
  have hn : n < (levels : List (Level String)).length := by
    have := op.level_le
    show n < 6
    omega
  have hsome : infixAt (n + 2) mid.current.kind = some op := by
    rw [hop, ← hlevel]
    exact infixAt_lexeme op
  have hdrop : levels.drop n = infixAt (n + 2) :: levels.drop (n + 1) := by
    rw [List.drop_eq_getElem_cons hn, infixAt, Nat.add_sub_cancel, List.getD_eq_getElem _ _ hn]
  -- The operators of the tighter levels are others, so that each operand is read as on these.
  have htight {s s' : State String} {e : Expr String} (h : unaryStep g s = .ok (e, s'))
      (hstops : Stops (n + 3) s'.current.kind) :
      (levels.drop (n + 1)).foldr chain (unaryStep g) s = .ok (e, s') :=
    foldr_chain_of_none h fun level hlevel => level_eq_none hlevel hstops
  have hend' : Stops (n + 2) last.current.kind := stops_of_continues?_eq_none hend
  have hchain : (levels.drop n).foldr chain (unaryStep g) s =
      .ok (.binary t.span op left right, last) := by
    have hstops : Stops (n + 3) mid.current.kind := by
      rw [hop]
      exact (stops_lexeme op).mono (by omega)
    have hround : chainRound (infixAt (n + 2)) ((levels.drop (n + 1)).foldr chain (unaryStep g)) left mid =
        .ok (.again (.binary t.span op left right), last) := by
      have hkind : kind mid = .ok (mid.current.kind, mid) := rfl
      rw [chainRound, bind_eq hkind, hsome]
      dsimp only
      rw [bind_eq hadvance, bind_eq (htight hright (hend'.mono (Nat.le_succ _)))]
      rfl
    rw [hdrop]
    show (_ >>= loop (chainRound _ _)) s = _
    rw [bind_eq (htight hleft hstops), loop_apply, iterate_again hround]
    exact iterate_done (chainRound_of_none (infixAt_eq_none (Nat.le_add_left 2 n) hend') _ _) _ _
  have hsplit : infixed g = (levels.take n).foldr chain ((levels.drop n).foldr chain (unaryStep g)) := by
    rw [infixed, ← List.foldr_append, List.take_append_drop]
  rw [hsplit]
  refine foldr_chain_of_none hchain fun level hlevel => ?_
  exact level_eq_none (n := 0) (List.mem_of_mem_take hlevel) (stops_of_continues?_eq_none hend)

section

variable {x : String} {rest : List (Token String)} {ending : Except LexError Span}
  {ws ws' : List ParseWarning} {classes classes' : List String}

/-- A name before what is no postfix. -/
theorem unaryStep_name (hstops : Stops 9 t.kind) :
    unaryStep g ⟨⟨span, .name x⟩, t :: rest, ending, ws, classes⟩ =
      .ok (.name span x, ⟨t, rest, ending, ws, classes⟩) := by
  have hterminal : terminal g ⟨⟨span, .name x⟩, t :: rest, ending, ws, classes⟩ =
      .ok (.name span x, ⟨t, rest, ending, ws, classes⟩) := rfl
  rw [unaryStep_eq_postfixed rfl, postfixed, bind_eq hterminal, loop_apply]
  exact iterate_done (postfixRound_of_stops hstops _) _ _

/-- A name before what is no operator. -/
theorem spreadStep_name (hstops : Stops 2 t.kind) :
    spreadStep g ⟨⟨span, .name x⟩, t :: rest, ending, ws, classes⟩ =
      .ok (.name span x, ⟨t, rest, ending, ws, classes⟩) := by
  have hstar : (TokenKind.name x : TokenKind String) ≠ .symbol .star := nofun
  refine (spreadStep_eq_infixed hstar).trans ?_
  refine foldr_chain_of_none (unaryStep_name (hstops.mono (by decide))) fun level hlevel => ?_
  exact level_eq_none (n := 0) hlevel hstops

/-- An expression in parentheses at the end of a text. -/
theorem unaryStep_parenthesized {e : Expr String} {close here : Span}
    (he : g.expr ⟨t, rest, .ok here, ws, classes⟩ =
      .ok (e, ⟨⟨close, .symbol .rightParen⟩, [], .ok here, ws', classes'⟩)) :
    unaryStep g ⟨⟨span, .symbol .leftParen⟩, t :: rest, .ok here, ws, classes⟩ =
      .ok (e, ⟨⟨here, .endOfFile⟩, [], .ok here, ws', classes'⟩) := by
  have hopen : expect .leftParen ⟨⟨span, .symbol .leftParen⟩, t :: rest, .ok here, ws, classes⟩ =
      .ok (span, ⟨t, rest, .ok here, ws, classes⟩) := rfl
  have hclose : expect .rightParen ⟨⟨close, .symbol .rightParen⟩, [], .ok here, ws', classes'⟩ =
      .ok (close, ⟨⟨here, .endOfFile⟩, [], .ok here, ws', classes'⟩) := rfl
  have hgroup : parenthesized g ⟨⟨span, .symbol .leftParen⟩, t :: rest, .ok here, ws, classes⟩ =
      .ok (e, ⟨⟨here, .endOfFile⟩, [], .ok here, ws', classes'⟩) := by
    rw [parenthesized, bind_eq hopen, bind_eq he, bind_eq hclose]
    rfl
  have hterminal : terminal g ⟨⟨span, .symbol .leftParen⟩, t :: rest, .ok here, ws, classes⟩ =
      .ok (e, ⟨⟨here, .endOfFile⟩, [], .ok here, ws', classes'⟩) := hgroup
  rw [unaryStep_eq_postfixed rfl, postfixed, bind_eq hterminal, loop_apply]
  exact iterate_done (postfixRound_of_stops (stops_of_continues?_eq_none rfl) _) _ _

end

/-! ## Assignments -/

theorem continues?_of_compoundOp? {k : TokenKind String} {op : BinaryOp} (h : compoundOp? k = some op) :
    continues? k = some 0 := by
  unfold compoundOp? at h
  split at h
  case h_6 => cases h
  all_goals rfl

section

variable {x : String} {value : Expr String} (hname : spreadStep g s = .ok (.name span x, mid))
  (hadvance : advance mid = .ok (t, next)) (hvalue : g.expr next = .ok (value, last))

include hname hadvance hvalue

theorem exprStep_of_assign (hequal : mid.current.kind = .symbol .equal) :
    exprStep g s = .ok (.assign t.span x value, last) := by
  have hat : at? .equal mid = .ok (true, mid) :=
    congrArg (fun b => Except.ok (b, mid)) (beq_iff_eq.mpr hequal)
  have htarget : assignmentTarget (.name span x) next = .ok (x, next) := rfl
  rw [exprStep, bind_eq hname, bind_eq hat, if_pos rfl, bind_eq hadvance, bind_eq htarget, bind_eq hvalue]
  rfl

theorem exprStep_of_compound {op : BinaryOp} (hop : compoundOp? mid.current.kind = some op) :
    exprStep g s = .ok (.assign t.span x (.binary t.span op (.name span x) value), last) := by
  have hequal : mid.current.kind ≠ .symbol .equal := by
    intro hequal
    rw [hequal] at hop
    cases hop
  have hkind : kind mid = .ok (mid.current.kind, mid) := rfl
  have htarget : assignmentTarget (.name span x) next = .ok (x, next) := rfl
  rw [exprStep, bind_eq hname, bind_eq (at?_of_ne hequal), if_neg Bool.false_ne_true, bind_eq hkind, hop]
  dsimp only
  rw [bind_eq hadvance, bind_eq htarget, bind_eq hvalue]
  rfl

end

/-! ## Texts of one expression -/

theorem not_wrapped_expr (e : Expr String) : ¬ Wrapped (.expr span e) := by
  intro h
  have hplace : (Expr.statement ⟨0, 0, 0⟩ (.expr span e) : Expr String) =
      .statement ⟨1, 0, 0⟩ (.expr span e) := (h ⟨0, 0, 0⟩).symm.trans (h ⟨1, 0, 0⟩)
  cases hplace

theorem gives_stmtBody (hs : s.current.kind = .symbol .leftBrace) {st : Stmt String}
    (h : stmtBody g s = .ok (st, s')) : ∃ stmts, st = .block s.current.span stmts := by
  obtain ⟨b, mid, heat, hbody⟩ := bind_eq_ok.mp (show (eatLine .leftBrace >>= fun b =>
    if b = true then untilBrace g.stmt >>= fun stmts => pure (Stmt.block s.current.span stmts)
    else g.stmt) s = .ok (st, s') from h)
  have hb : b = true := by
    obtain ⟨b', mid', heat', hskip⟩ := bind_eq_ok.mp heat
    rw [eat, eatKind_of_eq hs] at heat'
    obtain ⟨_, _, -, hpure⟩ := bind_eq_ok.mp heat'
    cases hpure
    obtain ⟨_, _, -, hpure⟩ := bind_eq_ok.mp hskip
    cases hpure
    rfl
  subst hb
  obtain ⟨stmts, _, -, hpure⟩ := bind_eq_ok.mp hbody
  cases hpure
  exact ⟨stmts, rfl⟩

/-- Only where an expression stands alone is a statement one. -/
theorem exprStmt_of_stmtStep {e : Expr String} (h : stmtStep g s = .ok (.expr span e, s')) :
    exprStmt g s = .ok (.expr span e, s') := by
  cases hwrapped : startsWrapped s.current.kind with
  | true => exact absurd (wrapped_of_stmtStep hwrapped h) (not_wrapped_expr e)
  | false =>
      cases hstarts : startsNoItem s.current.kind with
      | false => exact (stmtStep_of_expr hwrapped hstarts).symm.trans h
      | true =>
          -- A `throw` under its other name and a block are no expressions.
          obtain ⟨⟨place, k⟩, rest, ending, warnings, classes⟩ := s
          cases k with
          | keyword w =>
              cases w <;> first
                | exact absurd (gives_throwStmt _ _ _ h) (not_wrapped_expr e)
                | cases hstarts
          | symbol y =>
              cases y <;> first
                | (obtain ⟨_, hblock⟩ := gives_stmtBody rfl h; cases hblock)
                | cases hstarts
          | _ => cases hstarts

/-- A text of one statement. -/
theorem parse_eq_single {first : Token String} {more : List (Token String)} {here : Span} {st : Stmt String}
    {ws : List ParseWarning} (hfirst : first.kind ≠ .endOfLine) :
    TokenStream.parse ⟨first :: more, .ok here⟩ = .ok ⟨[st], ws⟩ ↔
      ∃ behind last, (grammar (2 * (more.length + 1) + 2)).stmt ⟨first, more, .ok here, [], []⟩ =
          .ok (st, behind) ∧
        skipLineEnds behind = .ok ((), last) ∧ last.current.kind = .endOfFile ∧ last.warnings = ws := by
  have hparse : TokenStream.parse ⟨first :: more, .ok here⟩ =
      (program (grammar (2 * (more.length + 1) + 2)) ⟨first, more, .ok here, [], []⟩).bind
        fun result => .ok ⟨result.1, result.2.warnings⟩ := rfl
  rw [hparse]
  constructor
  · intro h
    cases hprogram : program (grammar (2 * (more.length + 1) + 2)) ⟨first, more, .ok here, [], []⟩ with
    | error e =>
        rw [hprogram] at h
        cases h
    | ok result =>
        obtain ⟨found, last⟩ := result
        rw [hprogram] at h
        cases h
        obtain ⟨mid, hskips, hreads, hend, -⟩ := program_eq_ok.mp hprogram
        cases hskips.symm.trans (skipLineEnds_of_ne hfirst)
        obtain ⟨_, behind, _, _, hstmt, hskip, hnone, hl⟩ := statements_succ_eq_ok.mp hreads
        cases hnone
        cases hl
        exact ⟨behind, last, hstmt, hskip, hend, rfl⟩
  · rintro ⟨behind, last, hstmt, hskip, hend, rfl⟩
    have hreads : statements (grammar (2 * (more.length + 1) + 2)) 1 ⟨first, more, .ok here, [], []⟩ =
        .ok ([st], last) := statements_succ_eq_ok.mpr ⟨st, behind, last, [], hstmt, hskip, rfl, rfl⟩
    have hbound : [st].length ≤ more.length + 1 := Nat.le_add_left 1 _
    rw [program_eq_ok.mpr ⟨_, skipLineEnds_of_ne hfirst, hreads, hend, hbound⟩]
    rfl

/-- A text that is one expression is read by the rule of expressions. -/
theorem expr_of_parse {first : Token String} {more : List (Token String)} {here : Span} {e : Expr String}
    {ws : List ParseWarning} (hfirst : first.kind ≠ .endOfLine)
    (h : TokenStream.parse ⟨first :: more, .ok here⟩ = .ok ⟨[.expr span e], ws⟩) :
    ∃ behind last, (grammar (2 * (more.length + 1) + 1)).expr ⟨first, more, .ok here, [], []⟩ =
        .ok (e, behind) ∧
      skipLineEnds behind = .ok ((), last) ∧ last.current.kind = .endOfFile := by
  obtain ⟨behind, last, hstmt, hskip, hend, -⟩ := (parse_eq_single hfirst).mp h
  have hexpr := exprStmt_of_stmtStep (g := grammar (2 * (more.length + 1) + 1)) hstmt
  obtain ⟨e', behind', he, hpure⟩ := bind_eq_ok.mp (show ((grammar (2 * (more.length + 1) + 1)).expr >>=
    fun e => pure (Stmt.expr first.span e)) _ = .ok (Stmt.expr span e, behind) from hexpr)
  cases hpure
  exact ⟨behind, last, he, hskip, hend⟩

/-- A text that starts with a name is one expression if the rule of expressions reads it up to its end. -/
theorem parse_of_expr {x : String} {more : List (Token String)} {here : Span} {e : Expr String}
    (h : (grammar (2 * (more.length + 1) + 1)).expr ⟨⟨span, .name x⟩, more, .ok here, [], []⟩ = .ok (e, last))
    (hend : last.current.kind = .endOfFile) :
    TokenStream.parse ⟨⟨span, .name x⟩ :: more, .ok here⟩ = .ok ⟨[.expr span e], last.warnings⟩ := by
  have hline : last.current.kind ≠ .endOfLine := by
    rw [hend]
    exact nofun
  have hname : (TokenKind.name x : TokenKind String) ≠ .endOfLine := nofun
  refine (parse_eq_single hname).mpr ⟨last, last, ?_, skipLineEnds_of_ne hline, hend, rfl⟩
  show ((grammar (2 * (more.length + 1) + 1)).expr >>= fun e => pure (Stmt.expr span e)) _ = _
  rw [bind_eq h]
  rfl

/-! ## The right side in both places -/

/-- Tokens of the same kinds, wherever they stand. -/
def SameKinds (ts us : List (Token String)) : Prop := us.map (·.kind) = ts.map (·.kind)

theorem SameKinds.forall {ts us : List (Token String)} (h : SameKinds ts us) {P : TokenKind String → Prop}
    (hts : ∀ t ∈ ts, P t.kind) : ∀ u ∈ us, P u.kind := by
  intro u hu
  have hkind : u.kind ∈ ts.map (·.kind) := h ▸ List.mem_map_of_mem hu
  obtain ⟨t, ht, hsame⟩ := List.mem_map.mp hkind
  rw [← hsame]
  exact hts t ht

theorem SameKinds.forall_last {ts us : List (Token String)} (h : SameKinds ts us)
    {P : TokenKind String → Prop} (hts : ∀ t ∈ ts.getLast?, P t.kind) : ∀ u ∈ us.getLast?, P u.kind := by
  intro u hu
  have hlast := congrArg List.getLast? h
  rw [List.getLast?_map, List.getLast?_map, hu] at hlast
  obtain ⟨t, ht, hsame⟩ := Option.map_eq_some_iff.mp hlast.symm
  change t.kind = u.kind at hsame
  rw [← hsame]
  exact hts t ht

theorem SameKinds.exists_cons {t : Token String} {ts us : List (Token String)} (h : SameKinds (t :: ts) us) :
    ∃ u more, us = u :: more ∧ more.length = ts.length := by
  cases us with
  | nil => cases h
  | cons u more =>
      have hlength := congrArg List.length (List.cons.inj h).2
      rw [List.length_map, List.length_map] at hlength
      exact ⟨u, more, rfl, hlength⟩

/-- The same warning about the same one of some tokens, which stand in two places. -/
def SameWarning (ts us : List (Token String)) (w w' : ParseWarning) : Prop :=
  ∃ p ∈ ts.zip us, w.span = p.1.span ∧ w' = w.mapSpan fun _ => p.2.span

/-- Some tokens alone, and such tokens at the end of a text. -/
def Enclosure.atEnd (here here' : Span) : Enclosure where
  corresponds := fun _ _ => True
  here := here
  tail := []
  ending := .ok here'
  stop := ⟨here', .endOfFile⟩
  behind := []
  closes := .finished here'

/-- Some tokens alone, and such tokens before a closing parenthesis at the end of a text. -/
def Enclosure.parenthesized (ts us : List (Token String)) (here close here' : Span) : Enclosure where
  corresponds := fun span span' => ∃ p ∈ ts.zip us, span = p.1.span ∧ span' = p.2.span
  here := here
  tail := [⟨close, .symbol .rightParen⟩]
  ending := .ok here'
  stop := ⟨close, .symbol .rightParen⟩
  behind := []
  closes := .bracket _ _ _ rfl

theorem Same.eq_mapSpan {w w' : ParseWarning} (h : Same w w') : w' = w.mapSpan fun _ => w'.span := by
  cases w <;> cases w' <;> first | rfl | cases h

theorem forall₂_alike {c : Enclosure} {ts us : List (Token String)} (hkinds : SameKinds ts us)
    (hspans : ∀ p ∈ ts.zip us, c.corresponds p.1.span p.2.span) : List.Forall₂ c.Alike ts us := by
  refine List.forall₂_iff_zip.mpr ⟨?_, fun {t u} hmem => ⟨?_, hspans (t, u) hmem⟩⟩
  · have hlength := congrArg List.length hkinds
    rw [List.length_map, List.length_map] at hlength
    exact hlength.symm
  · have hsame : List.Forall₂ (fun t u => u.kind = t.kind) ts us := by
      have hkinds' : List.Forall₂ Eq (us.map Token.kind) (ts.map Token.kind) := by
        rw [List.forall₂_eq_eq_eq]
        exact hkinds
      rw [List.forall₂_map_left_iff, List.forall₂_map_right_iff] at hkinds'
      exact hkinds'.flip
    exact (List.forall₂_iff_zip.mp hsame).2 hmem

/-- Tokens that are read as an expression alone are read as one where only their end is another. -/
theorem expr_elsewhere {c : Enclosure} {n m : Nat} (hnm : n ≤ m) {first first' : Token String}
    {more more' : List (Token String)} (halike : List.Forall₂ c.Alike (first :: more) (first' :: more'))
    (htokens : ∀ t ∈ first :: more, t.kind ≠ .endOfFile)
    (hlast : ∀ t ∈ (first :: more).getLast?, looksAhead t.kind = false) {e : Expr String} {behind : State String}
    (he : (grammar n).expr ⟨first, more, .ok c.here, [], []⟩ = .ok (e, behind))
    (hskip : skipLineEnds behind = .ok ((), last)) (hend : last.current.kind = .endOfFile) :
    ∃ e' ws ws' classes, behind = ⟨⟨c.here, .endOfFile⟩, [], .ok c.here, ws, classes⟩ ∧
      (grammar m).expr ⟨first', more' ++ c.tail, c.ending, [], []⟩ =
        .ok (e', ⟨c.stop, c.behind, c.ending, ws', classes⟩) ∧
      Same e e' ∧ List.Forall₂ c.AlikeWarning ws ws' := by
  cases halike with
  | cons hfirst hmore =>
      have hstart : c.Tracks ⟨first, more, .ok c.here, [], []⟩ ⟨first', more' ++ c.tail, c.ending, [], []⟩ :=
        .inside hfirst hmore htokens hlast .nil
      obtain ⟨e', behind', he', hsame, htracks⟩ := (matches_grammar hnm).expr _ _ hstart e behind he
      obtain ⟨ws, ws', classes, hbehind, rfl, hwarnings⟩ := htracks.atEnd_of_skip hskip hend
      exact ⟨e', ws, ws', classes, hbehind, he', hsame, hwarnings⟩

/-! ## Compound assignments -/

section

variable {x : String} {symbol : Symbol} {op : BinaryOp} {first : Token String} {more : List (Token String)}
  {a b c d p close here : Span} {value : Expr String} {ws : List ParseWarning} {classes : List String}

theorem parse_of_compound (hop : compoundOp? (.symbol symbol : TokenKind String) = some op)
    (hvalue : (grammar (2 * more.length + 6)).expr ⟨first, more, .ok here, [], []⟩ =
      .ok (value, ⟨⟨here, .endOfFile⟩, [], .ok here, ws, classes⟩)) :
    TokenStream.parse ⟨⟨a, .name x⟩ :: ⟨b, .symbol symbol⟩ :: first :: more, .ok here⟩ =
      .ok ⟨[.expr a (.assign b x (.binary b op (.name a x) value))], ws⟩ := by
  have hstops : Stops 2 (.symbol symbol) :=
    (stops_of_continues?_eq_some (continues?_of_compoundOp? hop)).mono (by decide)
  have hdepth : 2 * ((⟨b, .symbol symbol⟩ :: first :: more).length + 1) = 2 * more.length + 6 := by
    simp only [List.length_cons]
    omega
  have hname : spreadStep (grammar (2 * more.length + 6))
      ⟨⟨a, .name x⟩, ⟨b, .symbol symbol⟩ :: first :: more, .ok here, [], []⟩ =
      .ok (.name a x, ⟨⟨b, .symbol symbol⟩, first :: more, .ok here, [], []⟩) := spreadStep_name hstops
  have hexpr : (grammar (2 * more.length + 6 + 1)).expr
      ⟨⟨a, .name x⟩, ⟨b, .symbol symbol⟩ :: first :: more, .ok here, [], []⟩ = _ :=
    exprStep_of_compound hname rfl hvalue hop
  rw [← hdepth] at hexpr
  exact parse_of_expr hexpr rfl

theorem parse_of_assign
    (hvalue : (grammar (2 * more.length + 11)).expr ⟨first, more, .ok here, [], []⟩ =
      .ok (value, ⟨⟨close, .symbol .rightParen⟩, [], .ok here, ws, classes⟩)) :
    TokenStream.parse ⟨⟨a, .name x⟩ :: ⟨b, .symbol .equal⟩ :: ⟨c, .name x⟩ :: ⟨d, op.lexeme.kind⟩ ::
        ⟨p, .symbol .leftParen⟩ :: first :: more, .ok here⟩ =
      .ok ⟨[.expr a (.assign b x (.binary d op (.name c x) value))], ws⟩ := by
  have hequal : Stops 2 (.symbol .equal) := (stops_of_continues?_eq_some rfl).mono (by decide)
  have hop : Stops 9 op.lexeme.kind := (stops_lexeme op).mono (by have := op.level_le; omega)
  -- Behind the equal sign stand the name, the operator and the parentheses, and nothing behind these.
  let inParens : List (Token String) := ⟨p, .symbol .leftParen⟩ :: first :: more
  let right : List (Token String) := ⟨c, .name x⟩ :: ⟨d, op.lexeme.kind⟩ :: inParens
  have hleft : unaryStep (grammar (2 * more.length + 11))
      ⟨⟨c, .name x⟩, ⟨d, op.lexeme.kind⟩ :: inParens, .ok here, [], []⟩ =
      .ok (.name c x, ⟨⟨d, op.lexeme.kind⟩, inParens, .ok here, [], []⟩) := unaryStep_name hop
  have hinfixed := infixed_of_binary hleft rfl rfl (unaryStep_parenthesized hvalue) rfl
  have hstar : (TokenKind.name x : TokenKind String) ≠ .symbol .star := nofun
  have hspread := (spreadStep_eq_infixed hstar).trans hinfixed
  have hname : spreadStep (grammar (2 * more.length + 12))
      ⟨⟨a, .name x⟩, ⟨b, .symbol .equal⟩ :: right, .ok here, [], []⟩ =
      .ok (.name a x, ⟨⟨b, .symbol .equal⟩, right, .ok here, [], []⟩) := spreadStep_name hequal
  have hdepth : 2 * ((⟨b, .symbol .equal⟩ :: right).length + 1) = 2 * more.length + 12 := by
    simp only [right, inParens, List.length_cons]
    omega
  have hexpr : (grammar (2 * more.length + 12 + 1)).expr
      ⟨⟨a, .name x⟩, ⟨b, .symbol .equal⟩ :: right, .ok here, [], []⟩ = _ :=
    exprStep_of_assign hname rfl (exprStep_of_spread hspread rfl) rfl
  rw [← hdepth] at hexpr
  exact parse_of_expr hexpr rfl

end

/-- A compound assignment is the assignment that it stands for, whatever is on the right. Of the tokens there
only the last matters to what stands behind them: it must be no line end and no `return` or `exit`. -/
theorem parse_compoundAssignment {x : String} {symbol : Symbol} {op : BinaryOp}
    (hop : compoundOp? (.symbol symbol : TokenKind String) = some op) {e e₁ e₂ : List (Token String)} {here span : Span}
    {tree : Expr String} {ws : List ParseWarning}
    (hparse : TokenStream.parse ⟨e, .ok here⟩ = .ok ⟨[.expr span tree], ws⟩)
    (htokens : ∀ t ∈ e, t.kind ≠ .endOfFile) (hfirst : ∀ t ∈ e.head?, t.kind ≠ .endOfLine)
    (hlast : ∀ t ∈ e.getLast?, t.kind ∉ [.endOfLine, .keyword .returnKey, .keyword .exit])
    (he₁ : SameKinds e e₁) (he₂ : SameKinds e e₂) (a₁ b₁ here₁ a₂ b₂ c₂ d₂ opening closing here₂ : Span) :
    ∃ tree₁ tree₂ ws₁ ws₂,
      TokenStream.parse ⟨⟨a₁, .name x⟩ :: ⟨b₁, .symbol symbol⟩ :: e₁, .ok here₁⟩ =
        .ok ⟨[.expr a₁ tree₁], ws₁⟩ ∧
      TokenStream.parse ⟨⟨a₂, .name x⟩ :: ⟨b₂, .symbol .equal⟩ :: ⟨c₂, .name x⟩ :: ⟨d₂, op.lexeme.kind⟩ ::
          ⟨opening, .symbol .leftParen⟩ :: (e₂ ++ [⟨closing, .symbol .rightParen⟩]), .ok here₂⟩ =
        .ok ⟨[.expr a₂ tree₂], ws₂⟩ ∧
      tree₁.withoutSpans = tree₂.withoutSpans ∧
      tree₂.withoutSpans = .assign Span.none x (.binary Span.none op (.name Span.none x) tree.withoutSpans) ∧
      List.Forall₂ (SameWarning e₁ e₂) ws₁ ws₂ := by
  cases e with
  | nil =>
      have hempty : TokenStream.parse (⟨[], .ok here⟩ : TokenStream String) = .ok ⟨[], []⟩ := rfl
      cases hempty.symm.trans hparse
  | cons first more =>
      obtain ⟨behind, last, hexpr, hskip, hend⟩ := expr_of_parse (hfirst first rfl) hparse
      have hlast' : ∀ t ∈ (first :: more).getLast?, looksAhead t.kind = false := by
        intro t ht
        have hnot := hlast t ht
        unfold looksAhead
        split
        next h => exact absurd (by rw [h]; simp) hnot
        next h => exact absurd (by rw [h]; simp) hnot
        next h => exact absurd (by rw [h]; simp) hnot
        next => rfl
      obtain ⟨first₁, more₁, rfl, hlength₁⟩ := he₁.exists_cons
      obtain ⟨first₂, more₂, rfl, hlength₂⟩ := he₂.exists_cons
      -- From the right side alone to that behind the compound symbol,
      have halike₁ : List.Forall₂ (Enclosure.atEnd here here₁).Alike (first :: more) (first₁ :: more₁) :=
        forall₂_alike he₁ fun _ _ => trivial
      obtain ⟨value₁, _, ws₁, classes₁, -, hexpr₁, hsame₁, -⟩ :=
        expr_elsewhere (m := 2 * more₁.length + 6) (by omega) halike₁ htokens hlast' hexpr hskip hend
      change (grammar _).expr ⟨first₁, more₁ ++ [], .ok here₁, [], []⟩ =
        .ok (value₁, ⟨⟨here₁, .endOfFile⟩, [], .ok here₁, ws₁, classes₁⟩) at hexpr₁
      rw [List.append_nil] at hexpr₁
      -- and from there to that in the parentheses.
      have he₁₂ : SameKinds (first₁ :: more₁) (first₂ :: more₂) := he₂.trans he₁.symm
      let enclosure := Enclosure.parenthesized (first₁ :: more₁) (first₂ :: more₂) here₁ closing here₂
      have halike₂ : List.Forall₂ enclosure.Alike (first₁ :: more₁) (first₂ :: more₂) := by
        refine forall₂_alike he₁₂ fun p hp => ?_
        exact ⟨p, hp, rfl, rfl⟩
      have htokens₁ : ∀ t ∈ first₁ :: more₁, t.kind ≠ .endOfFile :=
        he₁.forall (P := (· ≠ .endOfFile)) htokens
      have hlast₁ : ∀ t ∈ (first₁ :: more₁).getLast?, looksAhead t.kind = false :=
        he₁.forall_last (P := (looksAhead · = false)) hlast'
      have hdepth : 2 * more₁.length + 6 ≤ 2 * (more₂ ++ enclosure.tail).length + 11 := by
        rw [List.length_append]
        omega
      obtain ⟨value₂, _, ws₂, classes₂, hbehind, hexpr₂, hsame₂, hwarnings⟩ :=
        expr_elsewhere hdepth halike₂ htokens₁ hlast₁ hexpr₁ (skipLineEnds_of_ne nofun) rfl
      cases hbehind
      refine ⟨_, _, ws₁, ws₂, parse_of_compound hop hexpr₁, parse_of_assign hexpr₂, ?_, ?_, ?_⟩
      · exact congrArg (fun e => Expr.assign Span.none x (.binary Span.none op (.name Span.none x) e)) hsame₂
      · have hsame : tree.withoutSpans = value₂.withoutSpans := hsame₁.trans hsame₂
        rw [hsame]
        rfl
      · refine hwarnings.imp fun w w' h => ?_
        obtain ⟨p, hp, hspan, hspan'⟩ := h.span
        refine ⟨p, hp, hspan, ?_⟩
        rw [← hspan']
        exact h.kind.eq_mapSpan

attribute [local instance] Command.charNames

/-- A spread is no operand of an operator, and yet it may stand on the right. -/
theorem parse_compoundAssignment_spread : ∃ tree₁ tree₂ ws₁ ws₂,
    parse "x += *y" = .ok ⟨[.expr ⟨1, 1, 1⟩ tree₁], ws₁⟩ ∧
    parse "x = x + (*y)" = .ok ⟨[.expr ⟨1, 1, 1⟩ tree₂], ws₂⟩ ∧
    tree₁.withoutSpans = tree₂.withoutSpans ∧ ws₁.length = ws₂.length := by
  have hleft : Lexer.scan "x += *y" = ⟨[⟨⟨1, 1, 1⟩, .name "x"⟩, ⟨⟨1, 3, 2⟩, .symbol .plusEqual⟩,
      ⟨⟨1, 6, 1⟩, .symbol .star⟩, ⟨⟨1, 7, 1⟩, .name "y"⟩], .ok ⟨1, 8, 1⟩⟩ := by cbv
  have hright : Lexer.scan "x = x + (*y)" = ⟨[⟨⟨1, 1, 1⟩, .name "x"⟩, ⟨⟨1, 3, 1⟩, .symbol .equal⟩,
      ⟨⟨1, 5, 1⟩, .name "x"⟩, ⟨⟨1, 7, 1⟩, .symbol .plus⟩, ⟨⟨1, 9, 1⟩, .symbol .leftParen⟩,
      ⟨⟨1, 10, 1⟩, .symbol .star⟩, ⟨⟨1, 11, 1⟩, .name "y"⟩, ⟨⟨1, 12, 1⟩, .symbol .rightParen⟩],
      .ok ⟨1, 13, 1⟩⟩ := by cbv
  have halone : TokenStream.parse ⟨[⟨⟨1, 1, 1⟩, .symbol .star⟩, ⟨⟨1, 2, 1⟩, .name "y"⟩], .ok ⟨1, 3, 1⟩⟩ =
      .ok ⟨[.expr ⟨1, 1, 1⟩ (.unary ⟨1, 1, 1⟩ .spread (.name ⟨1, 2, 1⟩ "y"))], []⟩ := by cbv
  obtain ⟨tree₁, tree₂, ws₁, ws₂, h₁, h₂, hsame, -, hwarnings⟩ :=
    @parse_compoundAssignment "x" .plusEqual .add rfl _ [⟨⟨1, 6, 1⟩, .symbol .star⟩, ⟨⟨1, 7, 1⟩, .name "y"⟩]
      [⟨⟨1, 10, 1⟩, .symbol .star⟩, ⟨⟨1, 11, 1⟩, .name "y"⟩] _ _ _ _ halone (by decide) (by decide)
      (by decide) rfl rfl ⟨1, 1, 1⟩ ⟨1, 3, 2⟩ ⟨1, 8, 1⟩ ⟨1, 1, 1⟩ ⟨1, 3, 1⟩ ⟨1, 5, 1⟩ ⟨1, 7, 1⟩ ⟨1, 9, 1⟩
      ⟨1, 12, 1⟩ ⟨1, 13, 1⟩
  refine ⟨tree₁, tree₂, ws₁, ws₂, ?_, ?_, hsame, hwarnings.length_eq⟩
  · rw [parse, hleft]
    exact h₁
  · rw [parse, hright]
    exact h₂

end IslandScript.Parser
