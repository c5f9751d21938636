import IslandScript.Command.Characters
import IslandScript.Proofs.Parser.Parts

/-!
# Terms are read back

The text of a term parses to its tree. Two facts about each term go through the induction
(`Parser.Parses`): the parser of its level, and of any looser one, reads the term, and if the level
groups to the left, then its loop may go on behind the term. The second is what the left operand of an
infix operator and the target of a postfix need.
-/

namespace IslandScript.Parser

variable {n level : Nat} {before after : List Lexeme}

/-! ## The constructs of a term -/

/-- The operand of a spread stands behind its mark on the level of `or`. -/
theorem parses_spread {operand : Term} (h : Parses operand) : Parses (.unary .spread operand) := by
  refine parses_of_reads (fun hgroups => absurd hgroups.1 (show ¬ 2 ≤ 1 by decide))
    fun {n after} hlength hstops => ?_
  have hprint : lexemes (.unary .spread operand) =
      .symbol .star :: operand.part BinaryOp.or.level BinaryOp.or.level := by
    rw [lexemes, Term.print, Term.part]
    rfl
  rw [hprint] at hlength ⊢
  have hoperand := reads_part h (show BinaryOp.or.level ≤ 9 by decide)
    (Nat.le_of_succ_le hlength) (hstops.mono (show 1 ≤ 2 by decide))
  refine reads_at?.bind fun b hb => ?_
  obtain rfl : b = true := hb
  refine reads_advance.bind fun t _ => hoperand.bind fun e he => reads_pure ?_
  exact congrArg (Expr.unary Span.none .spread) he

/-- The operand of any other prefix operator stands behind it on their level. -/
theorem parses_prefix {op : UnaryOp} (hop : op ≠ .spread) {operand : Term} (h : Parses operand) :
    Parses (.unary op operand) := by
  have hprefix : op.level = 8 ∧ op.operandLevel BinaryOp.or.level = 8 ∧
      unaryOp? op.lexeme.kind = some op := by
    cases op with
    | spread => exact absurd rfl hop
    | _ => exact ⟨rfl, rfl, rfl⟩
  obtain ⟨hlevel, hoperandLevel, hop?⟩ := hprefix
  have hlevel : (Term.unary op operand).level = 8 := hlevel
  refine parses_of_reads (fun hgroups => absurd hlevel hgroups.2.2) fun {n after} hlength hstops => ?_
  rw [hlevel] at hstops ⊢
  have hprint : lexemes (.unary op operand) = op.lexeme :: operand.part BinaryOp.or.level 8 := by
    rw [lexemes, Term.print, Term.part, hoperandLevel]
  rw [hprint] at hlength ⊢
  obtain ⟨n, rfl⟩ : ∃ m, n = m + 1 := ⟨n - 1, (Nat.sub_add_cancel (Nat.one_le_of_lt hlength)).symm⟩
  have hoperand : Reads (grammar (n + 1)).unary (operand.part BinaryOp.or.level 8 ++ after) after
      (IsTree operand) := reads_part h (by decide) (Nat.le_of_succ_le_succ hlength) hstops
  refine reads_kind.bind fun k hk => ?_
  rw [hk, List.cons_append, nextKind, hop?]
  refine reads_advance.bind fun t _ => hoperand.bind fun e he => reads_pure ?_
  exact congrArg (Expr.unary Span.none op) he

theorem parses_unary {op : UnaryOp} {operand : Term} (h : Parses operand) :
    Parses (.unary op operand) := by
  by_cases hop : op = .spread
  · subst hop
    exact parses_spread h
  · exact parses_prefix hop h

/-- The right operand of an infix operator is a round of its level's loop. -/
theorem parses_binary {op : BinaryOp} {left right : Term} (hleft : Parses left)
    (hright : Parses right) : Parses (.binary op left right) := by
  have hle : op.level ≤ 7 := op.level_le
  have hgroups : GroupsLeft op.level := ⟨op.le_level, by omega, by omega⟩
  refine parses_of_grows hgroups fun {n after} hlength hstops => ?_
  have hprint : lexemes (.binary op left right) = left.part BinaryOp.or.level op.level ++
      op.lexeme :: right.part BinaryOp.or.level (op.level + 1) := by
    rw [lexemes, Term.print, Term.part, Term.part]
  rw [hprint] at hlength ⊢
  rw [List.length_append, List.length_cons] at hlength
  rw [List.append_assoc, List.cons_append]
  -- The operator stops what binds tighter, so the left operand leaves the loop of the level open.
  have hinfix : Stops (op.level + 1) (nextKind (op.lexeme ::
      (right.part BinaryOp.or.level (op.level + 1) ++ after))) := stops_lexeme op
  have hstart := grows_part hleft hgroups (Nat.le_of_add_right_le hlength) hinfix
  refine hstart.again ?_ fun l hl => ?_
  · rw [List.length_cons, List.length_append]
    omega
  have hoperand := reads_part hright (show op.level + 1 ≤ 9 by omega)
    (show _ ≤ n by omega) hstops
  have hround : extend (grammar n) op.level =
      chainRound (infixAt op.level) (atLevel (grammar n) (op.level + 1)) :=
    if_neg (show op.level ≠ 9 by omega)
  rw [hround]
  refine reads_kind.bind fun k hk => ?_
  rw [hk, nextKind, infixAt_lexeme]
  refine reads_advance.bind fun t _ => hoperand.bind fun r hr => reads_pure ⟨_, rfl, ?_⟩
  exact congrArg₂ (Expr.binary Span.none op) hl hr

/-- What is behind `=` is any expression. -/
theorem parses_assign {w : Word} {value : Term} (h : Parses value) : Parses (.assign w value) := by
  refine parses_of_reads (fun hgroups => absurd hgroups.1 (show ¬ 2 ≤ 0 by decide))
    fun {n after} hlength hstops => ?_
  have hprint : lexemes (.assign w value) = .name w :: .symbol .equal :: lexemes value := by
    rw [lexemes, Term.print]
  rw [hprint] at hlength ⊢
  rw [List.length_cons, List.length_cons] at hlength
  obtain ⟨n, rfl⟩ : ∃ m, n = m + 1 := ⟨n - 1, by omega⟩
  have hvalue : Reads (grammar (n + 1)).expr (lexemes value ++ after) after (IsTree value) :=
    h.reads (Nat.zero_le _) (by omega) hstops
  refine (reads_assignedName (Nat.succ_pos n)).bind fun e he => reads_at?.bind fun b hb => ?_
  obtain rfl : b = true := hb
  refine reads_advance.bind fun t _ => ?_
  have htarget : assignmentTarget e = pure w.text := by rw [assignmentTarget, he]
  rw [htarget]
  refine (@reads_pure _ _ (· = w.text) _ rfl).bind fun target ht => ?_
  rw [ht]
  exact hvalue.bind fun v hv => reads_pure (congrArg (Expr.assign Span.none w.text) hv)

/-- A postfix is a round of the loop of its level. -/
theorem parses_postfix {t target : Term} {mark : Symbol} {ls : List Lexeme} (hlevel : t.level = 9)
    (hprint : lexemes t = target.part BinaryOp.or.level 9 ++ .symbol mark :: ls)
    (hmark : continues? (.symbol mark) = some 9) (h : Parses target)
    (hround : ∀ {n : Nat} {after : List Lexeme} (e : Expr String), IsTree target e → ls.length < n →
      Reads (postfixRound (grammar n) e) (.symbol mark :: (ls ++ after)) after
        fun step => ∃ e', step = .again e' ∧ IsTree t e') : Parses t := by
  refine parses_of_grows (hlevel ▸ groupsLeft_postfix) fun {n after} hlength _ => ?_
  rw [hprint] at hlength ⊢
  rw [List.length_append, List.length_cons] at hlength
  rw [hlevel, List.append_assoc, List.cons_append]
  have hpostfix : Stops (9 + 1) (nextKind (.symbol mark :: (ls ++ after))) :=
    stops_of_continues?_eq_some hmark
  have hstart := grows_part h groupsLeft_postfix (Nat.le_of_add_right_le hlength) hpostfix
  refine hstart.again ?_ fun e he => hround e he (by omega)
  rw [List.length_cons, List.length_append]
  omega

theorem parses_member {target : Term} {w : Word} (h : Parses target) :
    Parses (.member target w) := by
  have hprint : lexemes (.member target w) =
      target.part BinaryOp.or.level 9 ++ .symbol .dot :: [.name w] := by
    rw [lexemes, Term.print, Term.part]
  refine parses_postfix rfl hprint rfl h fun {n after} e he _ => reads_get.bind fun s hkind => ?_
  obtain ⟨⟨span, k⟩, _⟩ := s
  cases hkind
  refine reads_advance.bind fun _ _ => reads_expectName.bind fun found hfound => ?_
  refine reads_pure ⟨_, rfl, ?_⟩
  exact congrArg₂ (Expr.member Span.none) he hfound

theorem parses_index {target : Term} {args : List (IndexArg Term)} (h : Parses target)
    (hargs : ∀ a ∈ args, Parses a.value) : Parses (.index target args) := by
  have hprint : lexemes (.index target args) = target.part BinaryOp.or.level 9 ++
      .symbol .leftBracket :: (Lexeme.commas (args.map (Term.printIndexArg BinaryOp.or.level)) ++
        [.symbol .rightBracket]) := by
    rw [lexemes, Term.print, Term.part, Term.printIndexArgs_eq_map, List.append_assoc,
      List.cons_append]
  refine parses_postfix rfl hprint rfl h fun {n after} e he hlength => ?_
  obtain ⟨n, rfl⟩ : ∃ m, n = m + 1 := ⟨n - 1, by omega⟩
  have harg : ∀ a ∈ args, ∀ more, Stops 0 (nextKind more) →
      Reads (indexArg (grammar (n + 1))) (Term.printIndexArg BinaryOp.or.level a ++ more) more
        (IsArg a.toArg) := fun a ha _ hstops =>
    reads_indexArg (hargs a ha) (length_le_of_mem ha (Nat.le_of_lt_succ hlength)) hstops
  refine reads_get.bind fun s hkind => ?_
  obtain ⟨⟨span, k⟩, _⟩ := s
  cases hkind
  refine reads_advance.bind fun _ _ => ?_
  refine (reads_args (.inl rfl) (fun a _ => Term.startsAt_printIndexArg _ a) harg).inside.bind
    fun found hfound => reads_pure ⟨_, rfl, ?_⟩
  rw [← Term.toIndexArgs_eq_map] at hfound
  exact congrArg₂ (Expr.index Span.none) he hfound

theorem parses_invoke {target : Term} {args : List (CallArg Term)} (h : Parses target)
    (hargs : ∀ a ∈ args, Parses a.value) : Parses (.invoke target args) := by
  have hprint : lexemes (.invoke target args) = target.part BinaryOp.or.level 9 ++
      .symbol .leftParen :: (Lexeme.commas (args.map (Term.printCallArg BinaryOp.or.level)) ++
        [.symbol .rightParen]) := by
    rw [lexemes, Term.print, Term.part, Term.printCallArgs_eq_map, List.append_assoc,
      List.cons_append]
  refine parses_postfix rfl hprint rfl h fun {n after} e he hlength => ?_
  obtain ⟨n, rfl⟩ : ∃ m, n = m + 1 := ⟨n - 1, by omega⟩
  have harg : ∀ a ∈ args, ∀ more, Stops 0 (nextKind more) →
      Reads (callArg (grammar (n + 1))) (Term.printCallArg BinaryOp.or.level a ++ more) more
        (IsArg a.toArg) := fun a ha _ hstops =>
    reads_callArg (hargs a ha) (length_le_of_mem ha (Nat.le_of_lt_succ hlength)) hstops
  refine reads_get.bind fun s hkind => ?_
  obtain ⟨⟨span, k⟩, _⟩ := s
  cases hkind
  refine reads_advance.bind fun _ _ => ?_
  refine (reads_args (.inr rfl) (fun a _ => Term.startsAt_printCallArg _ a) harg).inside.bind
    fun found hfound => reads_pure ⟨_, rfl, ?_⟩
  rw [← Term.toCallArgs_eq_map] at hfound
  exact congrArg₂ (Expr.invoke Span.none) he hfound

theorem parses_list {elements : List Term} (h : ∀ e ∈ elements, Parses e) :
    Parses (.list elements) := by
  refine parses_of_terminal rfl fun {n after} hlength => ?_
  have hprint : lexemes (.list elements) =
      .symbol .leftBracket :: (Lexeme.commas (elements.map lexemes) ++ [.symbol .rightBracket]) := by
    rw [lexemes, Term.print, Term.printElements_eq_map]
    rfl
  rw [hprint] at hlength ⊢
  rw [List.length_cons] at hlength
  obtain ⟨n, rfl⟩ : ∃ m, n = m + 1 := ⟨n - 1, by omega⟩
  exact reads_terminal_leftBracket (reads_listExpr h (Nat.le_of_succ_le_succ hlength))

/-- Every term is read on its level. -/
theorem parses (t : Term) : Parses t := by
  induction t with
  | name w => exact parses_name w
  | constant c => exact parses_of_terminal rfl fun _ => reads_terminal_value rfl fun _ => rfl
  | string s => exact parses_of_terminal rfl fun _ => reads_terminal_value rfl fun _ => rfl
  | unary op operand ih => exact parses_unary ih
  | binary op left right ihleft ihright => exact parses_binary ihleft ihright
  | assign w value ih => exact parses_assign ih
  | member target w ih => exact parses_member ih
  | index target args ih ihargs => exact parses_index ih ihargs
  | invoke target args ih ihargs => exact parses_invoke ih ihargs
  | list elements ih => exact parses_list ih

/-! ## Texts -/

/-- What starts like a term is an expression as a statement. -/
theorem reads_stmt {Q : Expr String → Prop} (hstart : Term.StartsAt level before)
    (h : Reads (grammar (n + 1)).expr before after Q) :
    Reads (grammar (n + 2)).stmt before after fun s => ∃ span e, s = .expr span e ∧ Q e := by
  have hexpr : Reads (exprStmt (grammar (n + 1))) before after
      fun s => ∃ span e, s = .expr span e ∧ Q e :=
    reads_here.bind fun span _ => h.bind fun e he => reads_pure ⟨span, e, rfl, he⟩
  obtain ⟨l, rest, rfl, -, hpos⟩ := hstart
  refine reads_kind.bind fun k hk => ?_
  rw [hk]
  -- The keywords and the brace that start other statements start no term.
  cases l with
  | keyword k => exact absurd hpos (Nat.lt_irrefl 0)
  | symbol s => cases s <;> first | exact hexpr | exact absurd hpos (Nat.lt_irrefl 0)
  | constant c => exact hexpr
  | name w => exact hexpr
  | string s => exact hexpr

/-- A statement up to the end of the text is a program. -/
theorem reads_program {g : Grammar String} {Q : Stmt String → Prop} (hstart : Term.StartsAt level before)
    (h : Reads g.stmt before [] Q) :
    Reads (program g) before [] fun found => ∃ s, found = [s] ∧ Q s := by
  have hempty : Grows (pure []) (programRound g) before before fun found => found = [] :=
    (@reads_pure _ _ (· = []) [] rfl).grows
  obtain ⟨l, rest, rfl, -, -⟩ := hstart
  have hone : Grows (pure []) (programRound g) (l :: rest) []
      fun found => ∃ s, found = [s] ∧ Q s := by
    refine hempty.again (Nat.succ_pos _) fun found hfound => reads_kind.bind fun k hk => ?_
    have hmore : (k == .endOfFile) = false := by
      rw [hk]
      cases l <;> rfl
    rw [hmore, hfound]
    refine h.bind fun s hs => reads_skipLineEnds.bind fun _ _ => ?_
    exact reads_pure ⟨_, rfl, s, rfl, hs⟩
  have hall : Reads (loop (programRound g) []) (l :: rest) []
      fun found => ∃ s, found = [s] ∧ Q s := by
    rw [loop_eq]
    refine hone.done fun found hfound => reads_kind.bind fun k hk => ?_
    rw [hk]
    exact reads_pure ⟨_, rfl, hfound⟩
  refine reads_skipLineEnds.bind fun _ _ => hall.bind fun found hfound => ?_
  obtain ⟨s, rfl, hs⟩ := hfound
  exact reads_pure ⟨s, rfl, hs⟩

/-- A parser of tokens starts before the lexemes they are. -/
theorem stands_start {stream : TokenStream String} {ls : List Lexeme} {span : Span}
    (htokens : stream.tokens.map (·.kind) = ls.map Lexeme.kind) (hending : stream.ending = .ok span) :
    ∃ s, State.start stream = .ok s ∧ Stands s ls ∧ s.warnings = [] := by
  obtain ⟨tokens, ending⟩ := stream
  cases hending
  cases ls with
  | nil =>
      cases List.map_eq_nil_iff.mp htokens
      exact ⟨_, rfl, .atEnd rfl rfl rfl, rfl⟩
  | cons l ls =>
      cases tokens with
      | nil => cases htokens
      | cons t tokens =>
          rw [List.map_cons, List.map_cons, List.cons.injEq] at htokens
          exact ⟨_, rfl, .before htokens.1 htokens.2 rfl, rfl⟩

/-- Lexemes that the grammar reads are a text that parses, nesting being bounded by their number. -/
theorem parse_spaced [Text.CharNames] {ls : List Lexeme} {Q : Program String → Prop}
    (h : Reads (program (grammar (2 * ls.length + 2))) ls [] Q) :
    ∃ found, parse (Lexeme.spaced ls) = .ok ⟨found, []⟩ ∧ Q found := by
  obtain ⟨htokens, span, hending⟩ := Lexer.scan_spaced ls
  obtain ⟨s, hstart, hs, hnone⟩ := stands_start htokens hending
  obtain ⟨found, s', hrun, -, hwarnings, hfound⟩ := h s hs
  have hlength : (Lexer.scan (Lexeme.spaced ls)).tokens.length = ls.length := by
    have := congrArg List.length htokens
    rwa [List.length_map, List.length_map] at this
  refine ⟨found, ?_, hfound⟩
  unfold parse TokenStream.parse
  rw [hstart, hlength]
  change (program (grammar (2 * ls.length + 2)) s).bind _ = _
  rw [hrun, ← hnone, ← hwarnings]
  rfl

/-- A term is a program of one statement. -/
theorem reads_term (t : Term) :
    Reads (program (grammar (2 * (lexemes t).length + 2))) (lexemes t) []
      fun found => ∃ s, found = [s] ∧ ∃ span e, s = .expr span e ∧ IsTree t e := by
  have hstart : Term.StartsAt t.level (lexemes t) := Term.startsAt_print _ t
  have hexpr : Reads (grammar (2 * (lexemes t).length + 1)).expr (lexemes t ++ []) [] (IsTree t) :=
    (parses t).reads (Nat.zero_le _) (by omega) (stops_of_continues?_eq_none rfl)
  rw [List.append_nil] at hexpr
  exact reads_program hstart (reads_stmt hstart hexpr)

end IslandScript.Parser

namespace IslandScript

/-- The text of a term is accepted without a warning as one expression statement, and its tree is that
of the term but for the spans. Only parts that the table of precedence puts below their place are in
parentheses, and a spread that is the operand of a spread. -/
theorem term_text_parses [Text.CharNames] (t : Term) :
    ∃ span e, parse (t.text BinaryOp.or.level) = .ok ⟨[.expr span e], []⟩ ∧
      e.withoutSpans = t.toExpr := by
  obtain ⟨_, hparse, _, rfl, span, e, rfl, he⟩ := Parser.parse_spaced (Parser.reads_term t)
  exact ⟨span, e, hparse, he⟩

/-- A spread of a spread of a name. -/
def doubleSpread : Term :=
  .unary .spread (.unary .spread (.name ⟨"a", ⟨'a', [], rfl, rfl, fun _ h => nomatch h⟩, rfl, rfl⟩))

attribute [local instance] Command.charNames

/-- Without parentheses a spread of a spread is refused, since the operand of a spread is read on the
level of `or`. -/
theorem doubleSpread_refused :
    doubleSpread.text UnaryOp.spread.level = "* * a" ∧
      ¬ ∃ span e, parse (doubleSpread.text UnaryOp.spread.level) = .ok ⟨[.expr span e], []⟩ ∧
        e.withoutSpans = doubleSpread.toExpr := by
  have htext : doubleSpread.text UnaryOp.spread.level = "* * a" := by rfl
  have hrefused : parse "* * a" =
      .error (.error ⟨.invalidTerminal (.symbol .star), ⟨1, 3, 1⟩, none⟩) := by rfl
  refine ⟨htext, ?_⟩
  rintro ⟨span, e, hparse, -⟩
  rw [htext, hrefused] at hparse
  cases hparse

end IslandScript
