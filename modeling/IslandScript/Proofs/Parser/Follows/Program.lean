import IslandScript.Proofs.Parser.Follows.Statement

/-!
# Programs as statements one behind the other

The loop over a program reads as many statements as it finds. `statements` reads a given number of them,
and a program is what it reads if the text ends there (`program_eq_ok`). The runs on a stream and on a
longer one are compared statement by statement: only the last can be stopped (`follows_statements`).
-/

namespace IslandScript.Parser

variable {j : Seam} {Pre : Prop} {g g' : Grammar String} {s s' : State String}

/-- Reads a number of statements, each with any line ends behind it. -/
def statements (g : Grammar String) : Nat → Parser String (Program String)
  | 0 => pure []
  | n + 1 => do
    let s ← g.stmt
    skipLineEnds
    return s :: (← statements g n)

/-- Reads any line ends and a number of statements. -/
def reading (g : Grammar String) (n : Nat) : Parser String (Program String) := skipLineEnds >>= fun _ => statements g n

/-- How a number of statements is read. -/
theorem statements_succ_eq_ok {n : Nat} {l : Program String} :
    statements g (n + 1) s = .ok (l, s') ↔ ∃ stmt mid next rest, g.stmt s = .ok (stmt, mid) ∧
      skipLineEnds mid = .ok ((), next) ∧ statements g n next = .ok (rest, s') ∧ l = stmt :: rest := by
  constructor
  · intro h
    obtain ⟨stmt, mid, hstmt, h⟩ := bind_eq_ok.mp h
    obtain ⟨_, next, hskip, h⟩ := bind_eq_ok.mp h
    obtain ⟨rest, last, hrest, h⟩ := bind_eq_ok.mp h
    cases h
    exact ⟨stmt, mid, next, rest, hstmt, hskip, hrest, rfl⟩
  · rintro ⟨stmt, mid, next, rest, hstmt, hskip, hrest, rfl⟩
    refine bind_eq_ok.mpr ⟨stmt, mid, hstmt, bind_eq_ok.mpr ⟨(), next, hskip, ?_⟩⟩
    exact bind_eq_ok.mpr ⟨rest, s', hrest, rfl⟩

theorem length_of_statements {n : Nat} {l : Program String} (h : statements g n s = .ok (l, s')) :
    l.length = n := by
  induction n generalizing l s with
  | zero =>
      cases h
      rfl
  | succ n ih =>
      obtain ⟨_, _, _, rest, -, -, hrest, rfl⟩ := statements_succ_eq_ok.mp h
      rw [List.length_cons, ih hrest]

theorem statements_add {n m : Nat} {l l' : Program String} {mid : State String}
    (h : statements g n s = .ok (l, mid)) (h' : statements g m mid = .ok (l', s')) :
    statements g (n + m) s = .ok (l ++ l', s') := by
  induction n generalizing l s with
  | zero =>
      cases h
      rw [Nat.zero_add]
      exact h'
  | succ n ih =>
      obtain ⟨stmt, mid₁, next, rest, hstmt, hskip, hrest, rfl⟩ := statements_succ_eq_ok.mp h
      rw [Nat.add_right_comm]
      exact statements_succ_eq_ok.mpr ⟨stmt, mid₁, next, _, hstmt, hskip, ih hrest, rfl⟩

/-- Behind statements no line end is left. -/
theorem statements_kind_ne {n : Nat} {l : Program String} (h : statements g n s = .ok (l, s'))
    (hs : s.current.kind ≠ .endOfLine) : s'.current.kind ≠ .endOfLine := by
  induction n generalizing l s with
  | zero =>
      cases h
      exact hs
  | succ n ih =>
      obtain ⟨_, _, next, _, _, hskip, hrest, -⟩ := statements_succ_eq_ok.mp h
      exact ih hrest (skipLineEnds_eq_ok hskip).2

/-! ## Tokens that start no statement -/

/-- The tokens that go on with what is unfinished, but may as well start a statement. -/
def takenUp : List (TokenKind String) :=
  [.keyword .catchKey, .symbol .leftBrace, .symbol .star, .symbol .minus, .symbol .leftParen,
    .symbol .leftBracket]

section

variable (hs : goesOn s.current.kind = true ∨ s.current.kind = .endOfFile)
  (hnot : s.current.kind ∉ takenUp)

include hs hnot

/-- No term starts with another token that goes on with what is unfinished, or at the end. -/
theorem unaryStep_error : ∃ e, unaryStep g s = .error e := by
  obtain ⟨⟨span, k⟩, rest, ending, warnings, classes⟩ := s
  dsimp only at hs hnot
  rcases hs with hgoesOn | rfl
  · cases k with
    | keyword w => cases w <;> first | exact absurd hgoesOn Bool.false_ne_true | exact ⟨_, rfl⟩
    | symbol x =>
        cases x <;> first
          | exact absurd hgoesOn Bool.false_ne_true
          | exact ⟨_, rfl⟩
          | exact absurd (by simp [takenUp]) hnot
    | _ => exact absurd hgoesOn Bool.false_ne_true
  · exact ⟨_, rfl⟩

theorem stmtStep_eq_exprStmt : stmtStep g s = exprStmt g s := by
  obtain ⟨⟨span, k⟩, rest, ending, warnings, classes⟩ := s
  dsimp only at hs hnot
  rcases hs with hgoesOn | rfl
  · cases k with
    | keyword w =>
        cases w <;> first
          | exact absurd hgoesOn Bool.false_ne_true
          | rfl
          | exact absurd (by simp [takenUp]) hnot
    | symbol x =>
        cases x <;> first
          | exact absurd hgoesOn Bool.false_ne_true
          | rfl
          | exact absurd (by simp [takenUp]) hnot
    | _ => exact absurd hgoesOn Bool.false_ne_true
  · rfl

theorem exprStep_error : ∃ e, exprStep g s = .error e := by
  obtain ⟨e, he⟩ := unaryStep_error (g := g) hs hnot
  have hinfixed : infixed g s = .error e := by
    have hlevels (ls : List (Level String)) : ls.foldr chain (unaryStep g) s = .error e := by
      induction ls with
      | nil => exact he
      | cons level ls ih => exact bind_eq_error ih
    exact hlevels levels
  have hstar : (s.current.kind == .symbol .star) = false := by
    refine beq_eq_false_iff_ne.mpr fun h => hnot ?_
    rw [h]
    simp [takenUp]
  have hspread : spreadStep g s = (if (s.current.kind == .symbol .star) = true then
      advance >>= fun t => infixed g >>= fun e => pure (Expr.unary t.span .spread e)
    else infixed g) s := rfl
  rw [hstar, if_neg Bool.false_ne_true, hinfixed] at hspread
  exact ⟨e, bind_eq_error hspread⟩

/-- No statement starts with such a token. -/
theorem stmt_error (n : Nat) : ∃ e, (grammar n).stmt s = .error e := by
  cases n with
  | zero => exact ⟨_, rfl⟩
  | succ n =>
      have hexpr : ∃ e, (grammar n).expr s = .error e := by
        cases n with
        | zero => exact ⟨_, rfl⟩
        | succ n => exact exprStep_error hs hnot
      obtain ⟨e, he⟩ := hexpr
      have hstmt : (grammar (n + 1)).stmt s = exprStmt (grammar n) s := stmtStep_eq_exprStmt hs hnot
      have hhere : exprStmt (grammar n) s =
          ((grammar n).expr >>= fun value => pure (Stmt.expr s.current.span value)) s := rfl
      exact ⟨e, hstmt.trans (hhere.trans (bind_eq_error he))⟩

end

theorem eq_zero_of_statements {n m : Nat} {l : Program String} (hs : s.current.kind = .endOfFile)
    (h : statements (grammar n) m s = .ok (l, s')) : m = 0 := by
  cases m with
  | zero => rfl
  | succ m =>
      obtain ⟨_, _, _, _, hstmt, -⟩ := statements_succ_eq_ok.mp h
      obtain ⟨e, he⟩ := stmt_error (s := s) (.inr hs) (by rw [hs]; simp [takenUp]) n
      rw [he] at hstmt
      cases hstmt

/-! ## The loop of a program -/

theorem programRound_apply (found : Program String) (s : State String) :
    programRound g found s = (if (s.current.kind == .endOfFile) = true then pure (Step.done found)
      else g.stmt >>= fun stmt => skipLineEnds >>= fun _ => pure (.again (stmt :: found))) s := rfl

theorem programRound_of_end (hs : s.current.kind = .endOfFile) (found : Program String) :
    programRound g found s = .ok (.done found, s) := by
  rw [programRound_apply, hs]
  rfl

theorem programRound_of_ne (hs : s.current.kind ≠ .endOfFile) (found : Program String) :
    programRound g found s = (g.stmt >>= fun stmt => skipLineEnds >>= fun _ =>
      pure (.again (stmt :: found))) s := by
  rw [programRound_apply, beq_eq_false_iff_ne.mpr hs, if_neg Bool.false_ne_true]

/-- The loop of a program reads statements up to the end, at most as many as its bound allows. -/
theorem iterate_programRound_eq_ok {n : Nat} {bound : List (Token String)} {found l : Program String} :
    iterate bound (programRound (grammar n)) found s = .ok (l, s') ↔
      ∃ m stmts, statements (grammar n) m s = .ok (stmts, s') ∧ s'.current.kind = .endOfFile ∧
        m < bound.length ∧ l = stmts.reverse ++ found := by
  -- By induction on the bound; each round is a statement and the line ends behind it.
  induction bound generalizing found s with
  | nil =>
      constructor
      · exact fun h => nomatch h
      · rintro ⟨m, stmts, -, -, hbound, -⟩
        exact absurd hbound (Nat.not_lt_zero m)
  | cons t bound ih =>
      by_cases hs : s.current.kind = .endOfFile
      · rw [iterate_done (programRound_of_end hs found)]
        constructor
        · intro h
          cases h
          exact ⟨0, [], rfl, hs, Nat.succ_pos _, rfl⟩
        · rintro ⟨m, stmts, h, -, -, rfl⟩
          obtain rfl := eq_zero_of_statements hs h
          cases h
          rfl
      · rw [iterate_cons]
        constructor
        · intro h
          obtain ⟨step, mid, hround, hmore⟩ := bind_eq_ok.mp h
          rw [programRound_of_ne hs] at hround
          obtain ⟨stmt, afterStmt, hstmt, hround⟩ := bind_eq_ok.mp hround
          obtain ⟨_, next, hskip, hround⟩ := bind_eq_ok.mp hround
          cases hround
          obtain ⟨m, stmts, hstmts, hend, hbound, rfl⟩ := ih.mp hmore
          refine ⟨m + 1, stmt :: stmts, ?_, hend, Nat.succ_lt_succ hbound, ?_⟩
          · exact statements_succ_eq_ok.mpr ⟨stmt, afterStmt, mid, stmts, hstmt, hskip, hstmts, rfl⟩
          · simp
        · rintro ⟨m, stmts, h, hend, hbound, rfl⟩
          cases m with
          | zero =>
              cases h
              exact absurd hend hs
          | succ m =>
              obtain ⟨stmt, mid, next, rest, hstmt, hskip, hrest, rfl⟩ := statements_succ_eq_ok.mp h
              have hround : programRound (grammar n) found s = .ok (.again (stmt :: found), next) := by
                rw [programRound_of_ne hs, bind_eq hstmt, bind_eq hskip]
                rfl
              rw [bind_eq hround]
              refine ih.mpr ⟨m, rest, hrest, hend, Nat.lt_of_succ_lt_succ hbound, ?_⟩
              simp

/-- A program is as many statements as there are up to the end of the tokens. -/
theorem program_eq_ok {n : Nat} {l : Program String} :
    program (grammar n) s = .ok (l, s') ↔ ∃ mid, skipLineEnds s = .ok ((), mid) ∧
      statements (grammar n) l.length mid = .ok (l, s') ∧ s'.current.kind = .endOfFile ∧
      l.length ≤ mid.rest.length + 1 := by
  constructor
  · intro h
    obtain ⟨_, mid, hskip, h⟩ := bind_eq_ok.mp h
    obtain ⟨found, last, hloop, h⟩ := bind_eq_ok.mp h
    cases h
    rw [loop_apply] at hloop
    obtain ⟨m, stmts, hstmts, hend, hbound, hfound⟩ := iterate_programRound_eq_ok.mp hloop
    have hl : found.reverse = stmts := by rw [hfound, List.append_nil, List.reverse_reverse]
    rw [hl, length_of_statements hstmts]
    exact ⟨mid, hskip, hstmts, hend, Nat.le_of_lt_succ hbound⟩
  · rintro ⟨mid, hskip, hstmts, hend, hbound⟩
    refine bind_eq_ok.mpr ⟨(), mid, hskip, bind_eq_ok.mpr ⟨l.reverse, s', ?_, ?_⟩⟩
    · rw [loop_apply]
      refine iterate_programRound_eq_ok.mpr ⟨l.length, l, hstmts, hend, Nat.lt_succ_of_le hbound, ?_⟩
      rw [List.append_nil]
    · rw [List.reverse_reverse]
      rfl

/-! ## Following -/

/-- The last statement may go on, and the token behind the line ends goes on with what is unfinished. -/
def LastGoesOn (j : Seam) (l : Program String) : Prop :=
  (∃ last ∈ l.getLast?, last.unfinished = true) ∧ j.GoesOn

theorem LastGoesOn.cons {l : Program String} (h : LastGoesOn j l) (stmt : Stmt String) :
    LastGoesOn j (stmt :: l) := by
  obtain ⟨⟨last, hlast, hunfinished⟩, hgoesOn⟩ := h
  refine ⟨⟨last, ?_, hunfinished⟩, hgoesOn⟩
  rw [List.getLast?_cons, hlast]
  rfl

theorem follows_statements (hg : FollowGrammar j g g') (n : Nat) :
    Follows j Pre (statements g n) (statements g' n) (fun _ => True) (LastGoesOn j) := by
  induction n generalizing Pre with
  | zero => exact follows_pure rfl fun _ => trivial
  | succ n ih =>
      refine hg.stmt.bind (fun stmt => ?_) fun stmt h => ?_
      · refine follows_skipLineEnds.andThen fun _ => ?_
        refine ih.bind (fun rest => ?_) fun rest h => ?_
        · exact follows_pure rfl fun _ => trivial
        · exact atEnd_pure (h.cons stmt)
      · -- Behind a statement that was stopped the tokens are at their end, so it is the last.
        refine atEnd_skipLineEnds.bind fun _ _ => ?_
        cases n with
        | zero => exact atEnd_pure (U := LastGoesOn j) ⟨⟨stmt, rfl, h.1⟩, h.2⟩
        | succ n => exact (FailsAtEnd.bind (FailsAtEnd.bind hg.fail.stmt)).atEnd

end IslandScript.Parser
