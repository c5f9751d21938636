import IslandScript.Parser.Program
import IslandScript.Proofs.Parser.Reads
import IslandScript.Proofs.Parser.Term

/-!
# The parsers of the levels of precedence

`atLevel` is the parser of a level. It reads what the parser of the next level reads, unless that starts
like a term of its own level or goes on like one: `Stops` says of the next token that it does not. The
levels of infix operators and that of postfixes group to the left. Each of them is a loop that puts more
and more behind what its opening read.
-/

namespace IslandScript.Parser

variable {g : Grammar String} {level : Nat} {before after : List Lexeme} {Q : Expr String → Prop}

/-- The parser of a level of precedence. -/
def atLevel (g : Grammar String) : Nat → Parser String (Expr String)
  | 0 => exprStep g
  | 1 => spreadStep g
  | 9 => postfixed g
  | n + 2 => (levels.drop n).foldr chain (unaryStep g)

/-- The infix operators of a level. -/
def infixAt (level : Nat) : Level String := levels.getD (level - 2) fun _ => none

/-! ## What goes on with a term -/

/-- The level on which a token goes on with what is before it. -/
def continues? : TokenKind String → Option Nat
  | .symbol .equal | .symbol .plusEqual | .symbol .minusEqual | .symbol .starEqual
  | .symbol .slashEqual | .symbol .percentEqual => some 0
  | .keyword .or => some 2
  | .keyword .and => some 3
  | .symbol .doubleEqual | .symbol .notEqual => some 4
  | .symbol .less | .symbol .lessEqual | .symbol .greater | .symbol .greaterEqual => some 5
  | .symbol .plus | .symbol .minus => some 6
  | .symbol .star | .symbol .slash | .symbol .percent => some 7
  | .symbol .dot | .symbol .leftBracket | .symbol .leftParen => some 9
  | _ => none

/-- A token goes on with no term of a level. -/
def Stops (level : Nat) (k : TokenKind String) : Prop := ∀ m, continues? k = some m → m < level

theorem Stops.mono {low high : Nat} {k : TokenKind String} (h : Stops low k) (hle : low ≤ high) :
    Stops high k :=
  fun m hm => Nat.lt_of_lt_of_le (h m hm) hle

theorem stops_of_continues?_eq_none {k : TokenKind String} (h : continues? k = none) :
    Stops level k :=
  fun _ hm => nomatch h.symm.trans hm

/-- A token that goes on with the terms of a level goes on with none that binds tighter. -/
theorem stops_of_continues?_eq_some {k : TokenKind String} (h : continues? k = some level) :
    Stops (level + 1) k := by
  intro m hm
  cases h.symm.trans hm
  exact Nat.lt_succ_self _

theorem stops_lexeme (op : BinaryOp) : Stops (op.level + 1) op.lexeme.kind :=
  stops_of_continues?_eq_some (by cases op <;> rfl)

theorem infixAt_lexeme (op : BinaryOp) : infixAt op.level op.lexeme.kind = some op := by
  cases op <;> rfl

theorem continues?_of_infixAt {k : TokenKind String} {op : BinaryOp} (hlow : 2 ≤ level)
    (h : infixAt level k = some op) : continues? k = some level := by
  match level with
  | 0 | 1 => omega
  | 2 | 3 | 4 | 5 | 6 | 7 =>
    cases k with
    | keyword k => cases k <;> first | rfl | cases h
    | symbol s => cases s <;> first | rfl | cases h
    | _ => cases h
  | n + 8 => cases h

theorem infixAt_eq_none {k : TokenKind String} (hlow : 2 ≤ level) (h : Stops level k) :
    infixAt level k = none := by
  cases hop : infixAt level k with
  | none => rfl
  | some op => exact absurd (h level (continues?_of_infixAt hlow hop)) (Nat.lt_irrefl _)

/-! ## Levels that group to the left -/

/-- The levels of infix operators and of postfixes. -/
def GroupsLeft (level : Nat) : Prop := 2 ≤ level ∧ level ≤ 9 ∧ level ≠ 8

theorem groupsLeft_postfix : GroupsLeft 9 := ⟨by decide, by decide, by decide⟩

/-- What a level that groups to the left starts with. -/
def opening (g : Grammar String) (level : Nat) : Parser String (Expr String) :=
  if level = 9 then terminal g else atLevel g (level + 1)

/-- What a level that groups to the left puts behind an expression. -/
def extend (g : Grammar String) (level : Nat) : Expr String → Parser String (Step (Expr String) (Expr String)) :=
  if level = 9 then postfixRound g else chainRound (infixAt level) (atLevel g (level + 1))

theorem atLevel_eq_loop (h : GroupsLeft level) :
    atLevel g level = opening g level >>= loop (extend g level) := by
  obtain ⟨hlow, hhigh, hne⟩ := h
  match level with
  | 2 | 3 | 4 | 5 | 6 | 7 | 9 => rfl
  | 8 => exact absurd rfl hne
  | n + 10 => omega

/-- A token that does not go on with a term ends the loop of its level. -/
theorem reads_extend_of_stops (h : GroupsLeft level) (hstops : Stops level (nextKind after))
    (e : Expr String) :
    Reads (extend g level e) after after fun step => ∃ e', step = .done e' ∧ e' = e := by
  unfold extend
  split
  next h9 =>
    subst h9
    unfold postfixRound
    refine reads_get.bind fun s hkind => ?_
    have hnot {k : TokenKind String} (hk : continues? k = some 9) : s.current.kind ≠ k := by
      intro h
      exact absurd (hstops 9 (hkind ▸ h ▸ hk)) (Nat.lt_irrefl 9)
    dsimp only
    split
    next hs => exact absurd (congrArg Token.kind hs) (hnot rfl)
    next hs => exact absurd (congrArg Token.kind hs) (hnot rfl)
    next hs => exact absurd (congrArg Token.kind hs) (hnot rfl)
    next => exact reads_pure ⟨e, rfl, rfl⟩
  next =>
    unfold chainRound
    refine reads_kind.bind fun k hk => ?_
    rw [hk, infixAt_eq_none h.1 hstops]
    exact reads_pure ⟨e, rfl, rfl⟩

/-- A level that groups to the left has read all that belongs to it when the next token does not go on
with it. -/
theorem reads_of_grows (h : GroupsLeft level) (hstops : Stops level (nextKind after))
    (hgrows : Grows (opening g level) (extend g level) before after Q) :
    Reads (atLevel g level) before after Q := by
  rw [atLevel_eq_loop h]
  refine hgrows.done fun e he => (reads_extend_of_stops h hstops e).imp ?_
  rintro _ ⟨e', rfl, rfl⟩
  exact ⟨e', rfl, he⟩

/-! ## From level to level -/

theorem continues?_eq_none_of_stops {k : TokenKind String} (h : Stops 0 k) :
    continues? k = none := by
  cases hk : continues? k with
  | none => rfl
  | some m => exact absurd (h m hk) (Nat.not_lt_zero m)

theorem compoundOp?_eq_none {k : TokenKind String} (h : continues? k = none) :
    compoundOp? k = none := by
  unfold compoundOp?
  split
  case h_6 => rfl
  all_goals cases h

theorem kind_ne_star {l : Lexeme} (h : 2 ≤ l.startLevel) : l.kind ≠ .symbol .star := by
  intro hkind
  cases l <;> cases hkind
  exact absurd h (by decide)

theorem unaryOp?_eq_none {l : Lexeme} (h : 9 ≤ l.startLevel) : unaryOp? l.kind = none := by
  cases l with
  | symbol s => cases s <;> first | rfl | exact absurd h (by decide)
  | _ => rfl

/-- A level reads what the next one reads if that neither starts nor goes on like a term of its own. -/
theorem reads_lift (hlevel : level < 9) (hstart : Term.StartsAt (level + 1) before)
    (hstops : Stops level (nextKind after)) (h : Reads (atLevel g (level + 1)) before after Q) :
    Reads (atLevel g level) before after Q := by
  obtain ⟨l, rest, rfl, hl, -⟩ := hstart
  by_cases hleft : 2 ≤ level ∧ level ≠ 8
  · have hgroups : GroupsLeft level := ⟨hleft.1, Nat.le_of_lt hlevel, hleft.2⟩
    refine reads_of_grows hgroups hstops ?_
    rw [opening, if_neg (Nat.ne_of_lt hlevel)]
    exact h.grows
  match level with
  | 0 =>
    have hnone := continues?_eq_none_of_stops hstops
    refine h.bind fun e he => reads_at?.bind fun b hb => ?_
    have hequal : nextKind after ≠ .symbol .equal := by
      intro h
      rw [h] at hnone
      cases hnone
    rw [beq_eq_false_iff_ne.mpr hequal] at hb
    rw [hb]
    refine reads_kind.bind fun k hk => ?_
    rw [hk, compoundOp?_eq_none hnone]
    exact reads_pure he
  | 1 =>
    refine reads_at?.bind fun b hb => ?_
    have hstar : l.kind ≠ .symbol .star := kind_ne_star hl
    rw [nextKind, beq_eq_false_iff_ne.mpr hstar] at hb
    rw [hb]
    exact h
  | 8 =>
    refine reads_kind.bind fun k hk => ?_
    rw [hk, nextKind, unaryOp?_eq_none hl]
    exact h
  | 2 | 3 | 4 | 5 | 6 | 7 => exact absurd (by decide) hleft
  | n + 9 => omega

/-- A level reads what any tighter one reads, under the same conditions. -/
theorem reads_descend {high : Nat} (hle : level ≤ high) (hhigh : high ≤ 9)
    (hstart : Term.StartsAt high before) (hstops : Stops level (nextKind after))
    (h : Reads (atLevel g high) before after Q) : Reads (atLevel g level) before after Q := by
  induction hle with
  | refl => exact h
  | @step n hn ih =>
      exact ih (Nat.le_of_succ_le hhigh) (hstart.mono (Nat.le_succ n))
        (reads_lift hhigh hstart (hstops.mono hn) h)

/-- What is read as a terminal is read on every level. -/
theorem reads_of_terminal (hle : level ≤ 9) (hstart : Term.StartsAt 9 before)
    (hstops : Stops level (nextKind after)) (h : Reads (terminal g) before after Q) :
    Reads (atLevel g level) before after Q := by
  refine reads_descend hle (Nat.le_refl 9) hstart hstops ?_
  exact reads_of_grows groupsLeft_postfix (hstops.mono hle) h.grows

end IslandScript.Parser
