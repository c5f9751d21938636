import IslandScript.Parser.Program
import IslandScript.Proofs.Parser.Items

/-!
# The parts of a term

What it is for a term to be read in its place (`Parses`), and what follows for the places that its parts
have in other terms: in parentheses, as an operand, as an argument, as an element. Each call of the
grammar for a part comes behind a token, so nesting as deep as there are tokens is enough.
-/

namespace IslandScript.Parser

variable {n level : Nat} {before after : List Lexeme}

/-! ## Terminals -/

section Terminals

variable {g : Grammar String} {Q : Expr String → Prop}

theorem reads_terminal_name {w : Word} (h : ∀ span, Q (.name span w.text)) :
    Reads (terminal g) (.name w :: after) after Q := by
  refine reads_get.bind fun s hkind => ?_
  obtain ⟨⟨span, k⟩, _⟩ := s
  cases hkind
  exact reads_advance.bind fun _ _ => reads_pure (h span)

theorem reads_terminal_value {l : Lexeme} {literal : Literal} (hl : l.kind = .value literal)
    (h : ∀ span, Q (.value span literal)) : Reads (terminal g) (l :: after) after Q := by
  refine reads_get.bind fun s hkind => ?_
  obtain ⟨⟨span, k⟩, _⟩ := s
  cases hkind.trans hl
  exact reads_advance.bind fun _ _ => reads_pure (h span)

theorem reads_terminal_leftParen
    (h : Reads (parenthesized g) (.symbol .leftParen :: before) after Q) :
    Reads (terminal g) (.symbol .leftParen :: before) after Q := by
  refine reads_get.bind fun s hkind => ?_
  obtain ⟨⟨span, k⟩, _⟩ := s
  cases hkind
  exact h

theorem reads_terminal_leftBracket
    (h : Reads (listExpr g) (.symbol .leftBracket :: before) after Q) :
    Reads (terminal g) (.symbol .leftBracket :: before) after Q := by
  refine reads_get.bind fun s hkind => ?_
  obtain ⟨⟨span, k⟩, _⟩ := s
  cases hkind
  exact h.inside

end Terminals

/-! ## Terms in their places -/

/-- An expression is the tree of a term but for its spans. -/
def IsTree (t : Term) (e : Expr String) : Prop := e.withoutSpans = t.toExpr

/-- A term as lexemes, the operand of a spread being in a place for an operand of `or`. -/
abbrev lexemes (t : Term) : List Lexeme := t.print BinaryOp.or.level

/-- A term is read on its level and on looser ones, and if its level groups to the left, then the loop
of its level may go on behind it. -/
structure Parses (t : Term) : Prop where
  reads : ∀ {n level : Nat} {after : List Lexeme}, level ≤ t.level → (lexemes t).length ≤ n →
    Stops level (nextKind after) →
    Reads (atLevel (grammar n) level) (lexemes t ++ after) after (IsTree t)
  grows : ∀ {n : Nat} {after : List Lexeme}, GroupsLeft t.level → (lexemes t).length ≤ n →
    Stops (t.level + 1) (nextKind after) →
    Grows (opening (grammar n) t.level) (extend (grammar n) t.level) (lexemes t ++ after) after
      (IsTree t)

/-- On a level that does not group to the left it is enough to read the term there. -/
theorem parses_of_reads {t : Term} (hgroups : ¬ GroupsLeft t.level)
    (h : ∀ {n : Nat} {after : List Lexeme}, (lexemes t).length ≤ n →
      Stops t.level (nextKind after) →
      Reads (atLevel (grammar n) t.level) (lexemes t ++ after) after (IsTree t)) : Parses t where
  reads hle hlength hstops :=
    reads_descend hle t.level_le ((Term.startsAt_print _ t).append _) hstops
      (h hlength (hstops.mono hle))
  grows hgroups' := absurd hgroups' hgroups

/-- On a level that groups to the left it is enough that its loop may go on behind the term. -/
theorem parses_of_grows {t : Term} (hgroups : GroupsLeft t.level)
    (h : ∀ {n : Nat} {after : List Lexeme}, (lexemes t).length ≤ n →
      Stops (t.level + 1) (nextKind after) →
      Grows (opening (grammar n) t.level) (extend (grammar n) t.level) (lexemes t ++ after) after
        (IsTree t)) : Parses t where
  reads hle hlength hstops :=
    reads_descend hle t.level_le ((Term.startsAt_print _ t).append _) hstops
      (reads_of_grows hgroups (hstops.mono hle)
        (h hlength (hstops.mono (Nat.le_succ_of_le hle))))
  grows _ := h

/-- On the level of postfixes it is enough to read the term as a terminal. -/
theorem parses_of_terminal {t : Term} (hlevel : t.level = 9)
    (h : ∀ {n : Nat} {after : List Lexeme}, (lexemes t).length ≤ n →
      Reads (terminal (grammar n)) (lexemes t ++ after) after (IsTree t)) : Parses t := by
  refine parses_of_grows (hlevel ▸ groupsLeft_postfix) fun hlength _ => ?_
  rw [hlevel]
  exact (h hlength).grows

/-- A term in parentheses is a terminal. The grammar is called for it behind the opening one. -/
theorem reads_enclosed {t : Term} (ht : Parses t) (hlength : (lexemes t).length + 2 ≤ n) :
    Reads (terminal (grammar n)) (Lexeme.enclosed true (lexemes t) ++ after) after (IsTree t) := by
  obtain ⟨n, rfl⟩ : ∃ m, n = m + 1 := ⟨n - 1, by omega⟩
  have hexpr : Reads (grammar (n + 1)).expr (lexemes t ++ .symbol .rightParen :: after)
      (.symbol .rightParen :: after) (IsTree t) :=
    ht.reads (Nat.zero_le _) (by omega) (stops_of_continues?_eq_none rfl)
  simp only [Lexeme.enclosed, if_true, List.append_assoc, List.cons_append, List.nil_append]
  refine reads_terminal_leftParen (reads_expect.bind fun _ _ => ?_)
  exact hexpr.bind fun _ he => reads_expect.bind fun _ _ => reads_pure he

theorem reads_part {t : Term} (ht : Parses t) (hlevel : level ≤ 9)
    (hlength : (t.part BinaryOp.or.level level).length ≤ n) (hstops : Stops level (nextKind after)) :
    Reads (atLevel (grammar n) level) (t.part BinaryOp.or.level level ++ after) after
      (IsTree t) := by
  rcases Nat.lt_or_ge t.level level with hlt | hge
  · rw [Term.length_part_of_lt hlt] at hlength
    rw [Term.part_of_lt hlt]
    exact reads_of_terminal hlevel ⟨_, _, rfl, by decide⟩ hstops (reads_enclosed ht hlength)
  · rw [Term.part_of_ge hge] at hlength ⊢
    exact ht.reads hge hlength hstops

theorem grows_part {t : Term} (ht : Parses t) (hgroups : GroupsLeft level)
    (hlength : (t.part BinaryOp.or.level level).length ≤ n)
    (hstops : Stops (level + 1) (nextKind after)) :
    Grows (opening (grammar n) level) (extend (grammar n) level)
      (t.part BinaryOp.or.level level ++ after) after (IsTree t) := by
  rcases Nat.lt_trichotomy t.level level with hlt | rfl | hgt
  · -- In parentheses the part is a terminal, which the opening of any level reads.
    rw [Term.length_part_of_lt hlt] at hlength
    rw [Term.part_of_lt hlt]
    refine Reads.grows ?_
    unfold opening
    split
    · exact reads_enclosed ht hlength
    next hne =>
      have hlt9 := Nat.lt_of_le_of_ne hgroups.2.1 hne
      exact reads_of_terminal hlt9 ⟨_, _, rfl, by decide⟩ hstops (reads_enclosed ht hlength)
  · rw [Term.part_of_ge (Nat.le_refl _)] at hlength ⊢
    exact ht.grows hgroups hlength hstops
  · -- The opening of the level reads what binds tighter; the loop has not begun.
    have hlt9 := Nat.lt_of_lt_of_le hgt t.level_le
    rw [Term.part_of_ge (Nat.le_of_lt hgt)] at hlength ⊢
    refine Reads.grows ?_
    rw [opening, if_neg (Nat.ne_of_lt hlt9)]
    exact ht.reads hgt hlength hstops

/-! ## Arguments and elements -/

/-- The mark of an argument is read if there is one, and what is behind it is not taken for one. -/
theorem reads_mark {marked : Bool} (h : marked = false → nextKind after ≠ .symbol .star) :
    Reads (eat .star) ((if marked then [.symbol .star] else []) ++ after) after (· = marked) := by
  cases marked with
  | true => exact reads_eat
  | false => exact reads_eat_of_ne (h rfl)

theorem nextKind_ne_star {ls : List Lexeme} (h : Term.StartsAt 2 ls) :
    nextKind ls ≠ .symbol .star := by
  obtain ⟨l, rest, rfl, hl, -⟩ := h
  exact kind_ne_star hl

/-- An argument of an index may be any expression behind the mark. -/
theorem reads_indexArg {a : IndexArg Term} (ha : Parses a.value)
    (hlength : (Term.printIndexArg BinaryOp.or.level a).length ≤ n)
    (hstops : Stops 0 (nextKind after)) :
    Reads (indexArg (grammar (n + 1))) (Term.printIndexArg BinaryOp.or.level a ++ after) after
      (IsArg a.toArg) := by
  obtain ⟨marked, t⟩ := a
  rw [Term.printIndexArg, List.length_append] at hlength
  rw [Term.printIndexArg, List.append_assoc]
  have hvalue : Reads (grammar (n + 1)).expr
      (Lexeme.enclosed (!marked && t.isSpread) (lexemes t) ++ after) after (IsTree t) := by
    cases hneeded : !marked && t.isSpread with
    | true =>
        have hlong : (t.print BinaryOp.or.level).length + 2 ≤ n := by
          simp only [hneeded, Lexeme.enclosed, if_true, List.length_append, List.length_cons,
            List.length_nil] at hlength
          omega
        exact reads_of_terminal (Nat.zero_le 9) ⟨_, _, rfl, by decide⟩ hstops
          (reads_enclosed ha hlong)
    | false =>
        rw [hneeded] at hlength
        exact ha.reads (Nat.zero_le _) (Nat.le_of_add_left_le hlength) hstops
  have hmark : marked = false →
      nextKind (Lexeme.enclosed (!marked && t.isSpread) (lexemes t) ++ after) ≠ .symbol .star := by
    rintro rfl
    refine nextKind_ne_star (Term.StartsAt.append ?_ after)
    cases hspread : t.isSpread with
    | true => exact ⟨_, _, rfl, by decide⟩
    | false => exact Term.startsAt_of_not_isSpread _ hspread
  refine reads_here.bind fun span _ => (reads_mark hmark).bind fun b hb => ?_
  refine hvalue.bind fun e he => reads_pure ?_
  rw [hb]
  exact congrArg (Arg.mk Span.none marked none) he

theorem parses_name (w : Word) : Parses (.name w) :=
  parses_of_terminal rfl fun _ => reads_terminal_name fun _ => rfl

/-- A name behind which `=` stands, in an assignment or a call. -/
theorem reads_assignedName {w : Word} (hn : 0 < n) :
    Reads (grammar (n + 1)).spread (.name w :: .symbol .equal :: after) (.symbol .equal :: after)
      fun e => e.name? = some w.text := by
  have hname : Reads (grammar (n + 1)).spread (.name w :: .symbol .equal :: after)
      (.symbol .equal :: after) (IsTree (.name w)) := by
    refine (parses_name w).reads (show 1 ≤ 9 by decide) hn fun m hm => ?_
    cases hm
    exact Nat.zero_lt_one
  refine hname.imp fun e he => ?_
  rw [← Expr.name?_mapSpans (f := fun _ => Span.none) e]
  exact congrArg Expr.name? he

/-- An argument of a call may be any expression but an assignment behind the mark and the name. -/
theorem reads_callArg {a : CallArg Term} (ha : Parses a.value)
    (hlength : (Term.printCallArg BinaryOp.or.level a).length ≤ n)
    (hstops : Stops 0 (nextKind after)) :
    Reads (callArg (grammar (n + 1))) (Term.printCallArg BinaryOp.or.level a ++ after) after
      (IsArg a.toArg) := by
  obtain ⟨marked, w?, t⟩ := a
  rw [Term.printCallArg, List.length_append, List.length_append] at hlength
  rw [Term.printCallArg, List.append_assoc, List.append_assoc]
  have hlow : 1 ≤ if marked then 1 else 2 := by cases marked <;> decide
  have hhigh : (if marked then 1 else 2) ≤ 9 := by cases marked <;> decide
  have hstarts := (Term.startsAt_part (Term.startsAt_print BinaryOp.or.level t) hhigh).append after
  have hvalue : Reads (grammar (n + 1)).spread
      (t.part BinaryOp.or.level (if marked then 1 else 2) ++ after) after (IsTree t) := by
    refine reads_descend hlow hhigh hstarts (hstops.mono (Nat.zero_le 1)) ?_
    exact reads_part ha hhigh (Nat.le_of_add_left_le hlength) (hstops.mono (Nat.zero_le _))
  have hequal : nextKind after ≠ .symbol .equal := by
    intro h
    cases (hstops 0 (h ▸ rfl))
  cases w? with
  | none =>
      have hmark : marked = false →
          nextKind (t.part BinaryOp.or.level (if marked then 1 else 2) ++ after) ≠
            .symbol .star := by
        rintro rfl
        exact nextKind_ne_star hstarts
      refine reads_here.bind fun span _ => (reads_mark hmark).bind fun b hb => ?_
      refine hvalue.bind fun e he => (reads_eat_of_ne hequal).bind fun named hnamed => ?_
      rw [hnamed, hb]
      exact reads_pure (congrArg (Arg.mk Span.none marked none) he)
  | some w =>
      refine reads_here.bind fun span _ => (reads_mark fun _ => ?_).bind fun b hb => ?_
      · intro h
        cases h
      simp only [Option.elim_some, List.length_cons] at hlength
      refine (reads_assignedName (show 0 < n by omega)).bind fun e he =>
        reads_eat.bind fun named hnamed => ?_
      rw [hnamed, hb]
      simp only [if_true, he]
      refine hvalue.bind fun v hv => reads_pure ?_
      exact congrArg (Arg.mk Span.none marked (some w.text)) hv

/-- Elements are read up to the closing bracket. No element is followed by `for`, so they are not those
of a comprehension. -/
theorem reads_listExpr {elements : List Term} (helements : ∀ e ∈ elements, Parses e)
    (hlength : (Lexeme.commas (elements.map lexemes) ++ [Lexeme.symbol .rightBracket]).length ≤ n) :
    Reads (listExpr (grammar (n + 1)))
      (.symbol .leftBracket :: (Lexeme.commas (elements.map lexemes) ++ [.symbol .rightBracket] ++
        after)) after (IsTree (.list elements)) := by
  rw [List.append_assoc, List.singleton_append]
  refine reads_expectLine.bind fun span _ => ?_
  cases elements with
  | nil =>
      refine reads_eat.bind fun b hb => ?_
      rw [hb]
      exact reads_pure rfl
  | cons e es =>
      have hclose : Closes .rightBracket := .inl rfl
      have hfirst := (@startsAt_commas _ _ lexemes e es (Term.startsAt_print _ e)).append
        (.symbol .rightBracket :: after)
      refine (reads_eat_of_ne (nextKind_ne_close hclose hfirst)).bind fun b hb => ?_
      rw [hb]
      have hitem : ∀ t ∈ e :: es, ∀ more, Stops 0 (nextKind more) →
          Reads (grammar (n + 1)).expr (lexemes t ++ more) more (IsTree t) :=
        fun t ht more hstops => (helements t ht).reads (Nat.zero_le _)
          (length_le_of_mem ht hlength) hstops
      refine (reads_items hclose hitem).bind fun found hfound => ?_
      refine reads_skipLineEnds.bind fun _ _ => reads_atWord?.bind fun comprehends hfor => ?_
      have hlist : IsTree (.list (e :: es)) (.list span found) := by
        rw [IsTree, Expr.withoutSpans, Expr.mapSpans, Term.toExpr, Exprs.mapSpans_eq_map,
          Term.toExprs_eq_map]
        exact congrArg (Expr.list Span.none) (map_eq_map_of_forall₂ hfound)
      split
      · cases hfor
      · exact reads_expect.bind fun _ _ => reads_pure hlist

end IslandScript.Parser
