import IslandScript.Proofs.Lexer.Lexeme
import IslandScript.Proofs.Syntax.Spans

/-!
# Terms and how they are written

A term is an expression of names, constants, strings, operators, assignments, postfixes and lists, apart
from any text. It is written with as few parentheses as the precedence of its operators allows. The
levels of precedence, the loosest first:

0. assignment
1. spread
2. `or`, 3. `and`, 4. equality, 5. comparison, 6. sums, 7. products
8. prefixes
9. postfixes, and what holds no operator outside

Each place for a part has a lowest level. A part of a lower one is put in parentheses there.
-/

namespace IslandScript

/-- An argument of an index: marked to be spread or not. -/
structure IndexArg (τ : Type) where
  marked : Bool
  value : τ

/-- An argument of a call: marked to be spread or not, with a name or without. -/
structure CallArg (τ : Type) where
  marked : Bool
  name : Option Word
  value : τ

/-- An expression of names, constants, strings, operators, assignments, postfixes and lists. -/
inductive Term where
  | name (w : Word)
  | constant (c : Constant)
  | string (s : String)
  | unary (op : UnaryOp) (operand : Term)
  | binary (op : BinaryOp) (left right : Term)
  | assign (target : Word) (value : Term)
  | member (target : Term) (name : Word)
  | index (target : Term) (args : List (IndexArg Term))
  | invoke (target : Term) (args : List (CallArg Term))
  | list (elements : List Term)

/-! ## The tree of a term -/

mutual

/-- The tree of a term, standing nowhere. -/
def Term.toExpr : Term → Expr String
  | .name w => .name Span.none w.text
  | .constant c => .value Span.none c.literal
  | .string s => .value Span.none (.string s)
  | .unary op operand => .unary Span.none op operand.toExpr
  | .binary op left right => .binary Span.none op left.toExpr right.toExpr
  | .assign target value => .assign Span.none target.text value.toExpr
  | .member target w => .member Span.none target.toExpr w.text
  | .index target args => .index Span.none target.toExpr (Term.toIndexArgs args)
  | .invoke target args => .invoke Span.none target.toExpr (Term.toCallArgs args)
  | .list elements => .list Span.none (Term.toExprs elements)

/-- The trees of the arguments of an index. -/
def Term.toIndexArgs : List (IndexArg Term) → List (Arg String (Expr String))
  | [] => []
  | ⟨marked, value⟩ :: rest => ⟨Span.none, marked, none, value.toExpr⟩ :: Term.toIndexArgs rest

/-- The trees of the arguments of a call. -/
def Term.toCallArgs : List (CallArg Term) → List (Arg String (Expr String))
  | [] => []
  | ⟨marked, w?, value⟩ :: rest =>
    ⟨Span.none, marked, w?.map Word.text, value.toExpr⟩ :: Term.toCallArgs rest

/-- The trees of elements. -/
def Term.toExprs : List Term → List (Expr String)
  | [] => []
  | e :: rest => e.toExpr :: Term.toExprs rest

end

/-- The tree of an argument of an index. -/
def IndexArg.toArg (a : IndexArg Term) : Arg String (Expr String) :=
  ⟨Span.none, a.marked, none, a.value.toExpr⟩

/-- The tree of an argument of a call. -/
def CallArg.toArg (a : CallArg Term) : Arg String (Expr String) :=
  ⟨Span.none, a.marked, a.name.map Word.text, a.value.toExpr⟩

theorem Term.toIndexArgs_eq_map (args : List (IndexArg Term)) :
    Term.toIndexArgs args = args.map IndexArg.toArg := by
  induction args with
  | nil => rfl
  | cons a args ih => rw [Term.toIndexArgs, ih, List.map_cons, IndexArg.toArg]

theorem Term.toCallArgs_eq_map (args : List (CallArg Term)) :
    Term.toCallArgs args = args.map CallArg.toArg := by
  induction args with
  | nil => rfl
  | cons a args ih => rw [Term.toCallArgs, ih, List.map_cons, CallArg.toArg]

theorem Term.toExprs_eq_map (elements : List Term) :
    Term.toExprs elements = elements.map Term.toExpr := by
  induction elements with
  | nil => rfl
  | cons e elements ih => rw [Term.toExprs, ih, List.map_cons]

/-! ## Levels of precedence -/

/-- The level of a prefix operator. -/
def UnaryOp.level : UnaryOp → Nat
  | .spread => 1
  | .negative | .not | .size => 8

/-- The level of an infix operator. -/
def BinaryOp.level : BinaryOp → Nat
  | .or => 2
  | .and => 3
  | .equal | .notEqual => 4
  | .less | .lessEqual | .greater | .greaterEqual => 5
  | .add | .subtract => 6
  | .multiply | .divide | .modulus => 7

/-- The level of a term. -/
def Term.level : Term → Nat
  | .assign _ _ => 0
  | .unary op _ => op.level
  | .binary op _ _ => op.level
  | .name _ | .constant _ | .string _ | .member _ _ | .index _ _ | .invoke _ _ | .list _ => 9

theorem UnaryOp.level_le (op : UnaryOp) : op.level ≤ 8 := by
  cases op <;> decide

theorem BinaryOp.le_level (op : BinaryOp) : 2 ≤ op.level := by
  cases op <;> decide

theorem BinaryOp.level_le (op : BinaryOp) : op.level ≤ 7 := by
  cases op <;> decide

theorem Term.level_le (t : Term) : t.level ≤ 9 := by
  cases t with
  | assign w value => exact Nat.zero_le 9
  | unary op operand => exact Nat.le_succ_of_le op.level_le
  | binary op left right => exact Nat.le_trans op.level_le (by decide)
  | _ => exact Nat.le_refl 9

/-- Whether a term is a spread. -/
def Term.isSpread : Term → Bool
  | .unary .spread _ => true
  | _ => false

/-! ## How terms are written -/

/-- The token of a prefix operator. -/
def UnaryOp.lexeme : UnaryOp → Lexeme
  | .spread => .symbol .star
  | .negative => .symbol .minus
  | .not => .symbol .bang
  | .size => .symbol .pound

/-- The token of an infix operator. -/
def BinaryOp.lexeme : BinaryOp → Lexeme
  | .or => .keyword .or
  | .and => .keyword .and
  | .equal => .symbol .doubleEqual
  | .notEqual => .symbol .notEqual
  | .less => .symbol .less
  | .lessEqual => .symbol .lessEqual
  | .greater => .symbol .greater
  | .greaterEqual => .symbol .greaterEqual
  | .add => .symbol .plus
  | .subtract => .symbol .minus
  | .multiply => .symbol .star
  | .divide => .symbol .slash
  | .modulus => .symbol .percent

namespace Lexeme

/-- Lexemes in parentheses, if they need them. -/
def enclosed (needed : Bool) (ls : List Lexeme) : List Lexeme :=
  if needed then symbol .leftParen :: ls ++ [symbol .rightParen] else ls

/-- Items with commas between them. -/
def commas : List (List Lexeme) → List Lexeme
  | [] => []
  | [item] => item
  | item :: rest => item ++ symbol .comma :: commas rest

end Lexeme

/-- The lowest level that the operand of a prefix operator may have without parentheses; `spread` is
that of the operand of a spread. -/
def UnaryOp.operandLevel (spread : Nat) : UnaryOp → Nat
  | .spread => spread
  | .negative | .not | .size => 8

open Lexeme in
mutual

/-- A term as lexemes. The parts need parentheses below the level of their place: the left operand
of an infix operator below its level and the right one on it too, the target of a postfix below that of
postfixes. An argument that is not marked needs them if it is a spread, an argument of a call also if it
is an assignment. -/
def Term.print (spread : Nat) : Term → List Lexeme
  | .name w => [.name w]
  | .constant c => [.constant c]
  | .string s => [.string s]
  | .unary op operand =>
    op.lexeme :: enclosed (operand.level < op.operandLevel spread) (operand.print spread)
  | .binary op left right =>
    enclosed (left.level < op.level) (left.print spread) ++
      op.lexeme :: enclosed (right.level < op.level + 1) (right.print spread)
  | .assign target value => .name target :: symbol .equal :: value.print spread
  | .member target w =>
    enclosed (target.level < 9) (target.print spread) ++ [symbol .dot, .name w]
  | .index target args =>
    enclosed (target.level < 9) (target.print spread) ++
      symbol .leftBracket :: commas (Term.printIndexArgs spread args) ++ [symbol .rightBracket]
  | .invoke target args =>
    enclosed (target.level < 9) (target.print spread) ++
      symbol .leftParen :: commas (Term.printCallArgs spread args) ++ [symbol .rightParen]
  | .list elements =>
    symbol .leftBracket :: commas (Term.printElements spread elements) ++ [symbol .rightBracket]

/-- The arguments of an index as lexemes. -/
def Term.printIndexArgs (spread : Nat) : List (IndexArg Term) → List (List Lexeme)
  | [] => []
  | ⟨marked, value⟩ :: rest =>
    ((if marked then [symbol .star] else []) ++
      enclosed (!marked && value.isSpread) (value.print spread)) :: Term.printIndexArgs spread rest

/-- The arguments of a call as lexemes. -/
def Term.printCallArgs (spread : Nat) : List (CallArg Term) → List (List Lexeme)
  | [] => []
  | ⟨marked, w?, value⟩ :: rest =>
    ((if marked then [symbol .star] else []) ++
      (w?.elim [] fun w => [.name w, symbol .equal]) ++
      enclosed (value.level < 1 || !marked && value.isSpread) (value.print spread)) ::
        Term.printCallArgs spread rest

/-- The elements of a list as lexemes. -/
def Term.printElements (spread : Nat) : List Term → List (List Lexeme)
  | [] => []
  | e :: rest => e.print spread :: Term.printElements spread rest

end

/-- A term as a text, with a space between tokens. -/
def Term.text (spread : Nat) (t : Term) : String := Lexeme.spaced (t.print spread)

namespace Term

/-! ## Induction -/

/-- Induction on terms: a property that passes from the parts of a term to the term holds of all. -/
@[induction_eliminator]
theorem induct {motive : Term → Prop} (name : ∀ w, motive (.name w))
    (constant : ∀ c, motive (.constant c)) (string : ∀ s, motive (.string s))
    (unary : ∀ op operand, motive operand → motive (.unary op operand))
    (binary : ∀ op left right, motive left → motive right → motive (.binary op left right))
    (assign : ∀ w value, motive value → motive (.assign w value))
    (member : ∀ target w, motive target → motive (.member target w))
    (index : ∀ target args, motive target → (∀ a ∈ args, motive a.value) →
      motive (.index target args))
    (invoke : ∀ target args, motive target → (∀ a ∈ args, motive a.value) →
      motive (.invoke target args))
    (list : ∀ elements, (∀ e ∈ elements, motive e) → motive (.list elements)) :
    ∀ t, motive t :=
  @Term.rec motive (fun args => ∀ a ∈ args, motive a.value) (fun args => ∀ a ∈ args, motive a.value)
    (fun elements => ∀ e ∈ elements, motive e) (fun a => motive a.value) (fun a => motive a.value)
    name constant string unary binary assign member index invoke list
    (fun _ h => nomatch h) (fun _ _ ha has => List.forall_mem_cons.mpr ⟨ha, has⟩)
    (fun _ h => nomatch h) (fun _ _ ha has => List.forall_mem_cons.mpr ⟨ha, has⟩)
    (fun _ h => nomatch h) (fun _ _ he hes => List.forall_mem_cons.mpr ⟨he, hes⟩)
    (fun _ _ h => h) (fun _ _ _ h => h)

/-! ## Parts -/

/-- A part of a term in a place of some level. -/
def part (spread level : Nat) (t : Term) : List Lexeme :=
  Lexeme.enclosed (t.level < level) (t.print spread)

theorem part_of_lt {spread level : Nat} {t : Term} (h : t.level < level) :
    t.part spread level = Lexeme.enclosed true (t.print spread) := by
  rw [part, decide_eq_true h]

theorem part_of_ge {spread level : Nat} {t : Term} (h : level ≤ t.level) :
    t.part spread level = t.print spread := by
  rw [part, decide_eq_false (Nat.not_lt_of_le h)]
  rfl

theorem length_part_of_lt {spread level : Nat} {t : Term} (h : t.level < level) :
    (t.part spread level).length = (t.print spread).length + 2 := by
  rw [part_of_lt h]
  simp [Lexeme.enclosed]

/-- An argument of an index as lexemes. -/
def printIndexArg (spread : Nat) (a : IndexArg Term) : List Lexeme :=
  (if a.marked then [.symbol .star] else []) ++
    Lexeme.enclosed (!a.marked && a.value.isSpread) (a.value.print spread)

/-- An argument of a call as lexemes. -/
def printCallArg (spread : Nat) (a : CallArg Term) : List Lexeme :=
  (if a.marked then [.symbol .star] else []) ++
    (a.name.elim [] fun w => [.name w, .symbol .equal]) ++
    part spread (if a.marked then 1 else 2) a.value

theorem level_eq_one_iff (t : Term) : t.level = 1 ↔ t.isSpread = true := by
  cases t with
  | unary op operand => cases op <;> simp [level, UnaryOp.level, isSpread]
  | binary op left right => cases op <;> simp [level, BinaryOp.level, isSpread]
  | _ => simp [level, isSpread]

theorem printIndexArgs_eq_map (spread : Nat) (args : List (IndexArg Term)) :
    printIndexArgs spread args = args.map (printIndexArg spread) := by
  induction args with
  | nil => rfl
  | cons a args ih => rw [printIndexArgs, ih, List.map_cons, printIndexArg]

/-- In a call, a marked argument stands in a place for a spread and another in one for an operand of
infix operators. -/
theorem printCallArgs_eq_map (spread : Nat) (args : List (CallArg Term)) :
    printCallArgs spread args = args.map (printCallArg spread) := by
  induction args with
  | nil => rfl
  | cons a args ih =>
      obtain ⟨marked, w?, value⟩ := a
      have hneeded : (decide (value.level < 1) || !marked && value.isSpread) =
          decide (value.level < if marked then 1 else 2) := by
        cases marked with
        | true => simp
        | false =>
            rw [Bool.eq_iff_iff]
            simp only [Bool.not_false, Bool.true_and, Bool.or_eq_true, decide_eq_true_eq,
              Bool.false_eq_true, if_false, ← value.level_eq_one_iff]
            omega
      rw [printCallArgs, ih, List.map_cons, printCallArg, hneeded, part]

theorem printElements_eq_map (spread : Nat) (elements : List Term) :
    printElements spread elements = elements.map (print spread) := by
  induction elements with
  | nil => rfl
  | cons e elements ih => rw [printElements, ih, List.map_cons]

/-! ## How terms start -/

end Term

/-- The highest level on which a term may start with a lexeme; none starts with one of level zero. -/
def Lexeme.startLevel : Lexeme → Nat
  | .symbol .star => 1
  | .symbol .minus | .symbol .bang | .symbol .pound => 8
  | .symbol .leftParen | .symbol .leftBracket | .name _ | .constant _ | .string _ => 9
  | _ => 0

theorem UnaryOp.startLevel_lexeme (op : UnaryOp) :
    op.level ≤ op.lexeme.startLevel ∧ 0 < op.lexeme.startLevel := by
  cases op <;> decide

namespace Term

/-- The first lexeme of a term, which allows for its level. -/
def StartsAt (level : Nat) (ls : List Lexeme) : Prop :=
  ∃ l rest, ls = l :: rest ∧ level ≤ l.startLevel ∧ 0 < l.startLevel

theorem StartsAt.append {level : Nat} {ls : List Lexeme} (h : StartsAt level ls)
    (more : List Lexeme) : StartsAt level (ls ++ more) := by
  obtain ⟨l, rest, rfl, hstart⟩ := h
  exact ⟨l, rest ++ more, rfl, hstart⟩

theorem StartsAt.mono {low high : Nat} {ls : List Lexeme} (h : StartsAt high ls)
    (hle : low ≤ high) : StartsAt low ls := by
  obtain ⟨l, rest, hls, hlevel, hpos⟩ := h
  exact ⟨l, rest, hls, Nat.le_trans hle hlevel, hpos⟩

/-- A part in parentheses starts with one, another like the term that it is. -/
theorem startsAt_part {spread level : Nat} {t : Term} (h : StartsAt t.level (t.print spread))
    (hlevel : level ≤ 9) : StartsAt level (t.part spread level) := by
  unfold part Lexeme.enclosed
  split
  · exact ⟨_, _, rfl, hlevel, by decide⟩
  next hlt =>
    rw [decide_eq_true_eq] at hlt
    exact h.mono (Nat.le_of_not_lt hlt)

theorem startsAt_print (spread : Nat) (t : Term) : StartsAt t.level (t.print spread) := by
  induction t with
  | name w => exact ⟨_, _, rfl, Nat.le_refl 9, Nat.zero_lt_succ 8⟩
  | constant c => exact ⟨_, _, rfl, Nat.le_refl 9, Nat.zero_lt_succ 8⟩
  | string s => exact ⟨_, _, rfl, Nat.le_refl 9, Nat.zero_lt_succ 8⟩
  | unary op operand _ =>
      rw [print]
      exact ⟨op.lexeme, _, rfl, op.startLevel_lexeme⟩
  | binary op left right ihleft _ =>
      rw [print]
      exact (startsAt_part ihleft (Nat.le_trans op.level_le (by decide))).append _
  | assign w value _ =>
      rw [print]
      exact ⟨_, _, rfl, Nat.zero_le 9, Nat.zero_lt_succ 8⟩
  | member target w ih =>
      rw [print]
      exact (startsAt_part ih (Nat.le_refl 9)).append _
  | index target args ih _ =>
      rw [print, List.append_assoc]
      exact (startsAt_part ih (Nat.le_refl 9)).append _
  | invoke target args ih _ =>
      rw [print, List.append_assoc]
      exact (startsAt_part ih (Nat.le_refl 9)).append _
  | list elements _ =>
      rw [print]
      exact ⟨_, _, rfl, Nat.le_refl 9, Nat.zero_lt_succ 8⟩

/-- Only a spread starts like one. -/
theorem startsAt_of_not_isSpread (spread : Nat) {t : Term} (h : t.isSpread = false) :
    StartsAt 2 (t.print spread) := by
  cases t with
  | assign w value =>
      rw [print]
      exact ⟨_, _, rfl, show 2 ≤ 9 by decide, Nat.zero_lt_succ 8⟩
  | unary op operand =>
      refine (startsAt_print spread _).mono ?_
      cases op with
      | spread => cases h
      | _ => exact show 2 ≤ 8 by decide
  | binary op left right => exact (startsAt_print spread _).mono op.le_level
  | _ => exact (startsAt_print spread _).mono (show 2 ≤ 9 by decide)

/-- What may be in parentheses starts like a term if that in them does. -/
theorem startsAt_enclosed {needed : Bool} {ls : List Lexeme} (h : StartsAt 0 ls) :
    StartsAt 0 (Lexeme.enclosed needed ls) := by
  cases needed with
  | true => exact ⟨_, _, rfl, Nat.zero_le _, Nat.zero_lt_succ 8⟩
  | false => exact h

theorem startsAt_printIndexArg (spread : Nat) (a : IndexArg Term) :
    StartsAt 0 (printIndexArg spread a) := by
  obtain ⟨marked, t⟩ := a
  cases marked with
  | true => exact ⟨_, _, rfl, Nat.zero_le _, Nat.zero_lt_one⟩
  | false => exact startsAt_enclosed ((startsAt_print spread t).mono (Nat.zero_le _))

theorem startsAt_printCallArg (spread : Nat) (a : CallArg Term) :
    StartsAt 0 (printCallArg spread a) := by
  obtain ⟨marked, w?, t⟩ := a
  cases marked with
  | true => exact ⟨_, _, rfl, Nat.zero_le _, Nat.zero_lt_one⟩
  | false =>
      cases w? with
      | none => exact startsAt_enclosed ((startsAt_print spread t).mono (Nat.zero_le _))
      | some w => exact ⟨_, _, rfl, Nat.zero_le _, Nat.zero_lt_succ 8⟩

end Term
end IslandScript
