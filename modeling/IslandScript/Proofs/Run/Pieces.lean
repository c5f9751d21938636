import IslandScript.Interpreter.Run
import IslandScript.Proofs.Logic.Outcome

/-!
# Running a program in pieces

A run goes through its statements one by one, and all that it hands from one to the next besides the
state of the interpreter is the value of the last one, which the next one replaces. So a program that
is cut in two runs like its two parts one after the other on one interpreter (`run_append`), unless
the first part stops the run: by an error, or by a return or an exit that leaves a statement of it.

Which of its statements stops a run, and by which signal, is said by `Cut`. From the result alone a
return cannot be told from the value of an expression at the end.
-/

namespace IslandScript

open Eval

namespace Interpreter

variable {ev : Evaluator} {p q : Program Name} {last : Value} {m m' : Interpreter} {span : Span}
  {signal : Signal}

/-! ## Where a run is cut -/

/-- Running statements from a state, the one at a place raises a signal, and leaves a state behind.
Those before it are done. -/
inductive Cut (ev : Evaluator) : Program Name → Interpreter → Span → Signal → Interpreter → Prop
  | here {s : Stmt Name} {rest : Program Name} {m m' : Interpreter} {signal : Signal}
      (raised : statementValue ev s m = .raised signal m') : Cut ev (s :: rest) m s.span signal m'
  | later {s : Stmt Name} {rest : Program Name} {m m₁ m' : Interpreter} {v : Value} {span : Span}
      {signal : Signal} (done : statementValue ev s m = .done v m₁)
      (cut : Cut ev rest m₁ span signal m') : Cut ev (s :: rest) m span signal m'

/-- The run of a program stops before what may follow it: it errs, or a return or an exit leaves one
of its statements. -/
inductive Stops (ev : Evaluator) (p : Program Name) (m : Interpreter) : Prop
  | errs {e : EvalError} {m' : Interpreter}
      (result : runStatements ev .unit p m = .done (.error e) m')
  | returns {v : Value} {span : Span} {m' : Interpreter} (cut : Cut ev p m span (.returnValue v) m')
  | exits {v : Value} {span : Span} {m' : Interpreter} (cut : Cut ev p m span (.exitValue v) m')

/-! ## One statement -/

theorem runStatements_of_done {s : Stmt Name} {v : Value}
    (h : statementValue ev s m = .done v m') :
    runStatements ev last (s :: p) m = runStatements ev v p m' := by
  have hattempt : attempt (statementValue ev s) m = .done (.ok v) m' := by
    simp [attempt, h]
  rw [runStatements, bind_done hattempt]

theorem runStatements_of_raised {s : Stmt Name} (h : statementValue ev s m = .raised signal m') :
    runStatements ev last (s :: p) m = .done (m'.ending s.span signal) m' := by
  have hattempt : attempt (statementValue ev s) m = .done (.error signal) m' := by
    simp [attempt, h]
  rw [runStatements, bind_done hattempt]
  rfl

theorem runStatements_of_unfinished {s : Stmt Name}
    (h : statementValue ev s m = .unfinished) :
    runStatements ev last (s :: p) m = .unfinished := by
  have hattempt : attempt (statementValue ev s) m = .unfinished := by
    simp [attempt, h]
  rw [runStatements, bind_unfinished hattempt]

/-- The value before a statement is nothing to it. -/
theorem runStatements_last (hp : p ≠ []) (v w : Value) :
    runStatements ev v p m = runStatements ev w p m := by
  cases p with
  | nil => exact absurd rfl hp
  | cons s rest => rfl

/-! ## Runs that are cut -/

/-- What follows the statement that raises the signal is not run. -/
theorem Cut.runBoth (h : Cut ev p m span signal m') :
    runStatements ev last (p ++ q) m = .done (m'.ending span signal) m' := by
  induction h generalizing last with
  | here raised => exact runStatements_of_raised raised
  | later done _ ih => exact (runStatements_of_done done).trans ih

theorem Cut.run (h : Cut ev p m span signal m') :
    runStatements ev last p m = .done (m'.ending span signal) m' := by
  have hboth : runStatements ev last (p ++ []) m = .done (m'.ending span signal) m' := h.runBoth
  rwa [List.append_nil] at hboth

/-- A run is cut, or comes to its end, or does not finish. From its end it goes on with what
follows. -/
theorem run_cases (ev : Evaluator) (last : Value) (p q : Program Name) (m : Interpreter) :
    (∃ span signal m', Cut ev p m span signal m') ∨
      (∃ v m₁, runStatements ev last p m = .done (.ok ⟨v, false⟩) m₁ ∧
        runStatements ev last (p ++ q) m = runStatements ev v q m₁) ∨
      (runStatements ev last p m = .unfinished ∧
        runStatements ev last (p ++ q) m = .unfinished) := by
  induction p generalizing last m with
  | nil => exact .inr (.inl ⟨last, m, rfl, rfl⟩)
  | cons s rest ih =>
      cases hs : statementValue ev s m with
      | done v m₁ =>
          simp only [List.cons_append, runStatements_of_done hs]
          refine (ih v m₁).imp_left ?_
          rintro ⟨span, signal, m', cut⟩
          exact ⟨span, signal, m', .later hs cut⟩
      | raised signal m' => exact .inl ⟨s.span, signal, m', .here hs⟩
      | unfinished =>
          exact .inr (.inr ⟨runStatements_of_unfinished hs, runStatements_of_unfinished hs⟩)

/-- A run stops exactly if it is cut: of the signals that leave a statement, all but returns and
exits are errors. -/
theorem stops_iff : Stops ev p m ↔ ∃ span signal m', Cut ev p m span signal m' := by
  constructor
  · rintro (⟨h⟩ | ⟨cut⟩ | ⟨cut⟩)
    · rcases run_cases ev .unit p [] m with hcut | ⟨v, m₁, hrun, -⟩ | ⟨hrun, -⟩
      · exact hcut
      · cases h.symm.trans hrun
      · cases h.symm.trans hrun
    · exact ⟨_, _, _, cut⟩
    · exact ⟨_, _, _, cut⟩
  · rintro ⟨span, signal, m', cut⟩
    cases signal with
    | returnValue v => exact .returns cut
    | exitValue v => exact .exits cut
    | _ => exact .errs cut.run

theorem runStatements_append_of_stops (h : Stops ev p m) :
    runStatements ev last (p ++ q) m = runStatements ev last p m := by
  obtain ⟨span, signal, m', cut⟩ := stops_iff.mp h
  rw [cut.runBoth, cut.run]

theorem runStatements_append_of_not_stops (hq : q ≠ []) (h : ¬Stops ev p m) :
    runStatements ev last (p ++ q) m =
      (runStatements ev last p >>= fun _ => runStatements ev .unit q) m := by
  rcases run_cases ev last p q m with hcut | ⟨v, m₁, hrun, happ⟩ | ⟨hrun, happ⟩
  · exact absurd (stops_iff.mpr hcut) h
  · rw [happ, bind_done hrun, runStatements_last hq]
  · rw [happ, bind_unfinished hrun]

theorem not_stops_of_done {s : Stmt Name} {v : Value} (h : statementValue ev s m = .done v m') :
    ¬Stops ev [s] m := by
  intro hstops
  obtain ⟨span, signal, m₁, cut⟩ := stops_iff.mp hstops
  cases cut with
  | here raised => cases h.symm.trans raised
  | later _ cut => cases cut

theorem not_stops_of_unfinished {s : Stmt Name} (h : statementValue ev s m = .unfinished) :
    ¬Stops ev [s] m := by
  intro hstops
  obtain ⟨span, signal, m₁, cut⟩ := stops_iff.mp hstops
  cases cut with
  | here raised => cases h.symm.trans raised
  | later done _ => cases h.symm.trans done

/-! ## Many pieces -/

/-- Runs programs in turn, whatever comes of each, and gives what came of the last. -/
def runInTurn (ev : Evaluator) : Program Name → List (Program Name) →
    Eval (Except EvalError RunResult)
  | p, [] => runStatements ev .unit p
  | p, q :: rest => do
    let _ ← runStatements ev .unit p
    runInTurn ev q rest

/-- Of programs that are run in turn, none stops before the last. -/
def GoOn (ev : Evaluator) : Program Name → List (Program Name) → Interpreter → Prop
  | _, [], _ => True
  | p, q :: rest, m =>
    ¬Stops ev p m ∧ ∀ r m', runStatements ev .unit p m = .done r m' → GoOn ev q rest m'

/-- Programs that are run in turn come to what they come to as one. -/
theorem runInTurn_eq {pieces : List (Program Name)} (hpieces : ∀ q ∈ pieces, q ≠ [])
    (h : GoOn ev p pieces m) :
    runInTurn ev p pieces m = runStatements ev .unit (p ++ pieces.flatten) m := by
  induction pieces generalizing p m with
  | nil => simp [runInTurn]
  | cons q rest ih =>
      obtain ⟨hgo, hrest⟩ := h
      obtain ⟨hq, hpieces⟩ := List.forall_mem_cons.mp hpieces
      have hne : (q :: rest).flatten ≠ [] := by simp [hq]
      rw [runStatements_append_of_not_stops hne hgo, runInTurn, bind_apply, bind_apply]
      cases hp : runStatements ev .unit p m with
      | done r m₁ => exact ih hpieces (hrest r m₁ hp)
      | raised s m₁ => rfl
      | unfinished => rfl

/-- However many statements there are, they are run in turn up to the first that stops. -/
theorem exists_goOn (ev : Evaluator) (s : Stmt Name) (ss : List (Stmt Name)) (m : Interpreter) :
    ∃ lines rest, ss = lines ++ rest ∧ GoOn ev [s] (lines.map ([·])) m ∧
      (rest = [] ∨ Stops ev (s :: lines) m) := by
  induction ss generalizing s m with
  | nil => exact ⟨[], [], rfl, trivial, .inl rfl⟩
  | cons t ss ih =>
      cases hs : statementValue ev s m with
      | done v m₁ =>
          obtain ⟨lines, rest, rfl, hgo, hlast⟩ := ih t m₁
          refine ⟨t :: lines, rest, rfl, ⟨not_stops_of_done hs, ?_⟩, hlast.imp_right ?_⟩
          · intro r m' hrun
            cases (runStatements_of_done hs).symm.trans hrun
            exact hgo
          · rintro hstops
            obtain ⟨span, signal, m', cut⟩ := stops_iff.mp hstops
            exact stops_iff.mpr ⟨span, signal, m', .later hs cut⟩
      | raised signal m' =>
          exact ⟨[], t :: ss, rfl, trivial, .inr (stops_iff.mpr ⟨s.span, signal, m', .here hs⟩)⟩
      | unfinished =>
          refine ⟨t :: ss, [], (List.append_nil _).symm, ⟨not_stops_of_unfinished hs, ?_⟩, .inl rfl⟩
          intro r m' hrun
          cases (runStatements_of_unfinished hs).symm.trans hrun

/-- **Running a program in pieces is running it whole.** If the run of `p` errs, or ends by a return
or an exit that leaves one of its statements, what follows it is not run. Otherwise `p` and then `q`
run like the two one after the other on the same interpreter. Both come to the same result or error
and leave the same state behind, be it names and values or what was printed and warned of; if one
does not finish, the other does not either.

So does a session that runs one statement after the other, each as a program of its own, up to the
first that stops or else to the last. -/
theorem run_append (m : Interpreter) :
    (∀ p q : Program Name, q ≠ [] →
      (Stops programs p m → run (p ++ q) m = run p m) ∧
      (¬Stops programs p m → run (p ++ q) m = (run p >>= fun _ => run q) m)) ∧
    ∀ (s : Stmt Name) (ss : List (Stmt Name)), ∃ lines rest, ss = lines ++ rest ∧
      GoOn programs [s] (lines.map ([·])) m ∧ (rest = [] ∨ Stops programs (s :: lines) m) ∧
        run (s :: ss) m = runInTurn programs [s] (lines.map ([·])) m := by
  refine ⟨fun p q hq => ?_, fun s ss => ?_⟩
  · exact ⟨runStatements_append_of_stops, runStatements_append_of_not_stops hq⟩
  · obtain ⟨lines, rest, rfl, hgo, hlast⟩ := exists_goOn programs s ss m
    refine ⟨lines, rest, rfl, hgo, hlast, ?_⟩
    have hwhole : run (s :: (lines ++ rest)) m = run (s :: lines) m := by
      rcases hlast with rfl | hstops
      · rw [List.append_nil]
      · exact runStatements_append_of_stops (p := s :: lines) hstops
    have hturn : runInTurn programs [s] (lines.map ([·])) m = run (s :: lines) m := by
      rw [runInTurn_eq (by simp) hgo, ← List.flatMap_def, List.flatMap_singleton']
      rfl
    rw [hwhole, hturn]

/-- `true`. -/
def truth : Stmt Name := .expr .none (.value .none (.bool true))

/-- `return`. -/
def leave : Stmt Name := .returnValue .none none

theorem run_append_truth :
    let m := Interpreter.new .empty default
    [truth] ≠ [] ∧
      (Stops programs [truth, leave] m ∧
        run ([truth, leave] ++ [truth]) m = run [truth, leave] m ∧
        run [truth, leave] m = .done (.ok ⟨.unit, false⟩) m) ∧
      ¬Stops programs [truth] m ∧
        run ([truth] ++ [truth]) m = (run [truth] >>= fun _ => run [truth]) m ∧
        run ([truth] ++ [truth]) m = .done (.ok ⟨.bool true, false⟩) m := by
  intro m
  have hne : [truth] ≠ [] := List.cons_ne_nil truth []
  have hstops : Stops programs [truth, leave] m := .returns (.later (v := .bool true) rfl (.here rfl))
  have hgo : ¬Stops programs [truth] m := not_stops_of_done (v := .bool true) rfl
  obtain ⟨hpieces, -⟩ := run_append m
  exact ⟨hne, ⟨hstops, (hpieces _ _ hne).1 hstops, rfl⟩, hgo, (hpieces _ _ hne).2 hgo, rfl⟩

end Interpreter
end IslandScript
