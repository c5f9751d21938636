import IslandScript.Command.Session
import IslandScript.Proofs.Diagnostic.Underline
import IslandScript.Proofs.Place.History

/-!
# Reports of sessions

A report of a session is drawn over the line that was entered, but what is declared in one line runs
in later ones. So a report about a place is about a construct of its line, or it is a runtime error
at code that was kept from a line before or from the prelude (`failed_line_reported`): that is the
only way in which a box shows something else than what has failed.
-/

namespace IslandScript

open Eval

/-! ## Kept code -/

/-- A function or a class that is kept has code at a place. -/
def Interpreter.Keeps (m : Interpreter) (span : Span) : Prop :=
  (∃ f ∈ m.functions, span ∈ Function.spans f.decl) ∨ ∃ c ∈ m.classes, span ∈ Class.spans c.decl

namespace Interpreter

theorem codeIn_keeps (m : Interpreter) : m.CodeIn m.Keeps :=
  ⟨fun f hf _ hspan => .inl ⟨f, hf, hspan⟩, fun c hc _ hspan => .inr ⟨c, hc, hspan⟩⟩

theorem CodeIn.of_keeps {m : Interpreter} {C : Span → Prop} {span : Span} (hm : m.CodeIn C)
    (h : m.Keeps span) : C span := by
  rcases h with ⟨f, hf, hspan⟩ | ⟨c, hc, hspan⟩
  · exact hm.functions f hf span hspan
  · exact hm.classes c hc span hspan

end Interpreter

/-! ## Places of reports -/

/-- A span that is extended to another starts where one of them does. -/
theorem Span.column_rangeTo (first last : Span) :
    (first.rangeTo last).column = first.column ∨ (first.rangeTo last).column = last.column := by
  unfold rangeTo
  split
  · exact .inr rfl
  · split <;> exact .inl rfl

/-- The place of a report is the span it was made from. -/
theorem Diagnostic.eq_of_place {span place : Span} (h : Diagnostic.place span = some place) :
    span = place := by
  unfold Diagnostic.place at h
  split at h
  · cases h
  · exact Option.some.inj h

/-- If an error is reported at a place, it is the place of the error, and not an error of links. -/
theorem EvalError.placed_of_toDiagnostic {e : EvalError} {span : Span}
    (h : e.toDiagnostic.span = some span) :
    e.kind.isLink = false ∧ e.span = span ∧ e.toDiagnostic.stage = .runtime := by
  unfold EvalError.toDiagnostic at h ⊢
  split at h
  · cases h
  next hlink =>
    rw [if_neg hlink]
    exact ⟨Bool.not_eq_true _ ▸ hlink, Diagnostic.eq_of_place h, rfl⟩

/-- Only errors of links are not of the runtime. -/
theorem EvalError.isLink_of_stage {e : EvalError} (h : e.toDiagnostic.stage = .runtime) :
    e.kind.isLink = false := by
  unfold EvalError.toDiagnostic at h
  split at h
  · cases h
  next hlink => exact Bool.not_eq_true _ ▸ hlink

/-- An error that stands somewhere is reported at a place. -/
theorem EvalError.isSome_of_placed {e : EvalError} (hlink : e.kind.isLink = false)
    (h : e.span.isNone = false) : e.toDiagnostic.span.isSome := by
  simp [EvalError.toDiagnostic, hlink, Diagnostic.error, Diagnostic.place, h]

theorem ParseError.stage_ne_runtime (e : ParseError) : e.toDiagnostic.stage ≠ .runtime := by
  show e.stage ≠ .runtime
  unfold ParseError.stage
  split <;> decide

namespace Command

/-! ## Sessions -/

/-- The source of a line of a session. -/
def lineSource (line : String) : Source := Source.ofSession (Text.trimLineEnd line)

section

variable [Text.CharNames]

/-- The states of an interpreter before the lines of a session, with the sources that were run on it,
the last one first. -/
inductive Session : List Source → Interpreter → Prop
  | start (linker : Linker) (console : Console) (withCore : Bool) {greeting : Event}
      {m : Interpreter} (h : beginSession withCore (.new linker console) = .done (.ok greeting) m) :
      Session (if withCore then (linker.prelude? Core.name).toList else []) m
  | line {sources : List Source} {m m' : Interpreter} {line : String} {events : List Event}
      (h : Session sources m) (hline : runLine line m = .done events m') :
      Session (lineSource line :: sources) m'

variable {sources : List Source} {line : String} {m m' : Interpreter}

theorem ran_start {linker : Linker} {console : Console} {withCore : Bool} {r : Except Diagnostic Unit}
    (h : Interpreter.start withCore [] (.new linker console) = .done r m) :
    Ran (if withCore then (linker.prelude? Core.name).toList else []) m := by
  cases withCore with
  | false =>
      cases h
      exact .new linker console
  | true =>
      obtain ⟨core, m₁, hcore, hrest⟩ := bind_eq_done.mp h
      have hm : m = m₁ := by cases core <;> cases hrest <;> rfl
      subst hm
      have hran : Ran ((linker.prelude? Core.name).toList ++ []) m :=
        .importLink (.new linker console) (by rw [hcore]; rfl)
      rwa [List.append_nil] at hran

/-- What is done behind the run of a line. -/
def afterRun (source : Source) (result : Except Diagnostic RunResult) : Eval (List Event) := do
  let printed ← take takePrinted
  let warnings ← take (·.takeWarnings)
  let before := [.printed printed, .reported (reported warnings source)]
  match result with
  | .ok r => return before ++ [.shown ((← read (·.display r.value)) ++ "\n")]
  | .error d => return before ++ [.reported (d.emitted (some source))]

theorem runLine_eq (line : String) :
    runLine line = Interpreter.runSource (lineSource line) >>= afterRun (lineSource line) := by
  unfold runLine lineSource
  apply bind_congr
  intro r
  cases r <;> rfl

/-- Behind its run, a line only takes what was printed and the warnings. -/
theorem ran_runLine {events : List Event} (hm : Ran sources m)
    (h : runLine line m = .done events m') : Ran (lineSource line :: sources) m' := by
  rw [runLine_eq] at h
  obtain ⟨r, m₁, hrun, hrest⟩ := bind_eq_done.mp h
  have hran : Ran (lineSource line :: sources) m₁ := by
    apply hm.source
    rw [hrun]
    rfl
  cases r <;> cases hrest <;> exact .apart hran rfl rfl

theorem Session.ran (h : Session sources m) : Ran sources m := by
  induction h with
  | start linker console withCore h =>
      obtain ⟨r, m₁, hstart, hrest⟩ := bind_eq_done.mp h
      cases r with
      | ok =>
          cases hrest
          exact ran_start hstart
      | error => cases hrest
  | line _ hline ih => exact ran_runLine ih hline

/-- Reading lines goes from states of a session to states of it. -/
theorem Session.lines {events : List Event} {input : List (Option String)}
    {result : List Event × Bool} (h : Session sources m)
    (hlines : runLines events input m = .done result m') :
    ∃ entered, Session (entered ++ sources) m' := by
  induction input generalizing events sources m with
  | nil =>
      cases hlines
      exact ⟨[], h⟩
  | cons entry rest ih =>
      unfold runLines at hlines
      cases hentry : Entry.of (some entry) with
      | ended =>
          simp only [hentry] at hlines
          cases hlines
          exact ⟨[], h⟩
      | malformed =>
          simp only [hentry] at hlines
          cases hlines
          exact ⟨[], h⟩
      | line text =>
          simp only [hentry] at hlines
          obtain ⟨shown, m₁, hline, hrest⟩ := bind_eq_done.mp hlines
          obtain ⟨entered, hsession⟩ := ih (h.line hline) hrest
          refine ⟨entered ++ [lineSource text], ?_⟩
          rwa [List.append_assoc]

/-- The state behind a line whose run has left a state: nothing printed is kept, and no warning. -/
def emptied (m : Interpreter) : Interpreter := (takePrinted m).2.takeWarnings.2

/-- How a session answers what has become of a line: it shows the value or reports the error. -/
def answer (m : Interpreter) (source : Source) : Except Diagnostic RunResult → Event
  | .ok r => .shown (m.display r.value ++ "\n")
  | .error d => .reported (d.emitted (some source))

/-- A line that was run is answered last, after what it printed and its warnings. -/
theorem runLine_of_done {r : Except Diagnostic RunResult}
    (h : Interpreter.runSource (lineSource line) m = .done r m') :
    ∃ events, runLine line m =
      .done (events ++ [answer (emptied m') (lineSource line) r]) (emptied m') := by
  rw [runLine_eq, bind_done h]
  cases r with
  | ok r => exact ⟨_, rfl⟩
  | error d => exact ⟨_, rfl⟩

/-- Why a line has failed: it is no program, or it failed at a token of its own, or at one where code
stands that was kept from before. -/
theorem failed_line_cause {d : Diagnostic} (h : Session sources m)
    (hrun : Interpreter.runSource (lineSource line) m = .done (.error d) m') :
    (∃ e : ParseError, ConstructAt (lineSource line).text e.span ∧ d = e.toDiagnostic) ∨
      ∃ e : EvalError, d = e.toDiagnostic ∧ (e.kind.isLink = false →
        TokenAt (lineSource line).text e.span ∨ m.Keeps e.span ∧ TokenOf sources e.span) := by
  -- Code of the line stands at its tokens, all other code was kept from before.
  let P : Places := ⟨fun span => TokenAt (lineSource line).text span ∨ m.Keeps span, _, fun _ => id⟩
  have hm : m.CodeIn P.code := m.codeIn_keeps.mono fun _ => .inr
  have hfails := (gives_runSource (P := P) (lineSource line) fun _ => .inl).of_done hm hrun
  rcases hfails d rfl with hparse | ⟨e, hfault, rfl⟩
  · exact .inl hparse
  · refine .inr ⟨e, rfl, ?_⟩
    intro hlink
    rcases hfault hlink with htoken | hkeeps
    · exact .inl htoken
    · exact .inr ⟨hkeeps, h.ran.codeIn.of_keeps hkeeps⟩

/-- **Where reports of a session stand.** A line that fails is reported over its own source. If the
report is about a place, as every report of a runtime error is, then about that of a construct of the
line, or it is a runtime error at code kept from before the line, at a token of a source that was run
before. -/
theorem failed_line_reported {d : Diagnostic} (h : Session sources m)
    (hrun : Interpreter.runSource (lineSource line) m = .done (.error d) m') :
    (∃ events m'', runLine line m =
        .done (events ++ [.reported (d.emitted (some (lineSource line)))]) m'') ∧
      (d.stage = .runtime → d.span.isSome) ∧
      ∀ span, d.span = some span → ConstructAt (lineSource line).text span ∨
        d.stage = .runtime ∧ m.Keeps span ∧ TokenOf sources span := by
  obtain ⟨events, hevents⟩ := runLine_of_done hrun
  refine ⟨⟨events, emptied m', hevents⟩, ?_⟩
  rcases failed_line_cause h hrun with ⟨e, hconstruct, rfl⟩ | ⟨e, rfl, hplace⟩
  · refine ⟨fun hstage => absurd hstage e.stage_ne_runtime, ?_⟩
    intro span hspan
    rw [Diagnostic.eq_of_place hspan] at hconstruct
    exact .inl hconstruct
  · constructor
    · intro hstage
      have hlink := EvalError.isLink_of_stage hstage
      apply EvalError.isSome_of_placed hlink
      rcases hplace hlink with htoken | ⟨-, source, -, htoken⟩
      · exact htoken.placed
      · exact htoken.placed
    · intro span hspan
      obtain ⟨hlink, rfl, hstage⟩ := EvalError.placed_of_toDiagnostic hspan
      rcases hplace hlink with htoken | hkept
      · exact .inl (.token htoken)
      · exact .inr ⟨hstage, hkept⟩

/-! ## A session that misplaces a report -/

/-- The report that `x` is missing at the eleventh character. -/
def missingReport : Diagnostic :=
  ⟨.error, .runtime, "Name 'x' has not been defined", some ⟨1, 11, 1⟩⟩

/-- `fun f() = x`, and then `f()`, in a session without the core link. -/
theorem session_misplaces : ∃ m m', Session [lineSource "fun f() = x"] m ∧
    Interpreter.runSource (lineSource "f()") m = .done (.error missingReport) m' := by
  -- The lines are parsed before anything is run: no closed term holds both a parser and a run.
  have hfirst : (Interpreter.new .empty default).interner.parse (lineSource "fun f() = x").text =
      .ok missingBody := by cbv
  have hsecond : bothNames.parse (lineSource "f()").text = .ok callOnly := by cbv
  obtain ⟨r, m, m', hdeclare, hnames, hcall⟩ : ∃ r m m',
      Interpreter.runParsed missingBody (.new .empty default) = .done r m ∧
      (emptied m).interner = bothNames ∧
      Interpreter.runParsed callOnly (emptied m) = .done (.error missingReport) m' :=
    ⟨_, _, _, rfl, rfl, rfl⟩
  rw [← Interpreter.runSource_of_parse hfirst] at hdeclare
  rw [← hnames] at hsecond
  rw [← Interpreter.runSource_of_parse hsecond] at hcall
  have hstart : Session [] (.new .empty default) := .start .empty default false rfl
  obtain ⟨events, hline⟩ := runLine_of_done hdeclare
  exact ⟨emptied m, m', hstart.line hline, hcall⟩

theorem scan_callOnly : Lexer.scan "f()" =
    ⟨[⟨⟨1, 1, 1⟩, .name "f"⟩, ⟨⟨1, 2, 1⟩, .symbol .leftParen⟩, ⟨⟨1, 3, 1⟩, .symbol .rightParen⟩],
      .ok ⟨1, 4, 1⟩⟩ := by cbv

/-- No construct of `f()` starts behind its end. -/
theorem column_le_of_constructAt {span : Span} (h : ConstructAt "f()" span) : span.column ≤ 4 := by
  have htoken {span : Span} (h : TokenAt "f()" span) : span.column ≤ 4 := by
    unfold TokenAt at h
    rw [scan_callOnly] at h
    rcases h with ⟨t, ht, rfl⟩ | h
    · revert t
      decide
    · cases h
      decide
  cases h with
  | token h => exact htoken h
  | @param first last hfirst hlast =>
      rcases first.column_rangeTo last with hcolumn | hcolumn <;> rw [hcolumn]
      · exact htoken hfirst
      · exact htoken hlast
  | stop h =>
      rw [scan_callOnly] at h
      cases h

end

attribute [local instance] Command.charNames

/-- The report stands at a token of the first line. -/
theorem failed_line_reported_earlier : ∃ m m', Session [lineSource "fun f() = x"] m ∧
    Interpreter.runSource (lineSource "f()") m = .done (.error missingReport) m' ∧
    (∃ events m'', runLine "f()" m =
        .done (events ++ [.reported (missingReport.emitted (some (lineSource "f()")))]) m'') ∧
      (missingReport.stage = .runtime → missingReport.span.isSome) ∧
      ∀ span, missingReport.span = some span → ConstructAt (lineSource "f()").text span ∨
        missingReport.stage = .runtime ∧ m.Keeps span ∧
          TokenOf [lineSource "fun f() = x"] span := by
  obtain ⟨m, m', hsession, hrun⟩ := session_misplaces
  exact ⟨m, m', hsession, hrun, failed_line_reported hsession hrun⟩

/-- The report of the body of `f` is drawn over its call, under a place where no construct is. -/
theorem report_drawn_over_call : ∃ m m', Session [lineSource "fun f() = x"] m ∧
    Interpreter.runSource (lineSource "f()") m = .done (.error missingReport) m' ∧
    missingReport.span = some ⟨1, 11, 1⟩ ∧
    missingReport.render (some (lineSource "f()")) =
      Text.box (missingReport.header ++ "\n\n" ++ Diagnostic.quotation ⟨1, 11, 1⟩ "f()") ∧
    ¬ConstructAt (lineSource "f()").text ⟨1, 11, 1⟩ := by
  have htext : (lineSource "f()").text = "f()" := by cbv
  have hline : (lineSource "f()").line? 1 = some "f()" := by cbv
  obtain ⟨m, m', hsession, hrun⟩ := session_misplaces
  refine ⟨m, m', hsession, hrun, rfl, ?_, ?_⟩
  · have hspan : missingReport.span = some ⟨1, 11, 1⟩ := rfl
    have hrender : missingReport.render (some (lineSource "f()")) =
        missingReport.renderError (some (lineSource "f()")) := rfl
    rw [hrender, Diagnostic.renderError_of_line hspan hline]
  · intro h
    rw [htext] at h
    exact absurd (column_le_of_constructAt h) (by decide)

end Command
end IslandScript
