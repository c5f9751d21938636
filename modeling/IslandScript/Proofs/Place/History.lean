import Mathlib
import IslandScript.Command.Characters
import IslandScript.Proofs.Parser.Naming
import IslandScript.Proofs.Parser.Sites.Program
import IslandScript.Proofs.Place.Evaluator

/-!
# Errors are at tokens of what was run

`Ran` holds of the states of an interpreter, with the sources that were run on it so far: preludes of
links, texts, and programs that were parsed apart. All code kept then stands at tokens of these
sources, and so does every error of a program that is run next, one of links apart, unless it stands
at a token of the program's own text (`run_error_placed`).
-/

namespace IslandScript

open Eval

/-- The prelude that is run when a link is imported. -/
def Linker.prelude? (l : Linker) (name : String) : Option Source :=
  match l.importLink name with
  | .ok (source, _) => source
  | .error _ => none

/-! ## Running keeps code at places of code -/

namespace Eval

variable {P : Places} {α : Type} {x : Eval α} {Q : α → Prop} {m m' : Interpreter}

theorem Gives.codeIn (hx : Gives P x Q) (hm : m.CodeIn P.code) (h : (x m).state? = some m') :
    m'.CodeIn P.code := by
  have hsat := hx m hm
  cases hr : x m with
  | done a m₁ =>
      rw [hr] at h hsat
      cases h
      exact hsat.1
  | raised s m₁ =>
      rw [hr] at h hsat
      cases h
      exact hsat.1
  | unfinished =>
      rw [hr] at h
      cases h

theorem Gives.of_done {a : α} (hx : Gives P x Q) (hm : m.CodeIn P.code) (h : x m = .done a m') :
    Q a := by
  have hsat := hx m hm
  rw [h] at hsat
  exact hsat.2

end Eval

theorem Interpreter.CodeIn.mono {m : Interpreter} {C D : Span → Prop} (h : m.CodeIn C)
    (hCD : ∀ s, C s → D s) : m.CodeIn D :=
  ⟨fun f hf => (h.functions f hf).mono hCD, fun c hc => (h.classes c hc).mono hCD⟩

theorem Interpreter.CodeIn.warn {m : Interpreter} {C : Span → Prop} (h : m.CodeIn C)
    (ws : List ParseWarning) : (ws.foldl (fun m w => m.warn w.toDiagnostic) m).CodeIn C := by
  induction ws generalizing m with
  | nil => exact h
  | cons w ws ih => exact ih ⟨h.functions, h.classes⟩

theorem gives_runParsed {P : Places} (parsed : InternedProgram)
    (h : Covers P.code (Stmts.spans parsed.program)) :
    Gives P (Interpreter.runParsed parsed) fun r =>
      ∀ d, r = .error d → ∃ e : EvalError, e.FaultIn P.fault ∧ d = e.toDiagnostic := by
  refine Placed.bind (placed_change fun m hm => ⟨hm.functions, hm.classes⟩) fun _ => ?_
  refine Placed.bind (placed_change fun m hm => hm.warn _) fun _ => ?_
  refine Gives.bind (gives_run parsed.program h) fun r hr => ?_
  split
  · exact gives_pure nofun
  next e =>
    refine gives_pure ?_
    rintro _ ⟨⟩
    exact ⟨e, hr e rfl, rfl⟩

/-! ## What was run -/

section

variable [Text.CharNames]

/-- The states of an interpreter with the sources that were run on it, the last one first. Between
the runs anything but the code may change by other means: the names known, the links, the console,
the warnings. -/
inductive Ran : List Source → Interpreter → Prop
  | new (linker : Linker) (console : Console) : Ran [] (.new linker console)
  | importLink {sources : List Source} {m m' : Interpreter} {name : String} (h : Ran sources m)
      (hm' : (Interpreter.importLink name m).state? = some m') :
      Ran ((m.linker.prelude? name).toList ++ sources) m'
  | source {sources : List Source} {m m' : Interpreter} {source : Source} (h : Ran sources m)
      (hm' : (Interpreter.runSource source m).state? = some m') : Ran (source :: sources) m'
  | program {sources : List Source} {m m' : Interpreter} {source : Source}
      {parsed : InternedProgram} (interner : Interner) (h : Ran sources m)
      (hparse : interner.parse source.text = .ok parsed)
      (hm' : (Interpreter.run parsed.program m).state? = some m') : Ran (source :: sources) m'
  | call {sources : List Source} {m m' : Interpreter} {f : FunctionId} {args : List Value}
      {span : Span} (h : Ran sources m)
      (hm' : (Interpreter.call f args span m).state? = some m') : Ran sources m'
  | apart {sources : List Source} {m m' : Interpreter} (h : Ran sources m)
      (hf : m'.functions = m.functions) (hc : m'.classes = m.classes) : Ran sources m'

/-- Why a text that was run has failed: it is no program, or the program failed at a place where
errors may be. -/
def FailsAt (P : Places) (text : String) (r : Except Diagnostic RunResult) : Prop :=
  ∀ d, r = .error d →
    (∃ e : ParseError, ConstructAt text e.span ∧ d = e.toDiagnostic) ∨
      ∃ e : EvalError, e.FaultIn P.fault ∧ d = e.toDiagnostic

/-- A program over names stands at the tokens of its text as the one over words does. -/
theorem covers_of_interned {interner : Interner} {text : String} {parsed : InternedProgram}
    (h : interner.parse text = .ok parsed) :
    Covers (TokenAt text) (Stmts.spans parsed.program) := by
  have hwords := covers_of_parse (Interner.parse_read h .refl)
  rwa [Parsed.mapNames, Stmts.spans_mapNames] at hwords

theorem gives_runSource {P : Places} (source : Source)
    (h : ∀ span, TokenAt source.text span → P.code span) :
    Gives P (Interpreter.runSource source) (FailsAt P source.text) := by
  intro m hm
  rw [Interpreter.runSource_apply]
  rcases hparse : m.interner.parse source.text with (e | _) | parsed
  · refine ⟨hm, ?_⟩
    rintro _ ⟨⟩
    exact .inl ⟨e, constructAt_of_parse (Interner.parse_eq_error_iff.mp hparse), rfl⟩
  · trivial
  · have hparsed := gives_runParsed parsed ((covers_of_interned hparse).mono h)
    exact hparsed.imp (fun _ hr d hd => .inr (hr d hd)) m hm

theorem codeIn_importLink {C : Span → Prop} {m m' : Interpreter} {name : String} (hm : m.CodeIn C)
    (h : ∀ source ∈ m.linker.prelude? name, ∀ span, TokenAt source.text span → C span)
    (hm' : (Interpreter.importLink name m).state? = some m') : m'.CodeIn C := by
  unfold Interpreter.importLink at hm'
  rw [bind_apply] at hm'
  dsimp only [Eval.read] at hm'
  unfold Linker.prelude? at h
  rcases hl : m.linker.importLink name with kind | ⟨_ | source, linker⟩
  · rw [hl] at hm'
    cases hm'
    exact hm
  · rw [hl] at hm'
    cases hm'
    exact ⟨hm.functions, hm.classes⟩
  · rw [hl] at hm' h
    have hplaced : Placed ⟨C, C, fun _ => id⟩ (do
        change ({ · with linker := linker })
        return (← Interpreter.runSource source).map fun _ => ()) := by
      refine Placed.bind (placed_change fun _ hm => ⟨hm.functions, hm.classes⟩) fun _ => ?_
      exact (gives_runSource source (h source rfl)).bind fun _ _ => placed_pure _
    exact hplaced.codeIn hm hm'

/-- A span is that of a token of one of several sources. -/
def TokenOf (sources : List Source) (span : Span) : Prop :=
  ∃ source ∈ sources, TokenAt source.text span

theorem TokenOf.cons {sources : List Source} {source : Source} {span : Span}
    (h : TokenOf sources span) : TokenOf (source :: sources) span := by
  obtain ⟨s, hs, h⟩ := h
  exact ⟨s, List.mem_cons_of_mem _ hs, h⟩

/-- All code that is kept stands at tokens of the sources that were run. -/
theorem Ran.codeIn {sources : List Source} {m : Interpreter} (h : Ran sources m) :
    m.CodeIn (TokenOf sources) := by
  induction h with
  | new linker console => exact ⟨fun f hf => (Array.not_mem_empty f hf).elim,
      fun c hc => (Array.not_mem_empty c hc).elim⟩
  | @importLink sources m m' name _ hm' ih =>
      refine codeIn_importLink (ih.mono fun span h => ?_) (fun source hs span h => ?_) hm'
      · obtain ⟨s, hs, h⟩ := h
        exact ⟨s, List.mem_append_right _ hs, h⟩
      · exact ⟨source, List.mem_append_left _ (Option.mem_toList.mpr hs), h⟩
  | @source sources m m' source _ hm' ih =>
      exact (gives_runSource (P := ⟨TokenOf (source :: sources), _, fun _ => id⟩) source
        fun span h => ⟨source, List.mem_cons_self, h⟩).codeIn (ih.mono fun _ => TokenOf.cons) hm'
  | @program sources m m' source parsed interner _ hparse hm' ih =>
      refine (gives_run (P := ⟨TokenOf (source :: sources), _, fun _ => id⟩) _ ?_).codeIn
        (ih.mono fun _ => TokenOf.cons) hm'
      exact (covers_of_interned hparse).mono fun span h => ⟨source, List.mem_cons_self, h⟩
  | @call sources m m' f args span _ hm' ih =>
      -- The error of a call may be at the place that was given for it, but no code stands there.
      let P : Places := ⟨TokenOf sources, fun _ => True, fun _ _ => trivial⟩
      have hcall : Placed P (Interpreter.call f args span) := by
        refine Gives.bind (gives_readFunction f) fun f? hf => ?_
        split
        · exact gives_unfinished
        · exact placed_callFunction (evaluatesPlaced _ _) (hf _ rfl) _ _ trivial
      exact hcall.codeIn ih hm'
  | apart _ hf hc ih => exact ⟨fun f hf' => ih.functions f (hf ▸ hf'),
      fun c hc' => ih.classes c (hc ▸ hc')⟩

/-- **Errors of programs are placed.** On an interpreter whose sources all came from texts, a program
that was parsed fails at a token of its own text or of one of the sources run before, unless by an
error of links. -/
theorem run_error_placed {sources : List Source} {m m' : Interpreter} {text : String}
    {parsed : InternedProgram} {e : EvalError} (interner : Interner) (h : Ran sources m)
    (hparse : interner.parse text = .ok parsed)
    (hrun : Interpreter.run parsed.program m = .done (.error e) m')
    (hlink : e.kind.isLink = false) :
    e.span.isNone = false ∧ (TokenAt text e.span ∨ TokenOf sources e.span) := by
  let P : Places := ⟨fun span => TokenAt text span ∨ TokenOf sources span, _, fun _ => id⟩
  have hprogram : Covers P.code (Stmts.spans parsed.program) :=
    (covers_of_interned hparse).mono fun _ => .inl
  have hm : m.CodeIn P.code := h.codeIn.mono fun _ => .inr
  have hspan := (gives_run _ hprogram).of_done hm hrun e rfl hlink
  refine ⟨?_, hspan⟩
  rcases hspan with hspan | ⟨source, -, hspan⟩
  · exact hspan.placed
  · exact hspan.placed

end

/-- The interner of a session that ran `fun f() = x`. -/
def bothNames : Interner := ((Interner.new.intern "f").2.intern "x").2

/-- What is parsed from `fun f() = x`. -/
def missingBody : InternedProgram where
  program := [.function ⟨1, 1, 3⟩ ⟨⟨1, 1, 3⟩, ".f", false, some ⟨5⟩, [],
    some (.returnValue ⟨1, 9, 1⟩ (some (.name ⟨1, 11, 1⟩ ⟨6⟩)))⟩]
  warnings := []
  interner := bothNames

/-- What is parsed from `f()` behind that. -/
def callOnly : InternedProgram where
  program := [.expr ⟨1, 1, 1⟩ (.invoke ⟨1, 2, 1⟩ (.name ⟨1, 1, 1⟩ ⟨5⟩) [])]
  warnings := []
  interner := bothNames

section

attribute [local instance] Command.charNames

/-- `fun f() = x`, and then `f()`: the name is missing at the eleventh character of the first text. -/
theorem run_error_placed_earlier :
    ∃ m m', Ran [⟨"a", "fun f() = x"⟩] m ∧ bothNames.parse "f()" = .ok callOnly ∧
      Interpreter.run callOnly.program m = .done (.error ⟨.undefinedName "x", ⟨1, 11, 1⟩⟩) m' ∧
      Span.isNone ⟨1, 11, 1⟩ = false ∧
      (TokenAt "f()" ⟨1, 11, 1⟩ ∨ TokenOf [⟨"a", "fun f() = x"⟩] ⟨1, 11, 1⟩) := by
  have hfirst : Interner.new.parse "fun f() = x" = .ok missingBody := by cbv
  have hsecond : bothNames.parse "f()" = .ok callOnly := by cbv
  have hnames : Ran [] { Interpreter.new .empty default with interner := bothNames } :=
    .apart (.new .empty default) rfl rfl
  obtain ⟨m, m', hm, hrun⟩ : ∃ m m',
      (Interpreter.run missingBody.program
        { Interpreter.new .empty default with interner := bothNames }).state? = some m ∧
      Interpreter.run callOnly.program m = .done (.error ⟨.undefinedName "x", ⟨1, 11, 1⟩⟩) m' :=
    ⟨_, _, rfl, rfl⟩
  have hran : Ran [⟨"a", "fun f() = x"⟩] m := .program .new hnames hfirst hm
  exact ⟨m, m', hran, hsecond, hrun, run_error_placed bothNames hran hsecond hrun rfl⟩

end

end IslandScript
