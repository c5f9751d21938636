import IslandScript.Command.Characters
import IslandScript.Parser.Program
import IslandScript.Proofs.Parser.Binders.Expression
import IslandScript.Proofs.Parser.LineBreak

/-!
# What programs bind

Statements, declarations and programs. Every name that a program binds is validated where it is read,
unless it is the parameter of a lambda (`bound_names_validated`).
-/

namespace IslandScript.Parser

variable {g : Grammar String}

/-! ## Statements -/

theorem binds_stmtBody (hg : GrammarBinds g) : Binds [] (stmtBody g) Stmt.binders := by
  refine silent_here.bind fun span => (silent_eatLine _).bind fun b => ?_
  split
  · refine hg.stmt.untilBrace.bind fun stmts => binds_pure ?_
    rw [Stmt.binders, stmts_binders, List.nil_append]
  · exact hg.stmt

theorem silent_bindingKeyword : Silent bindingKeyword := by
  refine (silent_eatWord _).bind fun b => ?_
  split
  · exact binds_pure rfl
  · exact (silent_expectWord _).bind fun _ => binds_pure rfl

theorem binds_declaration (hg : GrammarBinds g) : Binds [] (declaration g) Stmt.binders := by
  refine silent_here.bind fun span => silent_bindingKeyword.bind fun kind => ?_
  refine (silent_eatWord _).bind fun mutable => ?_
  refine (binds_pattern (k := .declaration) nofun).bind fun names => ?_
  refine (silent_expectLine _).bind fun _ => hg.expr.bind fun value => binds_pure ?_
  rw [Stmt.binders, List.nil_append]

theorem binds_whileLoop (hg : GrammarBinds g) : Binds [] (whileLoop g) Stmt.binders := by
  refine (silent_expectWord _).bind fun span => silent_label.bind fun label => ?_
  refine (binds_parenthesized hg).bind fun condition => (binds_stmtBody hg).bind fun body => ?_
  exact binds_pure (by rw [Stmt.binders, List.nil_append])

theorem binds_doLoop (hg : GrammarBinds g) : Binds [] (doLoop g) Stmt.binders := by
  refine (silent_expectWord _).bind fun span => silent_label.bind fun label => ?_
  refine (binds_stmtBody hg).bind fun body => silent_skipLineEnds.bind fun _ => ?_
  refine (silent_expectWord _).bind fun _ => (binds_parenthesized hg).bind fun condition => ?_
  exact binds_pure (by rw [Stmt.binders, List.nil_append])

theorem binds_loopCount (hg : GrammarBinds g) : Binds [] (loopCount g) Expr?.binders := by
  refine (silent_at? _).bind fun b => ?_
  split
  · exact (binds_parenthesized hg).map fun e => by rw [Expr?.binders]
  · exact binds_pure rfl

theorem binds_countedLoop (hg : GrammarBinds g) : Binds [] (countedLoop g) Stmt.binders := by
  refine (silent_expectWord _).bind fun span => silent_label.bind fun label => ?_
  refine (binds_loopCount hg).bind fun count => (binds_stmtBody hg).bind fun body => ?_
  exact binds_pure (by rw [Stmt.binders, List.nil_append])

theorem binds_forLoop (hg : GrammarBinds g) : Binds [] (forLoop g) Stmt.binders := by
  refine (silent_expectWord _).bind fun span => silent_label.bind fun label => ?_
  refine (silent_expect _).bind fun _ => (binds_pattern (k := .loop) nofun).bind fun names => ?_
  refine (silent_expect _).bind fun _ => hg.expr.bind fun iterable => ?_
  refine (silent_expect _).bind fun _ => (binds_stmtBody hg).bind fun body => ?_
  exact binds_pure (by rw [Stmt.binders, List.nil_append])

theorem binds_jump {make : Span → Option String → Stmt String}
    (h : ∀ span label, (make span label).binders = []) :
    Binds [] (jump make) Stmt.binders :=
  silent_advance.bind fun _ => silent_label.bind fun _ => binds_pure (h _ _)

theorem binds_throwStmt (hg : GrammarBinds g) : Binds [] (throwStmt g) Stmt.binders :=
  silent_advance.bind fun _ => hg.expr.bind fun _ =>
    binds_pure (by rw [Stmt.binders, List.nil_append])

theorem binds_leave (hg : GrammarBinds g) {make : Span → Option (Expr String) → Stmt String}
    (h : ∀ span value, (make span value).binders = Expr?.binders value) :
    Binds [] (leave g make) Stmt.binders := by
  refine silent_advance.bind fun t => silent_kind.bind fun k => ?_
  split
  · exact binds_pure (h _ none)
  · exact hg.expr.bind fun e => binds_pure (h _ (some e))

theorem binds_exprStmt (hg : GrammarBinds g) : Binds [] (exprStmt g) Stmt.binders :=
  silent_here.bind fun _ => hg.expr.bind fun _ =>
    binds_pure (by rw [Stmt.binders, List.nil_append])

/-! ## Declarations -/

theorem silent_marker (ofClass : Bool) : Silent (marker ofClass) := by
  unfold marker
  split
  · refine (silent_eatWord _).bind fun b => ?_
    split
    · exact binds_pure rfl
    · refine (silent_eatWord _).bind fun b => ?_
      split <;> exact binds_pure rfl
  · exact binds_pure rfl

theorem binds_param (hg : GrammarBinds g) (ofClass : Bool) :
    Binds [] (param g ofClass) fun p => ⟨.parameter, p.name⟩ :: Expr?.binders p.default := by
  refine silent_here.bind fun start => (silent_marker ofClass).bind fun marker => ?_
  refine (silent_eatWord _).bind fun mutable => (silent_eat _).bind fun variadic => ?_
  refine (binds_declaredName (k := .parameter) nofun).bind fun n => ?_
  dsimp only
  split
  · exact binds_fail
  · refine (silent_eat _).bind fun b => ?_
    split
    · refine Binds.bind (f := Expr?.binders) (hg.expr.map fun e => by rw [Expr?.binders]) ?_
      exact fun default => binds_pure rfl
    · exact Binds.bind (f := Expr?.binders) (binds_pure rfl) fun default => binds_pure rfl

theorem binds_nextParam (hg : GrammarBinds g) (ofClass : Bool)
    (before : List (Param String (Expr String))) :
    Binds [] (nextParam g ofClass before) fun p =>
      ⟨.parameter, p.name⟩ :: Expr?.binders p.default := by
  unfold nextParam
  split
  · split
    · exact binds_fail
    · exact binds_param hg ofClass
  · exact binds_param hg ofClass

theorem binds_params (hg : GrammarBinds g) (ofClass : Bool) :
    Binds [] (params g ofClass) (Params.binders .parameter) := by
  refine (silent_eat _).bind fun b => ?_
  split
  · refine silent_skipLineEnds.bind fun _ => (silent_eat _).bind fun b => ?_
    split
    · exact binds_pure rfl
    · refine Binds.bind (f := fun found => Params.binders .parameter found.reverse)
        (binds_loop (fun found => Params.binders .parameter found.reverse) (fun found => ?_) rfl)
        fun found => silent_skipLineEnds.bind fun _ => (silent_expect _).bind fun _ => binds_pure rfl
      refine (binds_nextParam hg ofClass found).bind fun p => (silent_eatLine _).bind fun b => ?_
      split <;> exact binds_pure (by simp [StepBinders, params_binders])
  · exact binds_pure rfl

theorem binds_functionBody (hg : GrammarBinds g) : Binds [] (functionBody g) Stmt?.binders := by
  refine (silent_at? _).bind fun b => ?_
  split
  · exact (binds_stmtBody hg).bind fun s => binds_pure rfl
  · refine (silent_at? _).bind fun b => ?_
    split
    · refine (silent_expectLine _).bind fun span => hg.expr.bind fun e => binds_pure ?_
      rw [Stmt?.binders, Stmt.binders, Expr?.binders, List.nil_append]
    · exact binds_pure rfl

theorem binds_function (hg : GrammarBinds g) : Binds [] (function g) Stmt.binders := by
  refine (silent_expectWord _).bind fun span => (silent_eat _).bind fun linked => ?_
  refine (binds_declaredName (k := .function) nofun).bind fun n => ?_
  refine (binds_params hg false).bind fun ps => (binds_functionBody hg).bind fun body => ?_
  refine (silent_linkPath _).bind fun path => binds_pure ?_
  rw [Stmt.binders, Function.binders]
  rfl

theorem binds_base (hg : GrammarBinds g) : Binds [] (base g) Expr?.binders := by
  refine (silent_eat _).bind fun b => ?_
  split
  · exact hg.expr.map fun e => by rw [Expr?.binders]
  · exact binds_pure rfl

theorem binds_classBody (hg : GrammarBinds g) (name : String) :
    Binds [] (classBody g name) Stmts.binders := by
  have hbody : Binds [] (untilBrace g.stmt) Stmts.binders := by
    rw [funext stmts_binders]
    exact hg.stmt.untilBrace
  refine (silent_eatLine _).bind fun b => ?_
  split
  · exact hbody.withinClass name
  · exact binds_pure rfl

theorem binds_classDecl (hg : GrammarBinds g) : Binds [] (classDecl g) Stmt.binders := by
  refine (silent_expectWord _).bind fun span => (silent_eat _).bind fun linked => ?_
  refine (binds_declaredName (k := .cls) nofun).bind fun n => ?_
  refine (binds_params hg true).bind fun ps => (binds_base hg).bind fun base => ?_
  refine (binds_classBody hg _).bind fun init => binds_pure ?_
  rw [Stmt.binders, Class.binders]
  rfl

theorem binds_objectDecl (hg : GrammarBinds g) : Binds [] (objectDecl g) Stmt.binders := by
  refine (silent_expectWord _).bind fun span => ?_
  refine (binds_declaredName (k := .object) nofun).bind fun n => ?_
  refine (binds_base hg).bind fun base => (binds_classBody hg _).bind fun init => binds_pure ?_
  rw [Stmt.binders, Class.binders, Params.binders]
  rfl

theorem binds_enumEntry (hg : GrammarBinds g) (ordinal : Nat) :
    Binds [] (enumEntry g ordinal) fun e => ⟨.entry, e.name⟩ :: Args.binders e.args := by
  refine (binds_declaredName (k := .entry) nofun).bind fun n => (silent_eat _).bind fun b => ?_
  have hend (args : List (Arg String (Expr String))) :
      Binds ([] ++ [⟨.entry, n.1⟩] ++ Args.binders args)
        (do
          let _ ← eat .comma
          skipLineEnds
          return (⟨n.2, n.1, args, ordinal⟩ : EnumEntry String (Expr String)))
        fun e => ⟨.entry, e.name⟩ :: Args.binders e.args :=
    (silent_eat _).bind fun _ => silent_skipLineEnds.bind fun _ => binds_pure rfl
  cases b with
  | true => exact (binds_callArgs hg).bind hend
  | false => exact Binds.bind (f := Args.binders) (binds_pure rfl) hend

theorem binds_enumEntries (hg : GrammarBinds g) : Binds [] (enumEntries g) Entries.binders := by
  refine Binds.bind (f := fun found => Entries.binders found.reverse)
    (binds_loop (fun found => Entries.binders found.reverse) (fun found => ?_) rfl)
    fun found => binds_pure rfl
  refine (silent_eat _).bind fun b => ?_
  split
  · exact binds_pure rfl
  · refine (binds_enumEntry hg _).bind fun e => binds_pure ?_
    simp [StepBinders, entries_binders]

theorem binds_enumDecl (hg : GrammarBinds g) : Binds [] (enumDecl g) Stmt.binders := by
  refine (silent_expectWord _).bind fun span => ?_
  refine (binds_declaredName (k := .enum) nofun).bind fun n => ?_
  refine (binds_params hg true).bind fun ps => (silent_expectLine _).bind fun _ => ?_
  refine (binds_enumEntries hg).bind fun es => binds_pure ?_
  simp [Stmt.binders, Class.binders, Expr?.binders, Stmts.binders]

/-! ## Programs -/

theorem binds_stmtStep (hg : GrammarBinds g) : Binds [] (stmtStep g) Stmt.binders := by
  refine silent_kind.bind fun k => ?_
  split
  · exact (binds_declaration hg).inside _
  · exact (binds_declaration hg).inside _
  · exact (binds_whileLoop hg).inside _
  · exact (binds_doLoop hg).inside _
  · exact (binds_countedLoop hg).inside _
  · exact (binds_forLoop hg).inside _
  · exact binds_jump fun span label => by rw [Stmt.binders]
  · exact binds_jump fun span label => by rw [Stmt.binders]
  · exact binds_throwStmt hg
  · exact binds_throwStmt hg
  · exact binds_leave hg fun span value => by rw [Stmt.binders]
  · exact binds_leave hg fun span value => by rw [Stmt.binders]
  · exact (binds_function hg).inside _
  · exact (binds_classDecl hg).inside _
  · exact (binds_objectDecl hg).inside _
  · exact (binds_enumDecl hg).inside _
  · exact binds_stmtBody hg
  · exact binds_exprStmt hg

/-- Whatever the bound on nesting, the grammar passes the names that its trees bind. -/
theorem grammarBinds (n : Nat) : GrammarBinds (grammar n) := by
  induction n with
  | zero => exact ⟨binds_throw, binds_throw, binds_throw, binds_throw⟩
  | succ n ih =>
      exact ⟨binds_exprStep ih, binds_spreadStep ih, binds_unaryStep ih, binds_stmtStep ih⟩

theorem binds_program (hg : GrammarBinds g) : Binds [] (program g) Stmts.binders := by
  refine silent_skipLineEnds.bind fun _ => ?_
  refine Binds.bind (f := fun found => Stmts.binders found.reverse)
    (binds_loop (fun found => Stmts.binders found.reverse) (fun found => ?_) rfl)
    fun found => binds_pure rfl
  refine silent_kind.bind fun k => ?_
  split
  · exact binds_pure rfl
  · refine hg.stmt.bind fun s => silent_skipLineEnds.bind fun _ => binds_pure ?_
    simp [StepBinders, stmts_binders]

/-- A parser starts with all the tokens before it and no warnings. -/
theorem pending_of_start {stream : TokenStream String} {s : State String}
    (h : State.start stream = .ok s) :
    s.pending.Sublist stream.tokens ∧ s.warnings = [] := by
  unfold State.start at h
  split at h
  next t rest htokens =>
    cases h
    exact ⟨htokens ▸ List.filter_sublist, rfl⟩
  · cases h
    exact ⟨List.nil_sublist _, rfl⟩
  · cases h

end IslandScript.Parser

namespace IslandScript

/-- Every name that a program binds, in the order of its text: the token it was read from is one of
the text, it is no reserved name unless it is the parameter of a lambda, and the warnings are those
about these names. -/
theorem bound_names_validated [Text.CharNames]
    {text : String} {parsed : Parsed String} (h : parse text = .ok parsed) :
    ∃ os : List Occurrence,
      os.map (·.binder) = Stmts.binders parsed.program ∧
      (os.map (·.token)).Sublist (Lexer.scan text).tokens ∧
      (∀ o ∈ os, ¬ o.OfLambda → o.binder.name ≠ "this" ∧ o.binder.name ≠ "base") ∧
      parsed.warnings = os.filterMap (·.warning?) := by
  rw [Parser.parse_eq_bind] at h
  cases hstart : Parser.State.start (Lexer.scan text) with
  | error e =>
      rw [hstart] at h
      cases h
  | ok start =>
      rw [hstart] at h
      change (Parser.program _ start).bind _ = _ at h
      cases hprogram : Parser.program _ start with
      | error e =>
          rw [hprogram] at h
          cases h
      | ok result =>
          rw [hprogram] at h
          cases h
          obtain ⟨htokens, hwarnings⟩ := Parser.pending_of_start hstart
          obtain ⟨os, hos, hbinders⟩ :=
            Parser.binds_program (Parser.grammarBinds _) start _ _ hprogram
          refine ⟨os, hbinders.symm, ?_, fun o ho hlambda => ?_, ?_⟩
          · exact ((List.sublist_append_left _ _).trans hos.tokens).trans htokens
          · simpa [Parser.isReserved] using hos.notReserved o ho hlambda
          · rw [hos.warnings, hwarnings, List.nil_append]

attribute [local instance] Command.charNames

/-- The function and its parameter are validated, the parameter of the lambda is not. -/
theorem bound_names_validated_underscores : ∃ (parsed : Parsed String) (os : List Occurrence),
    parse "fun f(__) = : _ -> x" = .ok parsed ∧
    os.map (·.binder) = Stmts.binders parsed.program ∧
    os.map (·.binder) = [⟨.function, "f"⟩, ⟨.parameter, "__"⟩, ⟨.lambdaParameter, "_"⟩] ∧
    parsed.warnings = [.vagueName ⟨1, 7, 2⟩] ∧ parsed.warnings = os.filterMap (·.warning?) := by
  have hparse : parse "fun f(__) = : _ -> x" = .ok ⟨[.function ⟨1, 1, 3⟩ ⟨⟨1, 1, 3⟩, ".f", false,
      some "f", [⟨⟨1, 7, 2⟩, none, false, false, "__", none⟩],
      some (.returnValue ⟨1, 11, 1⟩ (some (.lambda ⟨1, 13, 1⟩ ⟨⟨1, 13, 1⟩, "", false, none,
        [⟨⟨1, 15, 1⟩, none, false, false, "_", none⟩],
        some (.returnValue ⟨1, 20, 1⟩ (some (.name ⟨1, 20, 1⟩ "x")))⟩)))⟩],
      [.vagueName ⟨1, 7, 2⟩]⟩ := by cbv
  obtain ⟨os, hbinders, -, -, hwarnings⟩ := bound_names_validated hparse
  exact ⟨_, os, hparse, hbinders, by rw [hbinders]; rfl, rfl, hwarnings⟩

/-- A lambda may call a parameter by a reserved name, and discard one without a warning. -/
theorem lambda_parameters_not_validated :
    (∃ parsed, parse ": this -> x" = .ok parsed ∧
      ⟨.lambdaParameter, "this"⟩ ∈ Stmts.binders parsed.program) ∧
    ∃ parsed, parse ": _ -> x" = .ok parsed ∧
      ⟨.lambdaParameter, "_"⟩ ∈ Stmts.binders parsed.program ∧ parsed.warnings = [] := by
  have hthis : parse ": this -> x" = .ok ⟨[.expr ⟨1, 1, 1⟩ (.lambda ⟨1, 1, 1⟩ ⟨⟨1, 1, 1⟩, "", false,
      none, [⟨⟨1, 3, 4⟩, none, false, false, "this", none⟩],
      some (.returnValue ⟨1, 11, 1⟩ (some (.name ⟨1, 11, 1⟩ "x")))⟩)], []⟩ := by cbv
  have hunderscore : parse ": _ -> x" = .ok ⟨[.expr ⟨1, 1, 1⟩ (.lambda ⟨1, 1, 1⟩ ⟨⟨1, 1, 1⟩, "",
      false, none, [⟨⟨1, 3, 1⟩, none, false, false, "_", none⟩],
      some (.returnValue ⟨1, 8, 1⟩ (some (.name ⟨1, 8, 1⟩ "x")))⟩)], []⟩ := by cbv
  exact ⟨⟨_, hthis, List.mem_cons_self⟩, _, hunderscore, List.mem_cons_self, rfl⟩

end IslandScript
