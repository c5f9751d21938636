import IslandScript.Command.Characters
import IslandScript.Parser.Program
import IslandScript.Proofs.Parser.Declarations.Expression
import IslandScript.Proofs.Parser.LineBreak

/-!
# Declarations of parsed programs

Statements, declarations and programs. A variadic parameter is noticed when another one follows it, so
that only the last one of a list is variadic. The name of a class is on top of the stack while its body is
read, and so it is the one that the paths of the functions in it begin with. All that is declared in a
parsed program is well formed (`parsed_declarations_wellFormed`).
-/

namespace IslandScript.Parser

variable {g : Grammar String} {cs : List String}

/-! ## Statements -/

theorem builds_stmtBody (hg : GrammarBuilds g) : BuildsStmt cs (stmtBody g) := by
  refine stays_here.bind fun span => (stays_eatLine _).bind fun b => ?_
  split
  · refine (hg.stmt cs).untilBrace.bind fun stmts hstmts => builds_pure ?_
    rw [Stmt.declarations]
    exact wellDeclared_stmts.mpr hstmts
  · exact hg.stmt cs

theorem stays_bindingKeyword : Stays cs bindingKeyword := by
  refine (stays_eatWord _).bind fun b => ?_
  split
  · exact stays_pure
  · exact (stays_expectWord _).bind fun _ => stays_pure

theorem builds_declaration (hg : GrammarBuilds g) : BuildsStmt cs (declaration g) := by
  refine stays_here.bind fun span => stays_bindingKeyword.bind fun kind => ?_
  refine (stays_eatWord _).bind fun mutable => stays_pattern.bind fun names => ?_
  refine (stays_expectLine _).bind fun _ => (hg.expr cs).bind fun value hvalue => builds_pure ?_
  rwa [Stmt.declarations]

theorem builds_whileLoop (hg : GrammarBuilds g) : BuildsStmt cs (whileLoop g) := by
  refine (stays_expectWord _).bind fun span => stays_label.bind fun label => ?_
  refine (builds_parenthesized hg).bind fun condition hcondition => ?_
  refine (builds_stmtBody hg).bind fun body hbody => builds_pure ?_
  rw [Stmt.declarations]
  exact wellDeclared_append.mpr ⟨hcondition, hbody⟩

theorem builds_doLoop (hg : GrammarBuilds g) : BuildsStmt cs (doLoop g) := by
  refine (stays_expectWord _).bind fun span => stays_label.bind fun label => ?_
  refine (builds_stmtBody hg).bind fun body hbody => stays_skipLineEnds.bind fun _ => ?_
  refine (stays_expectWord _).bind fun _ => ?_
  refine (builds_parenthesized hg).bind fun condition hcondition => builds_pure ?_
  rw [Stmt.declarations]
  exact wellDeclared_append.mpr ⟨hbody, hcondition⟩

theorem builds_loopCount (hg : GrammarBuilds g) : BuildsExpr? cs (loopCount g) := by
  refine (stays_at? _).bind fun b => ?_
  split
  · exact BuildsExpr.some (builds_parenthesized hg)
  · exact builds_none

theorem builds_countedLoop (hg : GrammarBuilds g) : BuildsStmt cs (countedLoop g) := by
  refine (stays_expectWord _).bind fun span => stays_label.bind fun label => ?_
  refine (builds_loopCount hg).bind fun count hcount => ?_
  refine (builds_stmtBody hg).bind fun body hbody => builds_pure ?_
  rw [Stmt.declarations]
  exact wellDeclared_append.mpr ⟨hcount, hbody⟩

theorem builds_forLoop (hg : GrammarBuilds g) : BuildsStmt cs (forLoop g) := by
  refine (stays_expectWord _).bind fun span => stays_label.bind fun label => ?_
  refine (stays_expect _).bind fun _ => stays_pattern.bind fun names => ?_
  refine (stays_expect _).bind fun _ => (hg.expr cs).bind fun iterable hiterable => ?_
  refine (stays_expect _).bind fun _ => (builds_stmtBody hg).bind fun body hbody => builds_pure ?_
  rw [Stmt.declarations]
  exact wellDeclared_append.mpr ⟨hiterable, hbody⟩

theorem builds_jump {make : Span → Option String → Stmt String}
    (h : ∀ c span label, (make span label).declarations c = []) : BuildsStmt cs (jump make) := by
  refine stays_advance.bind fun t => stays_label.bind fun label => builds_pure ?_
  rw [h]
  exact wellDeclared_nil

theorem builds_throwStmt (hg : GrammarBuilds g) : BuildsStmt cs (throwStmt g) := by
  refine stays_advance.bind fun t => (hg.expr cs).bind fun value hvalue => builds_pure ?_
  rwa [Stmt.declarations]

theorem builds_leave (hg : GrammarBuilds g) {make : Span → Option (Expr String) → Stmt String}
    (h : ∀ c span value, (make span value).declarations c = Expr?.declarations c value) :
    BuildsStmt cs (leave g make) := by
  refine stays_advance.bind fun t => stays_kind.bind fun k => ?_
  split
  · apply builds_pure
    rw [h, Expr?.declarations]
    exact wellDeclared_nil
  · refine (hg.expr cs).bind fun value hvalue => builds_pure ?_
    rwa [h, Expr?.declarations]

theorem builds_exprStmt (hg : GrammarBuilds g) : BuildsStmt cs (exprStmt g) := by
  refine stays_here.bind fun span => (hg.expr cs).bind fun e he => builds_pure ?_
  rwa [Stmt.declarations]

/-! ## Parameters -/

/-- What is known of a parameter wherever it stands. -/
structure ParamBuilt (ofClass : Bool) (c : String) (p : Param String (Expr String)) : Prop where
  fixed : p.variadic = true → p.mutable = false
  unmarked : ofClass = false → p.marker = none
  default : WellDeclared (Expr?.declarations c p.default)

/-- What is known of the parameters found so far, the last one first. -/
structure ParamsFound (ofClass : Bool) (c : String) (found : List (Param String (Expr String))) :
    Prop where
  each : ∀ p ∈ found, ParamBuilt ofClass c p
  before : ∀ p ∈ found.tail, p.variadic = false

/-- What is known of a list of parameters. -/
structure ParamsBuilt (ofClass : Bool) (c : String) (ps : List (Param String (Expr String))) :
    Prop where
  wellFormed : Params.WellFormed ps
  unmarked : ofClass = false → Params.Unmarked ps
  defaults : WellDeclared (Params.declarations c ps)

theorem paramsBuilt_nil {ofClass : Bool} {c : String} : ParamsBuilt ofClass c [] where
  wellFormed := ⟨nofun, nofun⟩
  unmarked _ := nofun
  defaults := wellDeclared_nil

theorem ParamsFound.built {ofClass : Bool} {c : String} {found : List (Param String (Expr String))}
    (h : ParamsFound ofClass c found) : ParamsBuilt ofClass c found.reverse where
  wellFormed := {
    variadicLast := fun p hp => by
      rw [List.dropLast_reverse, List.mem_reverse] at hp
      exact h.before p hp
    variadicFixed := fun p hp => (h.each p (List.mem_reverse.mp hp)).fixed }
  unmarked hclass := fun p hp => (h.each p (List.mem_reverse.mp hp)).unmarked hclass
  defaults := wellDeclared_params.mpr fun p hp => (h.each p (List.mem_reverse.mp hp)).default

theorem builds_marker (ofClass : Bool) :
    Builds cs (marker ofClass) fun m => ofClass = false → m = none := by
  unfold marker
  split
  next hclass =>
    have hnot (m : Option BindingKind) (h : ofClass = false) : m = none :=
      absurd (h.symm.trans hclass) Bool.false_ne_true
    refine (stays_eatWord _).bind fun b => ?_
    split
    · exact builds_pure (hnot _)
    · refine (stays_eatWord _).bind fun b => ?_
      split <;> exact builds_pure (hnot _)
  next => exact builds_pure fun _ => rfl

/-- A parameter that is both mutable and variadic is an error. -/
theorem builds_param (hg : GrammarBuilds g) (ofClass : Bool) :
    Builds cs (param g ofClass) (ParamBuilt ofClass (innermost cs)) := by
  refine stays_here.bind fun start => (builds_marker ofClass).bind fun marker hmarker => ?_
  refine (stays_eatWord _).bind fun mutable => (stays_eat _).bind fun variadic => ?_
  refine stays_declaredName.bind fun n => ?_
  dsimp only
  split
  · exact builds_fail
  next hboth =>
    have hfixed : variadic = true → mutable = false := by
      intro hvariadic
      cases mutable with
      | false => rfl
      | true => exact absurd (by rw [hvariadic]; rfl) hboth
    have hend (default : Option (Expr String))
        (hdefault : WellDeclared (Expr?.declarations (innermost cs) default)) :
        Builds cs (pure ⟨start.rangeTo n.2, marker, mutable, variadic, n.1, default⟩)
          (ParamBuilt ofClass (innermost cs)) :=
      builds_pure ⟨hfixed, hmarker, hdefault⟩
    refine (stays_eat _).bind fun b => ?_
    split
    · exact Builds.bind (BuildsExpr.some (hg.expr cs)) hend
    · exact builds_none.bind hend

/-- A parameter behind a variadic one is an error. -/
theorem builds_nextParam (hg : GrammarBuilds g) (ofClass : Bool)
    {found : List (Param String (Expr String))} (hfound : ParamsFound ofClass (innermost cs) found) :
    Builds cs (nextParam g ofClass found) fun p => ParamsFound ofClass (innermost cs) (p :: found) := by
  unfold nextParam
  split
  next q before =>
    split
    · exact builds_fail
    next hvariadic =>
      -- The one before is not variadic, and those before it were looked at in their turn.
      refine (builds_param hg ofClass).imp fun p hp => ?_
      exact {
        each := List.forall_mem_cons.mpr ⟨hp, hfound.each⟩
        before := List.forall_mem_cons.mpr ⟨Bool.not_eq_true _ ▸ hvariadic, hfound.before⟩ }
  next =>
    refine (builds_param hg ofClass).imp fun p hp => ?_
    exact {
      each := List.forall_mem_cons.mpr ⟨hp, nofun⟩
      before := nofun }

theorem builds_params (hg : GrammarBuilds g) (ofClass : Bool) :
    Builds cs (params g ofClass) (ParamsBuilt ofClass (innermost cs)) := by
  refine (stays_eat _).bind fun b => ?_
  split
  · refine stays_skipLineEnds.bind fun _ => (stays_eat _).bind fun b => ?_
    split
    · exact builds_pure paramsBuilt_nil
    · refine Builds.bind (Q := ParamsFound ofClass (innermost cs))
        (builds_loop (ParamsFound ofClass (innermost cs)) (fun found hfound => ?_) ⟨nofun, nofun⟩)
        fun found hfound => stays_skipLineEnds.bind fun _ => (stays_expect _).bind fun _ =>
          builds_pure hfound.built
      refine (builds_nextParam hg ofClass hfound).bind fun p hp => (stays_eatLine _).bind fun b => ?_
      split <;> exact builds_pure hp
  · exact builds_pure paramsBuilt_nil

/-! ## Functions, classes, objects and enums -/

theorem builds_functionBody (hg : GrammarBuilds g) : Builds cs (functionBody g) fun s? =>
    WellDeclared (Stmt?.declarations (innermost cs) s?) := by
  refine (stays_at? _).bind fun b => ?_
  split
  · refine (builds_stmtBody hg).bind fun s hs => builds_pure ?_
    rwa [Stmt?.declarations]
  · refine (stays_at? _).bind fun b => ?_
    split
    · refine (stays_expectLine _).bind fun span => (hg.expr cs).bind fun e he => builds_pure ?_
      rwa [Stmt?.declarations, Stmt.declarations, Expr?.declarations]
    · exact builds_pure (by simp)

theorem builds_function (hg : GrammarBuilds g) : BuildsStmt cs (function g) := by
  refine (stays_expectWord _).bind fun span => (stays_eat _).bind fun linked => ?_
  refine stays_declaredName.bind fun n => (builds_params hg false).bind fun ps hps => ?_
  refine (builds_functionBody hg).bind fun body hbody => ?_
  refine (builds_linkPath n.1).bind fun path hpath => builds_pure ?_
  rw [Stmt.declarations, Function.declarations, wellDeclared_cons, wellDeclared_append]
  exact ⟨.function rfl hpath hps.wellFormed (hps.unmarked rfl), hps.defaults, hbody⟩

theorem builds_base (hg : GrammarBuilds g) : BuildsExpr? cs (base g) := by
  refine (stays_eat _).bind fun b => ?_
  split
  · exact BuildsExpr.some (hg.expr cs)
  · exact builds_none

/-- In its body a class is the innermost one. -/
theorem builds_classBody (hg : GrammarBuilds g) (name : String) :
    Builds cs (classBody g name) fun init => WellDeclared (Stmts.declarations name init) := by
  refine (stays_eatLine _).bind fun b => ?_
  split
  · apply Builds.withinClass
    exact (hg.stmt (name :: cs)).untilBrace.imp fun init hinit => wellDeclared_stmts.mpr hinit
  · exact builds_pure (by simp)

theorem builds_classDecl (hg : GrammarBuilds g) : BuildsStmt cs (classDecl g) := by
  refine (stays_expectWord _).bind fun span => (stays_eat _).bind fun linked => ?_
  refine stays_declaredName.bind fun n => (builds_params hg true).bind fun ps hps => ?_
  refine (builds_base hg).bind fun base hbase => ?_
  refine (builds_classBody hg n.1).bind fun init hinit => builds_pure ?_
  rw [Stmt.declarations, Class.declarations, wellDeclared_cons, wellDeclared_append,
    wellDeclared_append]
  exact ⟨.cls rfl hps.wellFormed, ⟨hps.defaults, hbase⟩, hinit⟩

theorem builds_objectDecl (hg : GrammarBuilds g) : BuildsStmt cs (objectDecl g) := by
  refine (stays_expectWord _).bind fun span => stays_declaredName.bind fun n => ?_
  refine (builds_base hg).bind fun base hbase => ?_
  refine (builds_classBody hg n.1).bind fun init hinit => builds_pure ?_
  have hnone : ParamsBuilt true (innermost cs) [] := paramsBuilt_nil
  rw [Stmt.declarations, Class.declarations, wellDeclared_cons, wellDeclared_append,
    wellDeclared_append]
  exact ⟨.cls rfl hnone.wellFormed, ⟨hnone.defaults, hbase⟩, hinit⟩

/-- An entry has the number it was asked for. -/
theorem builds_enumEntry (hg : GrammarBuilds g) (ordinal : Nat) : Builds cs (enumEntry g ordinal)
    fun e => e.ordinal = ordinal ∧ WellDeclared (Args.declarations (innermost cs) e.args) := by
  refine stays_declaredName.bind fun n => (stays_eat _).bind fun b => ?_
  have hend (args : List (Arg String (Expr String)))
      (hargs : WellDeclared (Args.declarations (innermost cs) args)) :
      Builds cs (do
        let _ ← eat .comma
        skipLineEnds
        return (⟨n.2, n.1, args, ordinal⟩ : EnumEntry String (Expr String)))
        fun e => e.ordinal = ordinal ∧ WellDeclared (Args.declarations (innermost cs) e.args) :=
    (stays_eat _).bind fun _ => stays_skipLineEnds.bind fun _ => builds_pure ⟨rfl, hargs⟩
  cases b with
  | true => exact Builds.bind (builds_args _ (builds_callArg hg)) hend
  | false =>
      refine Builds.bind (builds_pure ?_) hend
      exact wellDeclared_args.mpr nofun

/-- What is known of the entries found so far, the last one first: each has as its number that of those
before it. -/
structure EntriesFound (c : String) (found : List (EnumEntry String (Expr String))) : Prop where
  ordinals : found.reverse.map (·.ordinal) = List.range found.length
  args : WellDeclared (Entries.declarations c found)

theorem builds_enumEntries (hg : GrammarBuilds g) : Builds cs (enumEntries g) fun es =>
    es.map (·.ordinal) = List.range es.length ∧
      WellDeclared (Entries.declarations (innermost cs) es) := by
  refine Builds.bind (Q := EntriesFound (innermost cs))
    (builds_loop (EntriesFound (innermost cs)) (fun found hfound => ?_) ⟨rfl, by simp⟩)
    fun found hfound => builds_pure ?_
  · refine (stays_eat _).bind fun b => ?_
    split
    · exact builds_pure hfound
    · refine (builds_enumEntry hg _).bind fun e he => builds_pure ?_
      have hargs := wellDeclared_entries.mp hfound.args
      exact {
        ordinals := by
          rw [List.reverse_cons, List.map_append, hfound.ordinals, List.length_cons, List.range_succ,
            List.map_singleton, he.1]
        args := wellDeclared_entries.mpr (List.forall_mem_cons.mpr ⟨he.2, hargs⟩) }
  · rw [List.length_reverse]
    exact ⟨hfound.ordinals, by simpa using hfound.args⟩

theorem builds_enumDecl (hg : GrammarBuilds g) : BuildsStmt cs (enumDecl g) := by
  refine (stays_expectWord _).bind fun span => stays_declaredName.bind fun n => ?_
  refine (builds_params hg true).bind fun ps hps => (stays_expectLine _).bind fun _ => ?_
  refine (builds_enumEntries hg).bind fun es hes => builds_pure ?_
  rw [Stmt.declarations, Class.declarations]
  simp only [wellDeclared_cons, wellDeclared_append]
  exact ⟨⟨.enum rfl hps.wellFormed hes.1, ⟨hps.defaults, wellDeclared_nil⟩, wellDeclared_nil⟩, hes.2⟩

/-! ## Programs -/

theorem builds_stmtStep (hg : GrammarBuilds g) : BuildsStmt cs (stmtStep g) := by
  refine stays_kind.bind fun k => ?_
  split
  · exact (builds_declaration hg).inside _
  · exact (builds_declaration hg).inside _
  · exact (builds_whileLoop hg).inside _
  · exact (builds_doLoop hg).inside _
  · exact (builds_countedLoop hg).inside _
  · exact (builds_forLoop hg).inside _
  · exact builds_jump fun c span label => by rw [Stmt.declarations]
  · exact builds_jump fun c span label => by rw [Stmt.declarations]
  · exact builds_throwStmt hg
  · exact builds_throwStmt hg
  · exact builds_leave hg fun c span value => by rw [Stmt.declarations]
  · exact builds_leave hg fun c span value => by rw [Stmt.declarations]
  · exact (builds_function hg).inside _
  · exact (builds_classDecl hg).inside _
  · exact (builds_objectDecl hg).inside _
  · exact (builds_enumDecl hg).inside _
  · exact builds_stmtBody hg
  · exact builds_exprStmt hg

/-- Whatever the bound on nesting, the grammar builds well-formed declarations. -/
theorem grammarBuilds (n : Nat) : GrammarBuilds (grammar n) := by
  induction n with
  | zero => exact ⟨fun _ => builds_throw, fun _ => builds_throw, fun _ => builds_throw,
      fun _ => builds_throw⟩
  | succ n ih => exact ⟨fun _ => builds_exprStep ih, fun _ => builds_spreadStep ih,
      fun _ => builds_unaryStep ih, fun _ => builds_stmtStep ih⟩

theorem builds_program (hg : GrammarBuilds g) : Builds cs (program g) fun stmts =>
    WellDeclared (Stmts.declarations (innermost cs) stmts) := by
  refine stays_skipLineEnds.bind fun _ => ?_
  refine Builds.bind (Q := fun found => WellDeclared (Stmts.declarations (innermost cs) found))
    (builds_loop (fun found => WellDeclared (Stmts.declarations (innermost cs) found))
      (fun found hfound => ?_) (by simp)) fun found hfound => builds_pure (by simpa using hfound)
  refine stays_kind.bind fun k => ?_
  split
  · exact builds_pure hfound
  · refine (hg.stmt cs).bind fun s hs => stays_skipLineEnds.bind fun _ => builds_pure ?_
    rw [StepHas, Stmts.declarations]
    exact wellDeclared_append.mpr ⟨hs, hfound⟩

end IslandScript.Parser

namespace IslandScript

/-- Whatever a parsed program declares, at any depth, is well formed: its parameters, the markers of these,
the numbers of an enum's entries, and its path. -/
theorem parsed_declarations_wellFormed [Text.CharNames] {text : String} {parsed : Parsed String}
    (h : parse text = .ok parsed) : ∀ d ∈ Stmts.declarations "" parsed.program, d.WellFormed := by
  obtain ⟨start, mid, last, hrun⟩ := Parser.exists_run h
  have hprogram := Parser.program_eq_ok.mpr
    ⟨mid, hrun.skips, hrun.reads, hrun.atEnd, hrun.bounded⟩
  -- the parser starts outside of classes
  have hclasses := Parser.classes_start hrun.start_eq
  exact (Parser.builds_program (Parser.grammarBuilds _) start _ _ hclasses hprogram).2

attribute [local instance] Command.charNames

/-- A function in an object in a class stands in the object: `class C { object D { fun f(*xs) } }`. -/
theorem parsed_declarations_wellFormed_nested : ∃ parsed f,
    parse "class C \x7b object D \x7b fun f(*xs) \x7d \x7d" = .ok parsed ∧
    Declaration.function "D" f ∈ Stmts.declarations "" parsed.program ∧ f.path = "D.f" ∧
    (Declaration.function "D" f).WellFormed := by
  have hparse : parse "class C \x7b object D \x7b fun f(*xs) \x7d \x7d" = .ok ⟨[.cls ⟨1, 1, 5⟩
      ⟨⟨1, 1, 5⟩, "C", false, "C", [], none, [.object ⟨1, 11, 6⟩ ⟨⟨1, 11, 6⟩, "D", false, "D", [],
        none, [.function ⟨1, 22, 3⟩ ⟨⟨1, 22, 3⟩, "D.f", false, some "f",
          [⟨⟨1, 28, 3⟩, none, false, true, "xs", none⟩], none⟩]⟩]⟩], []⟩ := by cbv
  have hwell := parsed_declarations_wellFormed hparse
  -- the class, the object, and then the function
  refine ⟨_, ⟨⟨1, 22, 3⟩, "D.f", false, some "f", [⟨⟨1, 28, 3⟩, none, false, true, "xs", none⟩],
    none⟩, hparse, ?hdeclares, rfl, hwell _ ?hdeclares⟩
  exact .tail _ (.tail _ (.head _))

end IslandScript
