import IslandScript.Proofs.Parser.Renaming.Expression

/-!
# Programs with other names

The rules of statements one by one, then the grammar by induction on its depth. A stream of tokens whose
names are replaced is parsed to the same program with other names, with the same warnings, or refused
with the same error (`parse_mapNames`).
-/

namespace IslandScript

/-- A stream of tokens with other names. -/
def TokenStream.mapNames {ν μ : Type} (f : ν → μ) (stream : TokenStream ν) : TokenStream μ :=
  ⟨stream.tokens.map (·.mapNames f), stream.ending⟩

/-- What was parsed with other names. -/
def Parsed.mapNames {ν μ : Type} (f : ν → μ) (parsed : Parsed ν) : Parsed μ :=
  ⟨Stmts.mapNames f parsed.program, parsed.warnings⟩

namespace Parser

variable {ν μ : Type} {f : ν → μ} {g : Grammar ν} {g' : Grammar μ}

theorem start_mapNames (stream : TokenStream ν) :
    State.start (stream.mapNames f) = (State.start stream).map (rename f) := by
  obtain ⟨tokens, ending⟩ := stream
  cases tokens with
  | cons t tokens => rfl
  | nil => cases ending <;> rfl

theorem mapNames_class (span : Span) (path : String) (linked : Bool) (n : ν)
    (params : List (Param ν (Expr ν))) (base : Option (Expr ν)) (init : List (Stmt ν)) :
    Class.mapNames f ⟨span, path, linked, n, params, base, init⟩ =
      ⟨span, path, linked, f n, params.map (Param.mapNames f), base.map (Expr.mapNames f),
        init.map (Stmt.mapNames f)⟩ := by
  rw [Class.mapNames, Params.mapNames_eq_map, Expr?.mapNames_eq_map, Stmts.mapNames_eq_map]

/-! ## Statements and their parts -/

theorem endsStatement_map (k : TokenKind ν) : endsStatement (k.map f) = endsStatement k := by
  cases k with
  | symbol s => cases s <;> rfl
  | _ => rfl

theorem renames_exprStmt (hg : RenamesGrammar f g g') : Renames f (exprStmt g) (exprStmt g') :=
  renames_here.bind fun _ => hg.expr.bind fun _ => renames_pure rfl

theorem renames_throwStmt (hg : RenamesGrammar f g g') : Renames f (throwStmt g) (throwStmt g') :=
  renames_advance.bind fun _ => hg.expr.bind fun _ => renames_pure rfl

theorem renames_leave (hg : RenamesGrammar f g g') {make : Span → Option (Expr ν) → Stmt ν}
    {make' : Span → Option (Expr μ) → Stmt μ}
    (hmake : ∀ span value, (make span value).mapNames f = make' span (value.map (Expr.mapNames f))) :
    Renames f (leave g make) (leave g' make') := by
  refine renames_advance.bind fun t => renames_kind.bind fun k => ?_
  rw [show endsStatement (rename f k) = endsStatement k from endsStatement_map k]
  cases endsStatement k with
  | true => exact renames_pure (hmake t.span none)
  | false => exact hg.expr.bind fun value => renames_pure (hmake t.span (some value))

variable [DecidableEq ν] [DecidableEq μ]

theorem renames_stmtBody (hg : RenamesGrammar f g g') : Renames f (stmtBody g) (stmtBody g') := by
  refine renames_here.bind fun span => (renames_eatLine .leftBrace).bind fun b => ?_
  cases b with
  | true =>
      refine hg.stmt.untilBrace.bind fun stmts => renames_pure ?_
      exact congrArg (Stmt.block span) (Stmts.mapNames_eq_map stmts)
  | false => exact hg.stmt

theorem renames_marker (ofClass : Bool) :
    Renames f (marker ofClass : Parser ν _) (marker ofClass : Parser μ _) := by
  cases ofClass with
  | false => exact renames_pure rfl
  | true =>
      refine (renames_eatWord .letKey).bind fun b => ?_
      cases b with
      | true => exact renames_pure rfl
      | false =>
          refine (renames_eatWord .varKey).bind fun b => ?_
          cases b <;> exact renames_pure rfl

theorem renames_base (hg : RenamesGrammar f g g') : Renames f (base g) (base g') := by
  refine (renames_eat .colon).bind fun b => ?_
  cases b with
  | true => exact hg.expr.map fun _ => rfl
  | false => exact renames_pure rfl

theorem renames_classBody (hg : RenamesGrammar f g g') (n : ν) :
    Renames f (classBody g n) (classBody g' (f n)) := by
  refine (renames_eatLine .leftBrace).bind fun b => ?_
  cases b with
  | true => exact hg.stmt.untilBrace.withinClass n
  | false => exact renames_pure rfl

theorem renames_programRound (hg : RenamesGrammar f g g') (found : Program ν) :
    Renames f (programRound g found) (programRound g' (found.map (Stmt.mapNames f))) := by
  refine renames_kind.bind fun k => ?_
  have hend : (rename f k == .endOfFile) = (k == .endOfFile) :=
    map_beq_map .endOfFile nofun k
  rw [hend]
  cases k == .endOfFile with
  | true => exact renames_pure rfl
  | false => exact hg.stmt.bind fun s => renames_skipLineEnds.bind fun _ => renames_pure rfl

theorem renames_program (hg : RenamesGrammar f g g') : Renames f (program g) (program g') :=
  renames_skipLineEnds.bind fun _ => (renames_loop (renames_programRound hg) []).bind fun _ =>
    renames_pure List.map_reverse

variable [Naming ν] [Naming μ]

theorem renames_jump {make : Span → Option ν → Stmt ν} {make' : Span → Option μ → Stmt μ}
    (hmake : ∀ span label, (make span label).mapNames f = make' span (label.map f)) :
    Renames f (jump make) (jump make') :=
  renames_advance.bind fun t => renames_label.bind fun label => renames_pure (hmake t.span label)

variable [Renaming f]

theorem renames_bindingKeyword :
    Renames f (bindingKeyword : Parser ν _) (bindingKeyword : Parser μ _) := by
  refine (renames_eatWord .letKey).bind fun b => ?_
  cases b with
  | true => exact renames_pure rfl
  | false => exact (renames_expectWord .varKey).bind fun _ => renames_pure rfl

variable (hg : RenamesGrammar f g g')

include hg

theorem renames_declaration : Renames f (declaration g) (declaration g') := by
  refine renames_here.bind fun span => renames_bindingKeyword.bind fun kind => ?_
  refine (renames_eatWord .mutKey).bind fun mutable => renames_pattern.bind fun names => ?_
  exact (renames_expectLine .equal).bind fun _ => hg.expr.bind fun value => renames_pure rfl

/-! ## Loops -/

theorem renames_whileLoop : Renames f (whileLoop g) (whileLoop g') := by
  refine (renames_expectWord .whileKey).bind fun span => renames_label.bind fun label => ?_
  refine (renames_parenthesized hg).bind fun condition => ?_
  exact (renames_stmtBody hg).bind fun body => renames_pure rfl

theorem renames_doLoop : Renames f (doLoop g) (doLoop g') := by
  refine (renames_expectWord .doKey).bind fun span => renames_label.bind fun label => ?_
  refine (renames_stmtBody hg).bind fun body => renames_skipLineEnds.bind fun _ => ?_
  refine (renames_expectWord .whileKey).bind fun _ => ?_
  exact (renames_parenthesized hg).bind fun condition => renames_pure rfl

theorem renames_loopCount : Renames f (loopCount g) (loopCount g') := by
  refine (renames_at? .leftParen).bind fun b => ?_
  cases b with
  | true => exact (renames_parenthesized hg).map fun _ => rfl
  | false => exact renames_pure rfl

theorem renames_countedLoop : Renames f (countedLoop g) (countedLoop g') := by
  refine (renames_expectWord .loop).bind fun span => renames_label.bind fun label => ?_
  refine (renames_loopCount hg).bind fun count => (renames_stmtBody hg).bind fun body => ?_
  exact renames_pure (congrArg (Stmt.loop span _ · _) (Expr?.mapNames_eq_map count))

theorem renames_forLoop : Renames f (forLoop g) (forLoop g') := by
  refine (renames_expectWord .forKey).bind fun span => renames_label.bind fun label => ?_
  refine (renames_expect .leftParen).bind fun _ => renames_pattern.bind fun names => ?_
  refine (renames_expect .colon).bind fun _ => hg.expr.bind fun iterable => ?_
  refine (renames_expect .rightParen).bind fun _ => (renames_stmtBody hg).bind fun body => ?_
  exact renames_pure rfl

/-! ## Parameters -/

theorem renames_param (ofClass : Bool) : Renames f (param g ofClass) (param g' ofClass) := by
  refine renames_here.bind fun start => (renames_marker ofClass).bind fun marker => ?_
  refine (renames_eatWord .mutKey).bind fun mutable => (renames_eat .star).bind fun variadic => ?_
  refine renames_declaredName.bind fun ⟨n, span⟩ => ?_
  change Renames f _ (if mutable && variadic then fail (.mutableVariadic (Naming.text (f n))) span
    else _)
  dsimp only
  rw [Renaming.text_eq]
  cases mutable && variadic with
  | true => exact renames_fail rfl span
  | false =>
      refine (renames_eat .equal).bind fun b => ?_
      cases b with
      | true =>
          have hdefault : Renames f (some <$> g.expr) (some <$> g'.expr) := hg.expr.map fun _ => rfl
          exact hdefault.bind fun default => renames_pure rfl
      | false => exact renames_pure rfl

theorem renames_nextParam (ofClass : Bool) (before : List (Param ν (Expr ν))) :
    Renames f (nextParam g ofClass before)
      (nextParam g' ofClass (before.map (Param.mapNames f))) := by
  cases before with
  | nil => exact renames_param hg ofClass
  | cons p before =>
      change Renames f (if p.variadic then _ else _) (if p.variadic then
        fail (.misplacedVariadic (Naming.text (f p.name))) p.span else _)
      rw [Renaming.text_eq p.name]
      cases p.variadic with
      | true => exact renames_fail rfl p.span
      | false => exact renames_param hg ofClass

theorem renames_paramList (ofClass : Bool) :
    Renames f (paramList g ofClass) (paramList g' ofClass) := by
  refine renames_skipLineEnds.bind fun _ => (renames_eat .rightParen).bind fun b => ?_
  cases b with
  | true => exact renames_pure rfl
  | false =>
      refine (renames_loop (fun params => ?_) []).bind fun params => ?_
      · refine (renames_nextParam hg ofClass params).bind fun p => (renames_eatLine .comma).bind fun b => ?_
        cases b <;> exact renames_pure rfl
      · refine renames_skipLineEnds.bind fun _ => (renames_expect .rightParen).bind fun _ => ?_
        exact renames_pure List.map_reverse

theorem renames_params (ofClass : Bool) : Renames f (params g ofClass) (params g' ofClass) := by
  refine (renames_eat .leftParen).bind fun b => ?_
  cases b with
  | true => exact renames_paramList hg ofClass
  | false => exact renames_pure rfl

/-! ## Functions and classes -/

theorem renames_functionBody : Renames f (functionBody g) (functionBody g') := by
  refine (renames_at? .leftBrace).bind fun b => ?_
  cases b with
  | true => exact (renames_stmtBody hg).bind fun body => renames_pure rfl
  | false =>
      refine (renames_at? .equal).bind fun b => ?_
      cases b with
      | true =>
          refine (renames_expectLine .equal).bind fun span => hg.expr.bind fun value => ?_
          exact renames_pure rfl
      | false => exact renames_pure rfl

theorem renames_function : Renames f (function g) (function g') := by
  refine (renames_expectWord .funKey).bind fun span => (renames_eat .atSign).bind fun linked => ?_
  refine renames_declaredName.bind fun ⟨n, _⟩ => (renames_params hg false).bind fun params => ?_
  refine (renames_functionBody hg).bind fun body => (renames_linkPath n).bind fun path => ?_
  refine renames_pure ?_
  exact congr (congrArg (fun params body =>
    Stmt.function span ⟨span, path, linked, some (f n), params, body⟩) (Params.mapNames_eq_map params))
    (Stmt?.mapNames_eq_map body)

theorem renames_classDecl : Renames f (classDecl g) (classDecl g') := by
  refine (renames_expectWord .classKey).bind fun span => (renames_eat .atSign).bind fun linked => ?_
  refine renames_declaredName.bind fun ⟨n, _⟩ => (renames_params hg true).bind fun params => ?_
  refine (renames_base hg).bind fun base => (renames_classBody hg n).bind fun init => renames_pure ?_
  change Stmt.cls span (Class.mapNames f _) = .cls span ⟨span, Naming.text (f n), _, _, _, _, _⟩
  rw [mapNames_class, Renaming.text_eq n]
  rfl

theorem renames_objectDecl : Renames f (objectDecl g) (objectDecl g') := by
  refine (renames_expectWord .object).bind fun span => renames_declaredName.bind fun ⟨n, _⟩ => ?_
  refine (renames_base hg).bind fun base => (renames_classBody hg n).bind fun init => renames_pure ?_
  change Stmt.object span (Class.mapNames f _) = .object span ⟨span, Naming.text (f n), _, _, _, _, _⟩
  rw [mapNames_class, Renaming.text_eq n]
  rfl

/-! ## Enums -/

theorem renames_enumEntry (ordinal : Nat) :
    Renames f (enumEntry g ordinal) (enumEntry g' ordinal) := by
  refine renames_declaredName.bind fun ⟨n, span⟩ => ?_
  have hrest (args : List (Arg ν (Expr ν))) : Renames f
      (eat .comma >>= fun _ => skipLineEnds >>= fun _ => pure (EnumEntry.mk span n args ordinal))
      (eat .comma >>= fun _ => skipLineEnds >>= fun _ =>
        pure (EnumEntry.mk span (f n) (args.map (Arg.mapNames f)) ordinal)) :=
    (renames_eat .comma).bind fun _ => renames_skipLineEnds.bind fun _ => renames_pure rfl
  refine (renames_eat .leftParen).bind fun b => ?_
  cases b with
  | true => exact (renames_callArgs hg).bind hrest
  | false => exact hrest []

theorem renames_enumEntries : Renames f (enumEntries g) (enumEntries g') := by
  refine (renames_loop (fun found => ?_) []).bind fun found => renames_pure List.map_reverse
  refine (renames_eat .rightBrace).bind fun b => ?_
  cases b with
  | true => exact renames_pure rfl
  | false =>
      change Renames f _ (enumEntry g' (found.map (EnumEntry.mapNames f)).length >>= _)
      rw [List.length_map]
      exact (renames_enumEntry hg found.length).bind fun entry => renames_pure rfl

theorem renames_enumDecl : Renames f (enumDecl g) (enumDecl g') := by
  refine (renames_expectWord .enumKey).bind fun span => renames_declaredName.bind fun ⟨n, _⟩ => ?_
  refine (renames_params hg true).bind fun params => (renames_expectLine .leftBrace).bind fun _ => ?_
  refine (renames_enumEntries hg).bind fun entries => renames_pure ?_
  change Stmt.enum span ⟨span, Class.mapNames f _, Entries.mapNames f entries⟩ =
    .enum span ⟨span, ⟨span, Naming.text (f n), _, _, _, _, _⟩, _⟩
  rw [mapNames_class, Renaming.text_eq n, Entries.mapNames_eq_map]
  rfl

/-! ## The grammar -/

theorem renames_stmtStep : Renames f (stmtStep g) (stmtStep g') := by
  refine renames_kind.bind fun k => ?_
  cases k with
  | keyword k =>
      cases k with
      | letKey => exact (renames_declaration hg).inside .declaration
      | varKey => exact (renames_declaration hg).inside .declaration
      | whileKey => exact (renames_whileLoop hg).inside .whileLoop
      | doKey => exact (renames_doLoop hg).inside .doLoop
      | loop => exact (renames_countedLoop hg).inside .loop
      | forKey => exact (renames_forLoop hg).inside .forLoop
      | breakKey => exact renames_jump fun _ _ => rfl
      | continueKey => exact renames_jump fun _ _ => rfl
      | throwKey => exact renames_throwStmt hg
      | catchKey => exact renames_throwStmt hg
      | returnKey =>
          exact renames_leave hg fun span value =>
            congrArg (Stmt.returnValue span) (Expr?.mapNames_eq_map value)
      | exit =>
          exact renames_leave hg fun span value =>
            congrArg (Stmt.exitValue span) (Expr?.mapNames_eq_map value)
      | funKey => exact (renames_function hg).inside .function
      | classKey => exact (renames_classDecl hg).inside .cls
      | object => exact (renames_objectDecl hg).inside .object
      | enumKey => exact (renames_enumDecl hg).inside .enum
      | _ => exact renames_exprStmt hg
  | symbol s =>
      cases s with
      | leftBrace => exact renames_stmtBody hg
      | _ => exact renames_exprStmt hg
  | _ => exact renames_exprStmt hg

omit hg in
/-- Both grammars may nest as deep. -/
theorem renames_grammar (n : Nat) : RenamesGrammar f (grammar n) (grammar n) := by
  induction n with
  | zero => exact ⟨renames_throw _, renames_throw _, renames_throw _, renames_throw _⟩
  | succ n ih =>
      exact {
        expr := renames_exprStep ih
        spread := renames_spreadStep ih
        unary := renames_unaryStep ih
        stmt := renames_stmtStep ih }

end Parser

/-- **Parsing does not depend on what names are.** If names are replaced by others of the same text, and
reserved ones by reserved ones, the same is parsed, under the other names, with the same warnings; or it
is refused with the same error. -/
theorem TokenStream.parse_mapNames {ν μ : Type} [DecidableEq ν] [DecidableEq μ] [Naming ν] [Naming μ]
    {f : ν → μ} [Parser.Renaming f] (stream : TokenStream ν) :
    (stream.mapNames f).parse = stream.parse.map (·.mapNames f) := by
  unfold TokenStream.parse
  rw [Parser.start_mapNames]
  cases Parser.State.start stream with
  | error e => rfl
  | ok s =>
      have hlength : (stream.mapNames f).tokens.length = stream.tokens.length := List.length_map _
      have hrun := Parser.renames_program (f := f)
        (Parser.renames_grammar (2 * stream.tokens.length + 2)) s
      rw [hlength]
      change (Parser.program _ (Parser.rename f s)).bind _ = ((Parser.program _ s).bind _).map _
      rw [hrun]
      cases Parser.program (Parser.grammar (2 * stream.tokens.length + 2)) s with
      | error e => rfl
      | ok read =>
          exact congrArg (fun program => Except.ok (Parsed.mk program read.2.warnings))
            (Stmts.mapNames_eq_map read.1).symm

end IslandScript
