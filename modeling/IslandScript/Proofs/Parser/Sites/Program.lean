import IslandScript.Parser.Program
import IslandScript.Proofs.Parser.LineBreak
import IslandScript.Proofs.Parser.Sites.Expression

/-!
# Where programs stand

Statements, declarations and programs. All places of a program that is read from a text are places
of tokens of it (`covers_of_parse`), and an error of the parser is at a token, at a parameter, or
where the text stops being tokens (`constructAt_of_parse`).
-/

namespace IslandScript.Parser

variable {S : Sites} {g : Grammar String}

/-- A statement at sites of tokens. -/
abbrev StmtAt (S : Sites) (s : Stmt String) : Prop := Covers S.token s.spans

/-! ## Statements -/

theorem yields_stmtBody (hg : GrammarAt S g) : Yields S (stmtBody g) (StmtAt S) := by
  refine yields_here.bind fun span hspan => (sited_eatLine _).bind fun b => ?_
  split
  · refine hg.stmt.untilBrace.bind fun stmts hstmts => yields_pure ?_
    exact covers_cons.mpr ⟨hspan, covers_stmts.mpr hstmts⟩
  · exact hg.stmt

theorem yields_declaration (hg : GrammarAt S g) : Yields S (declaration g) (StmtAt S) := by
  have hkeyword : Sited S bindingKeyword := by
    refine (sited_eatWord _).bind fun b => ?_
    split
    · exact yields_pure trivial
    · exact (yields_expectWord _).bind fun _ _ => yields_pure trivial
  refine yields_here.bind fun span hspan => hkeyword.bind fun kind => ?_
  refine (sited_eatWord _).bind fun mutable => sited_pattern.bind fun names => ?_
  refine (yields_expectLine _).bind fun _ _ => hg.expr.bind fun value hvalue => yields_pure ?_
  exact covers_cons.mpr ⟨hspan, hvalue⟩

theorem yields_whileLoop (hg : GrammarAt S g) : Yields S (whileLoop g) (StmtAt S) := by
  refine (yields_expectWord _).bind fun span hspan => sited_label.bind fun label => ?_
  refine (yields_parenthesized hg).bind fun condition hcondition => ?_
  refine (yields_stmtBody hg).bind fun body hbody => yields_pure ?_
  simp [StmtAt, Stmt.spans, hspan, hcondition, hbody]

theorem yields_doLoop (hg : GrammarAt S g) : Yields S (doLoop g) (StmtAt S) := by
  refine (yields_expectWord _).bind fun span hspan => sited_label.bind fun label => ?_
  refine (yields_stmtBody hg).bind fun body hbody => sited_skipLineEnds.bind fun _ => ?_
  refine (yields_expectWord _).bind fun _ _ => ?_
  refine (yields_parenthesized hg).bind fun condition hcondition => yields_pure ?_
  simp [StmtAt, Stmt.spans, hspan, hcondition, hbody]

theorem yields_countedLoop (hg : GrammarAt S g) : Yields S (countedLoop g) (StmtAt S) := by
  have hcount : Yields S (loopCount g) fun e => Covers S.token (Expr?.spans e) := by
    refine (sited_at? _).bind fun b => ?_
    split
    · exact (yields_parenthesized hg).map fun e he => he
    · exact yields_pure covers_nil
  refine (yields_expectWord _).bind fun span hspan => sited_label.bind fun label => ?_
  refine hcount.bind fun count hcount => ?_
  refine (yields_stmtBody hg).bind fun body hbody => yields_pure ?_
  simp [StmtAt, Stmt.spans, hspan, hcount, hbody]

theorem yields_forLoop (hg : GrammarAt S g) : Yields S (forLoop g) (StmtAt S) := by
  refine (yields_expectWord _).bind fun span hspan => sited_label.bind fun label => ?_
  refine (yields_expect _).bind fun _ _ => sited_pattern.bind fun names => ?_
  refine (yields_expect _).bind fun _ _ => hg.expr.bind fun iterable hiterable => ?_
  refine (yields_expect _).bind fun _ _ => ?_
  refine (yields_stmtBody hg).bind fun body hbody => yields_pure ?_
  simp [StmtAt, Stmt.spans, hspan, hiterable, hbody]

theorem yields_jump {make : Span → Option String → Stmt String}
    (h : ∀ span label, S.token span → StmtAt S (make span label)) :
    Yields S (jump make) (StmtAt S) :=
  yields_advance.bind fun _ ht => sited_label.bind fun _ => yields_pure (h _ _ ht)

theorem yields_throwStmt (hg : GrammarAt S g) : Yields S (throwStmt g) (StmtAt S) :=
  yields_advance.bind fun _ ht => hg.expr.bind fun _ he => yields_pure (covers_cons.mpr ⟨ht, he⟩)

theorem yields_leave (hg : GrammarAt S g) {make : Span → Option (Expr String) → Stmt String}
    (h : ∀ span value, S.token span → Covers S.token (Expr?.spans value) →
      StmtAt S (make span value)) : Yields S (leave g make) (StmtAt S) := by
  refine yields_advance.bind fun t ht => sited_kind.bind fun k => ?_
  split
  · exact yields_pure (h _ none ht covers_nil)
  · exact hg.expr.bind fun e he => yields_pure (h _ (some e) ht he)

theorem yields_exprStmt (hg : GrammarAt S g) : Yields S (exprStmt g) (StmtAt S) :=
  yields_here.bind fun _ hspan => hg.expr.bind fun _ he =>
    yields_pure (covers_cons.mpr ⟨hspan, he⟩)

/-! ## Declarations -/

theorem sited_marker (ofClass : Bool) : Sited S (marker ofClass) := by
  unfold marker
  split
  · refine (sited_eatWord _).bind fun b => ?_
    split
    · exact yields_pure trivial
    · refine (sited_eatWord _).bind fun b => ?_
      split <;> exact yields_pure trivial
  · exact yields_pure trivial

/-- A parameter reaches from its first token to its name. -/
theorem yields_param (hg : GrammarAt S g) (ofClass : Bool) :
    Yields S (param g ofClass) (ParamAt S) := by
  refine yields_here.bind fun start hstart => (sited_marker ofClass).bind fun marker => ?_
  refine (sited_eatWord _).bind fun mutable => (sited_eat _).bind fun variadic => ?_
  refine yields_declaredName.bind fun (n, span) hspan => ?_
  have hrange := S.site_of_range _ _ hstart hspan
  dsimp only
  split
  · exact yields_fail (S.site_of_token _ hspan)
  · refine (sited_eat _).bind fun b => ?_
    split
    · refine Yields.bind (Q := fun e => Covers S.token (Expr?.spans e)) (hg.expr.map fun e he => he)
        fun default hdefault => yields_pure ⟨hrange, hdefault⟩
    · exact yields_pure ⟨hrange, covers_nil⟩

theorem yields_nextParam (hg : GrammarAt S g) (ofClass : Bool)
    {before : List (Param String (Expr String))} (h : ∀ p ∈ before, ParamAt S p) :
    Yields S (nextParam g ofClass before) (ParamAt S) := by
  unfold nextParam
  split
  next p _ =>
    split
    · exact yields_fail (h p List.mem_cons_self).1
    · exact yields_param hg ofClass
  · exact yields_param hg ofClass

theorem yields_params (hg : GrammarAt S g) (ofClass : Bool) :
    Yields S (params g ofClass) fun ps => Covers S.token (Params.spans ps) := by
  refine (sited_eat _).bind fun b => ?_
  split
  · refine sited_skipLineEnds.bind fun _ => (sited_eat _).bind fun b => ?_
    split
    · exact yields_pure covers_nil
    · refine Yields.bind (yields_loop (fun found => ∀ p ∈ found, ParamAt S p)
        (Q := fun found => ∀ p ∈ found, ParamAt S p) (fun found hfound => ?_)
        fun _ h => absurd h List.not_mem_nil) fun found hfound => ?_
      · refine (yields_nextParam hg ofClass hfound).bind fun p hp => (sited_eatLine _).bind fun b => ?_
        split <;> exact yields_pure (List.forall_mem_cons.mpr ⟨hp, hfound⟩)
      · refine sited_skipLineEnds.bind fun _ => (yields_expect _).bind fun _ _ => yields_pure ?_
        exact covers_params_of_at fun p hp => hfound p (List.mem_reverse.mp hp)
  · exact yields_pure covers_nil

theorem yields_functionBody (hg : GrammarAt S g) :
    Yields S (functionBody g) fun s => Covers S.token (Stmt?.spans s) := by
  refine (sited_at? _).bind fun b => ?_
  split
  · exact (yields_stmtBody hg).bind fun s hs => yields_pure hs
  · refine (sited_at? _).bind fun b => ?_
    split
    · refine (yields_expectLine _).bind fun span hspan => hg.expr.bind fun e he => yields_pure ?_
      exact covers_cons.mpr ⟨hspan, he⟩
    · exact yields_pure covers_nil

theorem yields_function (hg : GrammarAt S g) : Yields S (function g) (StmtAt S) := by
  refine (yields_expectWord _).bind fun span hspan => (sited_eat _).bind fun linked => ?_
  refine yields_declaredName.bind fun n _ => (yields_params hg false).bind fun ps hps => ?_
  refine (yields_functionBody hg).bind fun body hbody => (sited_linkPath _).bind fun path => ?_
  refine yields_pure ?_
  simp [StmtAt, Stmt.spans, Function.spans, hspan, hps, hbody]

theorem yields_base (hg : GrammarAt S g) :
    Yields S (base g) fun e => Covers S.token (Expr?.spans e) := by
  refine (sited_eat _).bind fun b => ?_
  split
  · exact hg.expr.map fun e he => he
  · exact yields_pure covers_nil

theorem yields_classBody (hg : GrammarAt S g) (name : String) :
    Yields S (classBody g name) fun ss => Covers S.token (Stmts.spans ss) := by
  refine (sited_eatLine _).bind fun b => ?_
  split
  · exact (hg.stmt.untilBrace.imp fun ss hss => covers_stmts.mpr hss).withinClass name
  · exact yields_pure covers_nil

theorem yields_classDecl (hg : GrammarAt S g) : Yields S (classDecl g) (StmtAt S) := by
  refine (yields_expectWord _).bind fun span hspan => (sited_eat _).bind fun linked => ?_
  refine yields_declaredName.bind fun n _ => (yields_params hg true).bind fun ps hps => ?_
  refine (yields_base hg).bind fun base hbase => (yields_classBody hg _).bind fun init hinit => ?_
  refine yields_pure ?_
  simp [StmtAt, Stmt.spans, Class.spans, hspan, hps, hbase, hinit]

theorem yields_objectDecl (hg : GrammarAt S g) : Yields S (objectDecl g) (StmtAt S) := by
  refine (yields_expectWord _).bind fun span hspan => yields_declaredName.bind fun n _ => ?_
  refine (yields_base hg).bind fun base hbase => (yields_classBody hg _).bind fun init hinit => ?_
  refine yields_pure ?_
  simp [StmtAt, Stmt.spans, Class.spans, Params.spans, hspan, hbase, hinit]

theorem yields_enumEntry (hg : GrammarAt S g) (ordinal : Nat) :
    Yields S (enumEntry g ordinal) fun e => S.token e.span ∧ Covers S.token (Args.spans e.args) := by
  refine yields_declaredName.bind fun (n, span) hspan => (sited_eat _).bind fun b => ?_
  have hend (args : List (Arg String (Expr String))) (hargs : Covers S.token (Args.spans args)) :
      Yields S (do
          let _ ← eat .comma
          skipLineEnds
          return (⟨span, n, args, ordinal⟩ : EnumEntry String (Expr String)))
        fun e => S.token e.span ∧ Covers S.token (Args.spans e.args) :=
    (sited_eat _).bind fun _ => sited_skipLineEnds.bind fun _ => yields_pure ⟨hspan, hargs⟩
  cases b with
  | true => exact (yields_callArgs hg).bind hend
  | false => exact hend [] covers_nil

theorem yields_enumDecl (hg : GrammarAt S g) : Yields S (enumDecl g) (StmtAt S) := by
  have hentries : Yields S (enumEntries g) fun es => Covers S.token (Entries.spans es) := by
    refine Yields.bind (yields_loop (fun found => Covers S.token (Entries.spans found))
      (Q := fun found => Covers S.token (Entries.spans found)) (fun found hfound => ?_) covers_nil)
      fun found hfound => yields_pure ?_
    · refine (sited_eat _).bind fun b => ?_
      split
      · exact yields_pure hfound
      · refine (yields_enumEntry hg _).bind fun e he => yields_pure ?_
        exact covers_entries.mpr (List.forall_mem_cons.mpr ⟨he, covers_entries.mp hfound⟩)
    · exact covers_entries.mpr fun e he => covers_entries.mp hfound e (List.mem_reverse.mp he)
  refine (yields_expectWord _).bind fun span hspan => yields_declaredName.bind fun n _ => ?_
  refine (yields_params hg true).bind fun ps hps => (yields_expectLine _).bind fun _ _ => ?_
  refine hentries.bind fun es hes => yields_pure ?_
  simp [StmtAt, Stmt.spans, Class.spans, Stmts.spans, Expr?.spans, hspan, hps, hes]

/-! ## Programs -/

theorem yields_stmtStep (hg : GrammarAt S g) : Yields S (stmtStep g) (StmtAt S) := by
  refine sited_kind.bind fun k => ?_
  split
  · exact (yields_declaration hg).inside _
  · exact (yields_declaration hg).inside _
  · exact (yields_whileLoop hg).inside _
  · exact (yields_doLoop hg).inside _
  · exact (yields_countedLoop hg).inside _
  · exact (yields_forLoop hg).inside _
  · exact yields_jump fun span label h => covers_cons.mpr ⟨h, covers_nil⟩
  · exact yields_jump fun span label h => covers_cons.mpr ⟨h, covers_nil⟩
  · exact yields_throwStmt hg
  · exact yields_throwStmt hg
  · exact yields_leave hg fun span value h hvalue => covers_cons.mpr ⟨h, hvalue⟩
  · exact yields_leave hg fun span value h hvalue => covers_cons.mpr ⟨h, hvalue⟩
  · exact (yields_function hg).inside _
  · exact (yields_classDecl hg).inside _
  · exact (yields_objectDecl hg).inside _
  · exact (yields_enumDecl hg).inside _
  · exact yields_stmtBody hg
  · exact yields_exprStmt hg

/-- Whatever the bound on nesting, the grammar gives trees at sites of tokens. -/
theorem grammarAt (S : Sites) (n : Nat) : GrammarAt S (grammar n) := by
  induction n with
  | zero => exact ⟨yields_outOfBound, yields_outOfBound, yields_outOfBound, yields_outOfBound⟩
  | succ n ih =>
      exact ⟨yields_exprStep ih, yields_spreadStep ih, yields_unaryStep ih, yields_stmtStep ih⟩

theorem yields_program (hg : GrammarAt S g) :
    Yields S (program g) fun p => Covers S.token (Stmts.spans p) := by
  refine sited_skipLineEnds.bind fun _ => ?_
  refine Yields.bind (yields_loop (fun found => ∀ s ∈ found, StmtAt S s)
    (Q := fun found => ∀ s ∈ found, StmtAt S s) (fun found hfound => ?_)
    fun _ h => absurd h List.not_mem_nil) fun found hfound => yields_pure ?_
  · refine sited_kind.bind fun k => ?_
    split
    · exact yields_pure hfound
    · refine hg.stmt.bind fun s hs => sited_skipLineEnds.bind fun _ => yields_pure ?_
      exact List.forall_mem_cons.mpr ⟨hs, hfound⟩
  · exact covers_stmts.mpr fun s hs => hfound s (List.mem_reverse.mp hs)

end IslandScript.Parser

namespace IslandScript

/-! ## Texts -/

variable {text : String} {span : Span}

variable [Text.CharNames]

/-- A span is that of a token of a text, the end of the text being one. -/
def TokenAt (text : String) (span : Span) : Prop :=
  (∃ t ∈ (Lexer.scan text).tokens, t.span = span) ∨ (Lexer.scan text).ending = .ok span

/-- A span is that of a construct of a text: of a token, of a parameter, which reaches from one token
to another, or of where the text stops being tokens. -/
inductive ConstructAt (text : String) : Span → Prop where
  | token {span : Span} (h : TokenAt text span) : ConstructAt text span
  | param {first last : Span} (hfirst : TokenAt text first) (hlast : TokenAt text last) :
      ConstructAt text (first.rangeTo last)
  | stop {e : LexError} (h : (Lexer.scan text).ending = .error e) : ConstructAt text e.span

/-- A token of a text stands somewhere. -/
theorem TokenAt.placed (h : TokenAt text span) : span.isNone = false := by
  rcases h with ⟨t, ht, rfl⟩ | h
  · exact (Lexer.placed_of_mem_scan ht).2
  · exact Lexer.placed_of_ending_scanAll Nat.one_ne_zero h

/-- The sites of a text. -/
def sitesOf (text : String) : Parser.Sites where
  token := TokenAt text
  site := ConstructAt text
  site_of_token _ := .token
  site_of_range _ _ := .param

theorem at_of_start {s : Parser.State String} (h : Parser.State.start (Lexer.scan text) = .ok s) :
    s.At (sitesOf text) := by
  have hending (here : Span) (h : (Lexer.scan text).ending = .ok here) : TokenAt text here := .inr h
  have hstop (e : LexError) (h : (Lexer.scan text).ending = .error e) : ConstructAt text e.span :=
    .stop h
  unfold Parser.State.start at h
  split at h
  next t rest htokens =>
    cases h
    have hrest (x : Token String) (hx : x ∈ t :: rest) : TokenAt text x.span :=
      .inl ⟨x, htokens ▸ hx, rfl⟩
    exact ⟨hrest t List.mem_cons_self, fun x hx => hrest x (List.mem_cons_of_mem _ hx), hending, hstop⟩
  next here _ h' =>
    cases h
    exact ⟨hending here h', fun _ hx => absurd hx List.not_mem_nil, fun _ h => by
      cases h
      exact hending here h', nofun⟩
  · cases h

theorem constructAt_of_start {e : ParseError}
    (h : Parser.State.start (Lexer.scan text) = .error (.error e)) : ConstructAt text e.span := by
  unfold Parser.State.start at h
  split at h
  · cases h
  · cases h
  next h' =>
    cases h
    exact .stop h'

/-- What becomes of a text: a program at places of its tokens, or an error at one of its
constructs. -/
def ParsesAt (text : String) : Except Parser.Failure (Parsed String) → Prop
  | .ok parsed => Covers (TokenAt text) (Stmts.spans parsed.program)
  | .error (.error e) => ConstructAt text e.span
  | .error .outOfBound => True

theorem parsesAt_parse (text : String) : ParsesAt text (parse text) := by
  rw [Parser.parse_eq_bind]
  cases hstart : Parser.State.start (Lexer.scan text) with
  | error failure =>
      cases failure with
      | error e => exact constructAt_of_start hstart
      | outOfBound => trivial
  | ok start =>
      have hgrammar := Parser.grammarAt (sitesOf text) (2 * (Lexer.scan text).tokens.length + 2)
      have hread := Parser.yields_program hgrammar start (at_of_start hstart)
      change ParsesAt text ((Parser.program _ start).bind _)
      cases hprogram : Parser.program
          (Parser.grammar (2 * (Lexer.scan text).tokens.length + 2)) start with
      | ok result =>
          rw [hprogram] at hread
          exact hread.2
      | error failure =>
          rw [hprogram] at hread
          cases failure with
          | error e => exact hread
          | outOfBound => trivial

/-- All places of a program that is read from a text are places of its tokens. -/
theorem covers_of_parse {parsed : Parsed String} (h : parse text = .ok parsed) :
    Covers (TokenAt text) (Stmts.spans parsed.program) := by
  have hparse := parsesAt_parse text
  rwa [h] at hparse

/-- An error of the parser is at a construct of the text. -/
theorem constructAt_of_parse {e : ParseError} (h : parse text = .error (.error e)) :
    ConstructAt text e.span := by
  have hparse := parsesAt_parse text
  rwa [h] at hparse

end IslandScript
