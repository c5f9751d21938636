import IslandScript.Command.Characters
import IslandScript.Parser.Program
import IslandScript.Proofs.Parser.Progress.Statement

/-!
# Parsing comes to an end

A nested call comes behind a token that was consumed, except for the one from a statement to its
expression, so twice the tokens that are left are as deep as calls can nest (`grammar_consumes`). At
the end of the text, where the current token stays what it is, nothing more is read: each parser of
an element fails there, and the loop it is in ends with it.
-/

namespace IslandScript.Parser

variable {E : Prop} {α : Type}

/-! ## Nested calls -/

/-- A block is parsed behind its brace, so only an expression has to consume at the state itself. -/
theorem consumes_stmtStep {g : Grammar String} {s : State String} (hg : g.ConsumesBelow E s.left)
    (hexpr : Consumes E g.expr s) : Consumes E (stmtStep g) s := by
  refine ends_kind.bind fun k s₁ hk => ?_
  obtain ⟨rfl, rfl⟩ := hk
  split
  · exact (consumes_declaration hg).inside _
  · exact (consumes_declaration hg).inside _
  · exact (consumes_whileLoop hg).inside _
  · exact (consumes_doLoop hg).inside _
  · exact (consumes_countedLoop hg).inside _
  · exact (consumes_forLoop hg).inside _
  next h => exact ends_jump (k := 1) (consumes_advance (by rw [h]; exact nofun))
  next h => exact ends_jump (k := 1) (consumes_advance (by rw [h]; exact nofun))
  next h => exact ends_throwStmt (k := 1) (consumes_advance (by rw [h]; exact nofun)) hg (by omega)
  next h => exact ends_throwStmt (k := 1) (consumes_advance (by rw [h]; exact nofun)) hg (by omega)
  next h => exact ends_leave (k := 1) (consumes_advance (by rw [h]; exact nofun)) hg (by omega)
  next h => exact ends_leave (k := 1) (consumes_advance (by rw [h]; exact nofun)) hg (by omega)
  · exact (consumes_function hg).inside _
  · exact (consumes_classDecl hg).inside _
  · exact (consumes_objectDecl hg).inside _
  · exact (consumes_enumDecl hg).inside _
  next h => exact consumes_block hg h
  · exact consumes_exprStmt hexpr

/-- Calls that may nest more than twice as deep as there are tokens left consume one, and statements
may have to nest one call deeper than expressions. -/
theorem grammar_consumes (n : Nat) :
    (∀ s : State String, E ∨ 2 * s.left < n → Consumes E (grammar n).expr s ∧
      Consumes E (grammar n).spread s ∧ Consumes E (grammar n).unary s) ∧
    ∀ s : State String, E ∨ 2 * s.left + 1 < n → Consumes E (grammar n).stmt s := by
  induction n with
  | zero =>
      have hstop {α : Type} {s : State String} {k : Nat} (h : E ∨ k < 0) :
          Consumes E (throw .outOfBound : Parser String α) s := h.resolve_right (Nat.not_lt_zero _)
      exact ⟨fun s h => ⟨hstop h, hstop h, hstop h⟩, fun s h => hstop h⟩
  | succ n ih =>
      obtain ⟨ihexpr, ihstmt⟩ := ih
      -- with a token less left, two nested calls less will do: a statement and its expression
      -- take one each
      have hbelow (s : State String) (h : E ∨ 2 * s.left ≤ n) : (grammar n).ConsumesBelow E s.left :=
        { expr := fun s' hs' => (ihexpr s' (h.imp_right (by omega))).1
          spread := fun s' hs' => (ihexpr s' (h.imp_right (by omega))).2.1
          unary := fun s' hs' => (ihexpr s' (h.imp_right (by omega))).2.2
          stmt := fun s' hs' => ihstmt s' (h.imp_right (by omega)) }
      refine ⟨fun s h => ?_, fun s h => ?_⟩
      · have hg := hbelow s (h.imp_right (by omega))
        exact ⟨consumes_exprStep hg, consumes_spreadStep hg, consumes_unaryStep hg⟩
      · exact consumes_stmtStep (hbelow s (h.imp_right (by omega)))
          (ihexpr s (h.imp_right (by omega))).1

theorem grammar_consumesBelow {n l : Nat} (h : E ∨ 2 * l ≤ n) : (grammar n).ConsumesBelow E l where
  expr s hs := ((grammar_consumes n).1 s (h.imp_right (by omega))).1
  spread s hs := ((grammar_consumes n).1 s (h.imp_right (by omega))).2.1
  unary s hs := ((grammar_consumes n).1 s (h.imp_right (by omega))).2.2
  stmt s hs := (grammar_consumes n).2 s (h.imp_right (by omega))

/-! ## The parsers of the language -/

/-- The parsers of what is nested or repeated: each reads at least a token. -/
inductive Element (g : Grammar String) : {α : Type} → Parser String α → Prop
  | expr : Element g g.expr
  | spread : Element g g.spread
  | unary : Element g g.unary
  | stmt : Element g g.stmt
  | stmtBody : Element g (stmtBody g)
  | exprBody : Element g (exprBody g)
  | bodyItem : Element g (bodyItem g)
  | branch : Element g (branch g)
  | elseBranch : Element g (elseBranch g)
  | indexArg : Element g (indexArg g)
  | callArg : Element g (callArg g)
  | lambdaParam : Element g lambdaParam
  | param (ofClass before) : Element g (nextParam g ofClass before)
  | enumEntry (ordinal) : Element g (enumEntry g ordinal)
  | declaredName : Element g declaredName

/-- The parsers of all parts of the language, from line ends to programs: where there are loops or
nested calls, they are in one of these. -/
inductive Rule (g : Grammar String) : {α : Type} → Parser String α → Prop
  | element {α : Type} {p : Parser String α} : Element g p → Rule g p
  | skipLineEnds : Rule g skipLineEnds
  | label : Rule g label
  | pattern : Rule g pattern
  | commaList {α : Type} {item : Parser String α} : Element g item → Rule g (commaList item)
  | untilBrace {α : Type} {item : Parser String α} : Element g item → Rule g (untilBrace item)
  | parenthesized : Rule g (parenthesized g)
  | ifElse : Rule g (ifElse g)
  | branches : Rule g (branches g)
  | subject : Rule g subject
  | whenCase : Rule g (whenCase g)
  | caughtName : Rule g caughtName
  | catchPart : Rule g (catchPart g)
  | finallyPart : Rule g (finallyPart g)
  | tryCatch : Rule g (tryCatch g)
  | comprehension (span element) : Rule g (comprehension g span element)
  | listExpr : Rule g (listExpr g)
  | lambdaParams : Rule g lambdaParams
  | lambda : Rule g (lambda g)
  | terminal : Rule g (terminal g)
  | indexArgs : Rule g (indexArgs g)
  | callArgs : Rule g (callArgs g)
  | postfixed : Rule g (postfixed g)
  | unaryStep : Rule g (unaryStep g)
  | infixed : Rule g (infixed g)
  | spreadStep : Rule g (spreadStep g)
  | exprStep : Rule g (exprStep g)
  | bindingKeyword : Rule g bindingKeyword
  | declaration : Rule g (declaration g)
  | whileLoop : Rule g (whileLoop g)
  | doLoop : Rule g (doLoop g)
  | loopCount : Rule g (loopCount g)
  | countedLoop : Rule g (countedLoop g)
  | forLoop : Rule g (forLoop g)
  | jump (make) : Rule g (jump make)
  | throwStmt : Rule g (throwStmt g)
  | leave (make) : Rule g (leave g make)
  | exprStmt : Rule g (exprStmt g)
  | marker (ofClass) : Rule g (marker ofClass)
  | paramList (ofClass) : Rule g (paramList g ofClass)
  | params (ofClass) : Rule g (params g ofClass)
  | functionBody : Rule g (functionBody g)
  | function : Rule g (function g)
  | base : Rule g (base g)
  | classBody (name) : Rule g (classBody g name)
  | classDecl : Rule g (classDecl g)
  | objectDecl : Rule g (objectDecl g)
  | enumEntries : Rule g (enumEntries g)
  | enumDecl : Rule g (enumDecl g)
  | stmtStep : Rule g (stmtStep g)
  | program : Rule g (program g)

section

variable {g : Grammar String} {s : State String} {p : Parser String α}

theorem Element.consumes (hp : Element g p) {l : Nat} (hg : g.ConsumesBelow E l) (hs : s.left < l) :
    Consumes E p s := by
  have hbelow : g.ConsumesBelow E s.left := hg.mono (Nat.le_of_lt hs)
  cases hp with
  | expr => exact hg.expr s hs
  | spread => exact hg.spread s hs
  | unary => exact hg.unary s hs
  | stmt => exact hg.stmt s hs
  | stmtBody => exact consumes_stmtBody hg hs
  | exprBody => exact consumes_exprBody hg hs
  | bodyItem => exact consumes_bodyItem hg hs
  | branch => exact consumes_branch hg hs
  | elseBranch => exact consumes_elseBranch hbelow
  | indexArg => exact consumes_indexArg hg hs
  | callArg => exact consumes_callArg hg hs
  | lambdaParam => exact consumes_lambdaParam
  | param ofClass before => exact consumes_nextParam hbelow ofClass before
  | enumEntry ordinal => exact consumes_enumEntry hbelow ordinal
  | declaredName => exact consumes_declaredName

/-- A program is read until no token is left. -/
theorem advances_program {l : Nat} (hg : g.ConsumesBelow E l) (hs : s.left < l) :
    Advances E (program g) s := by
  refine advances_skipLineEnds.bind fun _ s₁ h₁ => ?_
  refine Ends.bind (Q := fun _ s' => s'.left ≤ s.left)
    (ends_loop (I := fun s' => s'.left ≤ s.left) (fun found s₂ h₂ => ?_) h₁)
    fun found s₂ h₂ => ends_pure h₂
  refine ends_kind.bind fun k s₃ hk => ?_
  obtain ⟨rfl, rfl⟩ := hk
  split
  · exact ends_pure h₂
  · refine (hg.stmt _ (by omega)).bind fun stmt s₄ h₄ => advances_skipLineEnds.bind fun _ s₅ h₅ => ?_
    exact ends_pure ⟨by omega, by omega⟩

/-- No parser needs more than that the nested ones consume. -/
theorem Rule.advances (hp : Rule g p) {l : Nat} (hg : g.ConsumesBelow E l) (hs : s.left < l) :
    Advances E p s := by
  have hbelow : g.ConsumesBelow E s.left := hg.mono (Nat.le_of_lt hs)
  cases hp with
  | element h => exact (h.consumes hg hs).advances
  | skipLineEnds => exact advances_skipLineEnds
  | label => exact advances_label
  | pattern => exact consumes_pattern.advances
  | commaList h =>
      exact (Consumes.commaList fun s' hs' => h.consumes hg (Nat.lt_of_le_of_lt hs' hs)).advances
  | untilBrace h =>
      exact (Consumes.untilBrace fun s' hs' => h.consumes hg (Nat.lt_of_le_of_lt hs' hs)).advances
  | parenthesized => exact (consumes_parenthesized hbelow).advances
  | ifElse => exact (consumes_ifElse hbelow).advances
  | branches => exact advances_branches hg hs
  | subject => exact advances_subject
  | whenCase => exact (consumes_whenCase hbelow).advances
  | caughtName => exact advances_caughtName
  | catchPart => exact advances_catchPart hbelow
  | finallyPart => exact advances_finallyPart hbelow
  | tryCatch => exact (consumes_tryCatch hbelow).advances
  | comprehension => exact (consumes_comprehension hbelow).advances
  | listExpr => exact (consumes_listExpr hbelow).advances
  | lambdaParams => exact consumes_lambdaParams.advances
  | lambda => exact (consumes_lambda hbelow).advances
  | terminal => exact (consumes_terminal hbelow).advances
  | indexArgs => exact (consumes_indexArgs hg hs).advances
  | callArgs => exact (consumes_callArgs hg hs).advances
  | postfixed => exact (consumes_postfixed hbelow).advances
  | unaryStep => exact (consumes_unaryStep hbelow).advances
  | infixed => exact (consumes_infixed hbelow).advances
  | spreadStep => exact (consumes_spreadStep hbelow).advances
  | exprStep => exact (consumes_exprStep hbelow).advances
  | bindingKeyword => exact consumes_bindingKeyword.advances
  | declaration => exact (consumes_declaration hbelow).advances
  | whileLoop => exact (consumes_whileLoop hbelow).advances
  | doLoop => exact (consumes_doLoop hbelow).advances
  | loopCount => exact advances_loopCount hbelow
  | countedLoop => exact (consumes_countedLoop hbelow).advances
  | forLoop => exact (consumes_forLoop hbelow).advances
  | jump make => exact ends_jump (k := 0) advances_advance
  | throwStmt => exact ends_throwStmt (k := 0) advances_advance hg hs
  | leave make => exact ends_leave (k := 0) advances_advance hg hs
  | exprStmt => exact (consumes_exprStmt (hg.expr s hs)).advances
  | marker ofClass => exact advances_marker ofClass
  | paramList ofClass => exact (consumes_paramList hbelow (Nat.le_refl _) ofClass).advances
  | params ofClass => exact advances_params hbelow ofClass
  | functionBody => exact advances_functionBody hbelow
  | function => exact (consumes_function hbelow).advances
  | base => exact advances_base hbelow
  | classBody name => exact advances_classBody hbelow name
  | classDecl => exact (consumes_classDecl hbelow).advances
  | objectDecl => exact (consumes_objectDecl hbelow).advances
  | enumEntries => exact (consumes_enumEntries hbelow (Nat.le_refl _)).advances
  | enumDecl => exact (consumes_enumDecl hbelow).advances
  | stmtStep => exact (consumes_stmtStep hbelow (hg.expr s hs)).advances
  | program => exact advances_program hg hs

end

/-! ## Texts -/

/-- There are no more tokens left than the stream has. -/
theorem State.left_start {stream : TokenStream String} {s : State String}
    (h : State.start stream = .ok s) : s.left ≤ stream.tokens.length := by
  obtain ⟨tokens, ending⟩ := stream
  cases tokens with
  | cons t rest =>
      cases h
      simp only [State.left, List.length_cons]
      split <;> omega
  | nil =>
      cases ending with
      | ok span =>
          cases h
          exact Nat.le_refl _
      | error e => cases h

theorem State.start_ne_outOfBound (stream : TokenStream String) :
    State.start stream ≠ .error .outOfBound := by
  obtain ⟨tokens, ending⟩ := stream
  cases tokens with
  | cons t rest => exact nofun
  | nil => cases ending <;> exact nofun

variable {n : Nat} {p : Parser String α} {s : State String}

/-- What an element reads is more than nothing, however deep calls may nest. -/
theorem Element.left_lt (hp : Element (grammar n) p) {a : α} {s' : State String}
    (h : p s = .ok (a, s')) : s'.left < s.left :=
  (hp.consumes (grammar_consumesBelow (.inl True.intro)) (Nat.lt_succ_self s.left)).of_ok h

/-- No parser goes back. -/
theorem Rule.left_le (hp : Rule (grammar n) p) {a : α} {s' : State String} (h : p s = .ok (a, s')) :
    s'.left ≤ s.left :=
  (hp.advances (grammar_consumesBelow (.inl True.intro)) (Nat.lt_succ_self s.left)).of_ok h

/-- Twice the tokens that are left and two is deep enough for any parser. -/
theorem Rule.ne_outOfBound (hp : Rule (grammar n) p) (h : 2 * s.left + 2 ≤ n) :
    p s ≠ .error .outOfBound :=
  (hp.advances (grammar_consumesBelow (.inr h)) (Nat.lt_succ_self s.left)).of_outOfBound

/-- At the end of the text no element can be read. -/
theorem Element.error_of_left_eq_zero (hp : Element (grammar n) p) (hs : s.left = 0) (hn : 2 ≤ n) :
    ∃ e, p s = .error (.error e) := by
  have hbound : p s ≠ .error .outOfBound := (Rule.element hp).ne_outOfBound (by omega)
  cases h : p s with
  | ok result => exact absurd (hp.left_lt h) (hs ▸ Nat.not_lt_zero _)
  | error e =>
      cases e with
      | error e => exact ⟨e, rfl⟩
      | outOfBound => exact absurd h hbound

theorem stream_ne_outOfBound (stream : TokenStream String) : stream.parse ≠ .error .outOfBound := by
  unfold TokenStream.parse
  cases hstart : State.start stream with
  | error e =>
      intro h
      cases h
      exact State.start_ne_outOfBound stream hstart
  | ok start =>
      have hleft : start.left ≤ stream.tokens.length := State.left_start hstart
      have hprogram : program (grammar (2 * stream.tokens.length + 2)) start ≠ .error .outOfBound :=
        Rule.program.ne_outOfBound (by omega)
      change Except.bind (program _ start) _ ≠ _
      cases h : program (grammar (2 * stream.tokens.length + 2)) start with
      | ok result => exact nofun
      | error e =>
          intro hparse
          cases hparse
          exact hprogram h

/-- Parsing always ends: every text has a program or an error. An element that is read has consumed a
token, and no parser goes back to a token it has moved past, so nothing is parsed twice. At the end of
the text an element is an error, and no parser goes on there for more than two nested calls and two
rounds of a loop. No parser runs out of the bounds on the nesting of calls, twice the tokens that are
left and two, and on the rounds of each loop, two more than there are tokens left. -/
theorem parse_ends [Text.CharNames] :
    (∀ text, (∃ parsed, parse text = .ok parsed) ∨ ∃ e, parse text = .error (.error e)) ∧
    (∀ (n : Nat) {α : Type} (p : Parser String α) (s s' : State String) (a : α), p s = .ok (a, s') →
      (Element (grammar n) p → s'.left < s.left) ∧ (Rule (grammar n) p → s'.left ≤ s.left)) ∧
    (∀ {α : Type} (p : Parser String α) (s : State String), s.current.kind = .endOfFile → s.rest = [] →
      (Element (grammar 2) p → ∃ e, p s = .error (.error e)) ∧
      (Rule (grammar 2) p → p s ≠ .error .outOfBound)) ∧
    (∀ (n : Nat) {α : Type} (p : Parser String α) (s : State String), Rule (grammar n) p → 2 * s.left + 2 ≤ n →
      p s ≠ .error .outOfBound) ∧
    ∀ {σ β : Type} (round : σ → Parser String (Step σ β)) (a : σ) (s : State String),
      ∃ bound : List (Token String),
        bound.length ≤ s.left + 2 ∧ loop round a s = iterate bound round a s := by
  refine ⟨fun text => ?_, fun n α p s s' a h => ⟨fun hp => hp.left_lt h, fun hp => hp.left_le h⟩,
    fun p s hend hrest => ?_, fun n α p s hp h => hp.ne_outOfBound h,
    fun round a s => ⟨s.current :: s.current :: s.rest, ?_, loop_apply⟩⟩
  · cases h : parse text with
    | ok parsed => exact .inl ⟨parsed, rfl⟩
    | error e =>
        cases e with
        | error e => exact .inr ⟨e, rfl⟩
        | outOfBound => exact absurd h (stream_ne_outOfBound _)
  · have hleft : s.left = 0 := by simp [State.left, hend, hrest]
    exact ⟨fun hp => hp.error_of_left_eq_zero hleft (Nat.le_refl _),
      fun hp => hp.ne_outOfBound (by omega)⟩
  · simp only [State.left, List.length_cons]
    omega

attribute [local instance] Command.charNames

/-- Behind the bracket of `[x` an element is read from the name, and none from the end behind it. -/
theorem parse_ends_open_list :
    let x : State String := ⟨⟨⟨1, 2, 2⟩, .name "x"⟩, [], .ok ⟨1, 2, 2⟩, [], []⟩
    let ending : State String := ⟨⟨⟨1, 2, 2⟩, .endOfFile⟩, [], .ok ⟨1, 2, 2⟩, [], []⟩
    (grammar 4).expr x = .ok (.name ⟨1, 2, 2⟩ "x", ending) ∧ ending.left < x.left ∧
      (∃ e, (grammar 2).expr ending = .error (.error e)) ∧
      branches (grammar 2) ending ≠ .error .outOfBound ∧
      2 * x.left + 2 ≤ 4 ∧ commaList (grammar 4).expr x ≠ .error .outOfBound := by
  intro x ending
  have hread : (grammar 4).expr x = .ok (.name ⟨1, 2, 2⟩ "x", ending) := rfl
  have hbound : 2 * x.left + 2 ≤ 4 := by decide
  exact ⟨hread, (parse_ends.2.1 4 _ x ending _ hread).1 .expr,
    (parse_ends.2.2.1 _ ending rfl rfl).1 .expr, (parse_ends.2.2.1 _ ending rfl rfl).2 .branches,
    hbound, parse_ends.2.2.2.1 4 _ x (.commaList .expr) hbound⟩

end IslandScript.Parser
