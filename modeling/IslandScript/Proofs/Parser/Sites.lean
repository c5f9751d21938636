import IslandScript.Proofs.Parser.Follows
import IslandScript.Proofs.Syntax.Places

/-!
# Where parsers read

Every span a parser makes is one of its tokens, that of a parameter, which reaches from one token to
another, or where the text stops being tokens. `Yields` says that of a parser: from tokens at the
sites of a set, what it gives fulfils a condition, what it leaves are such tokens again, and its
errors are at those sites. There is a rule for each way to put parsers together, and one for each
parser that looks at a token.
-/

namespace IslandScript.Parser

variable {α β σ : Type}

/-- The sites of the tokens of a text, and all its sites, which are those of parameters too. -/
structure Sites where
  token : Span → Prop
  site : Span → Prop
  site_of_token : ∀ s, token s → site s
  site_of_range : ∀ s t, token s → token t → site (s.rangeTo t)

variable {S : Sites}

/-- A state whose tokens are at the sites of a text, and whose text stops at one. -/
structure State.At (S : Sites) (s : State String) : Prop where
  current : S.token s.current.span
  rest : ∀ t ∈ s.rest, S.token t.span
  ending : ∀ span, s.ending = .ok span → S.token span
  stop : ∀ e, s.ending = .error e → S.site e.span

/-- What is read fulfils `Q` and leaves tokens at the sites of `S`, or an error is at one of them. -/
def ReadsAt (S : Sites) (Q : α → Prop) : Except Failure (α × State String) → Prop
  | .ok (a, s) => s.At S ∧ Q a
  | .error (.error e) => S.site e.span
  | .error .outOfBound => True

/-- From tokens at the sites of `S`, a parser gives what fulfils `Q`, leaves tokens at those sites,
and fails at one. -/
def Yields (S : Sites) (p : Parser String α) (Q : α → Prop) : Prop := ∀ s, s.At S → ReadsAt S Q (p s)

/-- A parser of whose result nothing needs to be said. -/
abbrev Sited (S : Sites) (p : Parser String α) : Prop := Yields S p fun _ => True

/-! ## Composition -/

section

variable {p : Parser String α} {c : α → Parser String β} {Q : α → Prop} {R : β → Prop}

theorem Yields.bind (hp : Yields S p Q) (hc : ∀ a, Q a → Yields S (c a) R) :
    Yields S (p >>= c) R := by
  intro s hs
  have hread := hp s hs
  cases h : p s with
  | error e =>
      rw [h] at hread
      rw [bind_eq_error h]
      cases e with
      | error e => exact hread
      | outOfBound => trivial
  | ok result =>
      obtain ⟨a, mid⟩ := result
      rw [h] at hread
      rw [bind_eq h]
      exact hc a hread.2 mid hread.1

theorem Sited.bind (hp : Sited S p) (hc : ∀ a, Yields S (c a) R) : Yields S (p >>= c) R :=
  Yields.bind hp fun a _ => hc a

theorem Yields.imp {Q' : α → Prop} (hp : Yields S p Q) (h : ∀ a, Q a → Q' a) : Yields S p Q' := by
  intro s hs
  have hread := hp s hs
  cases hr : p s with
  | ok result =>
      rw [hr] at hread
      exact hread.imp_right (h _)
  | error e =>
      rw [hr] at hread
      cases e with
      | error e => exact hread
      | outOfBound => trivial

theorem yields_pure {a : α} (h : Q a) : Yields S (pure a) Q := fun _ hs => ⟨hs, h⟩

theorem Yields.map {f : α → β} (hp : Yields S p Q) (h : ∀ a, Q a → R (f a)) :
    Yields S (f <$> p) R := by
  have hbind : Yields S (p >>= fun a => pure (f a)) R := hp.bind fun a ha => yields_pure (h a ha)
  exact hbind

theorem yields_outOfBound : Yields S (throw .outOfBound : Parser String α) Q := fun _ _ => trivial

theorem yields_fail {kind : ParseErrorKind} {span : Span} (h : S.site span) :
    Yields S (fail kind span : Parser String α) Q :=
  fun _ _ => h

/-- To say where an error is does not move it. -/
theorem Yields.inside (construct : Construct) (hp : Yields S p Q) :
    Yields S (Parser.inside construct p) Q := by
  intro s hs
  have hread := hp s hs
  unfold Parser.inside
  cases h : p s with
  | ok result =>
      rw [h] at hread
      exact hread
  | error e =>
      rw [h] at hread
      cases e with
      | error e => exact hread
      | outOfBound => trivial

theorem yields_get : Yields S (get : Parser String (State String)) (State.At S) := fun _ hs => ⟨hs, hs⟩

theorem sited_modify {f : State String → State String} (h : ∀ s : State String, s.At S → (f s).At S) :
    Sited S (modify f : Parser String Unit) :=
  fun s hs => ⟨h s hs, trivial⟩

end

theorem yields_iterate {round : σ → Parser String (Step σ β)} {I : σ → Prop} {Q : β → Prop}
    (hround : ∀ a, I a → Yields S (round a) (StepHas I Q)) {a : σ} (ha : I a)
    (bound : List (Token String)) : Yields S (iterate bound round a) Q := by
  induction bound generalizing a with
  | nil => exact yields_outOfBound
  | cons t bound ih =>
      rw [iterate_cons]
      refine (hround a ha).bind fun step hstep => ?_
      cases step with
      | again a => exact ih hstep
      | done b => exact yields_pure hstep

/-- A loop gives what each of its rounds keeps to. -/
theorem yields_loop {round : σ → Parser String (Step σ β)} (I : σ → Prop) {Q : β → Prop}
    (hround : ∀ a, I a → Yields S (round a) (StepHas I Q)) {a : σ} (ha : I a) :
    Yields S (loop round a) Q := by
  intro s hs
  rw [loop_apply]
  exact yields_iterate hround ha _ s hs

/-! ## The current token -/

theorem sited_kind : Sited S kind := yields_get.bind fun _ _ => yields_pure trivial

theorem yields_here : Yields S here S.token := yields_get.bind fun _ hs => yields_pure hs.current

theorem sited_at? (s : Symbol) : Sited S (at? s) := sited_kind.bind fun _ => yields_pure trivial

theorem sited_atWord? (k : Keyword) : Sited S (atWord? k) :=
  sited_kind.bind fun _ => yields_pure trivial

theorem yields_advance : Yields S advance fun t => S.token t.span := by
  intro s hs
  unfold advance
  split
  next t rest _ hrest =>
    have htokens := List.forall_mem_cons.mp (hrest ▸ hs.rest)
    exact ⟨⟨htokens.1, htokens.2, hs.ending, hs.stop⟩, hs.current⟩
  next span _ hending => exact ⟨⟨hs.ending span hending, hs.rest, hs.ending, hs.stop⟩, hs.current⟩
  next e _ hending => exact hs.stop e hending

theorem sited_eatKind (expected : TokenKind String) : Sited S (eatKind expected) := by
  refine sited_kind.bind fun found => ?_
  split
  · exact yields_advance.bind fun _ _ => yields_pure trivial
  · exact yields_pure trivial

theorem sited_eat (s : Symbol) : Sited S (eat s) := sited_eatKind _

theorem sited_eatWord (k : Keyword) : Sited S (eatWord k) := sited_eatKind _

theorem yields_expectKind (expected : TokenKind String) :
    Yields S (expectKind expected) S.token := by
  refine yields_get.bind fun s hs => ?_
  dsimp only
  split
  · exact yields_advance.bind fun _ _ => yields_pure hs.current
  · exact yields_fail (S.site_of_token _ hs.current)

theorem yields_expect (s : Symbol) : Yields S (expect s) S.token := yields_expectKind _

theorem yields_expectWord (k : Keyword) : Yields S (expectWord k) S.token := yields_expectKind _

theorem sited_skipLineEnds : Sited S skipLineEnds := by
  refine yields_loop (fun _ => True) (fun _ _ => (sited_eatKind _).bind fun b => ?_) trivial
  split <;> exact yields_pure trivial

theorem sited_eatLine (s : Symbol) : Sited S (eatLine s) := by
  refine (sited_eat s).bind fun b => ?_
  split
  · exact sited_skipLineEnds.bind fun _ => yields_pure trivial
  · exact yields_pure trivial

theorem yields_expectLine (s : Symbol) : Yields S (expectLine s) S.token :=
  (yields_expect s).bind fun _ hspan => sited_skipLineEnds.bind fun _ => yields_pure hspan

/-! ## Names -/

theorem yields_expectName : Yields S expectName fun n => S.token n.2 := by
  refine yields_get.bind fun s hs => ?_
  dsimp only
  split
  · exact yields_advance.bind fun _ _ => yields_pure hs.current
  · exact yields_fail (S.site_of_token _ hs.current)

theorem yields_declaredName : Yields S declaredName fun n => S.token n.2 := by
  refine yields_expectName.bind fun (n, span) hn => ?_
  dsimp only
  split
  · exact yields_fail (S.site_of_token _ hn)
  · refine Sited.bind (sited_modify fun s hs => ?_) fun _ => yields_pure hn
    exact ⟨hs.current, hs.rest, hs.ending, hs.stop⟩

theorem sited_label : Sited S label := by
  refine (sited_eat _).bind fun b => ?_
  split
  · exact yields_expectName.bind fun _ _ => yields_pure trivial
  · exact yields_pure trivial

theorem sited_pattern : Sited S pattern := by
  refine (sited_eat _).bind fun b => ?_
  split
  · refine Sited.bind (yields_loop (fun _ => True) (fun names _ => ?_) trivial) fun names => ?_
    · refine yields_declaredName.bind fun n _ => (sited_eat _).bind fun b => ?_
      split <;> exact yields_pure trivial
    · exact (yields_expect _).bind fun _ _ => yields_pure trivial
  · exact yields_declaredName.bind fun _ _ => yields_pure trivial

theorem sited_linkPath (name : String) : Sited S (linkPath name) :=
  yields_get.bind fun _ _ => yields_pure trivial

theorem Yields.withinClass {p : Parser String α} {Q : α → Prop} (name : String) (hp : Yields S p Q) :
    Yields S (withinClass name p) Q := by
  refine Sited.bind (sited_modify fun s hs => ⟨hs.current, hs.rest, hs.ending, hs.stop⟩) fun _ => ?_
  refine hp.bind fun a ha => ?_
  refine Sited.bind (sited_modify fun s hs => ?_) fun _ => yields_pure ha
  exact ⟨hs.current, hs.rest, hs.ending, hs.stop⟩

/-! ## Lists -/

section

variable {item : Parser String α} {Q : α → Prop}

theorem Yields.commaList (hitem : Yields S item Q) :
    Yields S (commaList item) fun items => ∀ a ∈ items, Q a := by
  have hround (found : List α) (hfound : ∀ a ∈ found, Q a) : Yields S (commaRound item found)
      (StepHas (fun found => ∀ a ∈ found, Q a) fun found => ∀ a ∈ found, Q a) := by
    refine hitem.bind fun a ha => (sited_eatLine _).bind fun b => ?_
    split <;> exact yields_pure (List.forall_mem_cons.mpr ⟨ha, hfound⟩)
  refine (yields_loop _ hround fun _ h => absurd h List.not_mem_nil).bind fun found hfound => yields_pure ?_
  exact fun a ha => hfound a (List.mem_reverse.mp ha)

theorem Yields.untilBrace (hitem : Yields S item Q) :
    Yields S (untilBrace item) fun items => ∀ a ∈ items, Q a := by
  refine Yields.bind (yields_loop (fun found => ∀ a ∈ found, Q a)
    (Q := fun found => ∀ a ∈ found, Q a) (fun found hfound => ?_)
    fun _ h => absurd h List.not_mem_nil) fun found hfound => yields_pure ?_
  · refine (sited_eat _).bind fun b => ?_
    split
    · exact yields_pure hfound
    · refine hitem.bind fun a ha => sited_skipLineEnds.bind fun _ => ?_
      exact yields_pure (List.forall_mem_cons.mpr ⟨ha, hfound⟩)
  · exact fun a ha => hfound a (List.mem_reverse.mp ha)

end

/-- The parsers for nested parts give trees at the sites of tokens. -/
structure GrammarAt (S : Sites) (g : Grammar String) : Prop where
  expr : Yields S g.expr fun e => Covers S.token e.spans
  spread : Yields S g.spread fun e => Covers S.token e.spans
  unary : Yields S g.unary fun e => Covers S.token e.spans
  stmt : Yields S g.stmt fun s => Covers S.token s.spans

end IslandScript.Parser
