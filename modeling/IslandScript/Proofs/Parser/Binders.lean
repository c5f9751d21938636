import IslandScript.Proofs.Parser.Follows
import IslandScript.Proofs.Syntax.Binders

/-!
# What parsers bind

Every name that a tree binds was read from a token, in the order of the source. `Binds` says that of
a parser: behind what was bound before, it passes the tokens of the names that the result binds,
warns about those of underscores only, and about nothing else, and none of them is reserved. The
parameters of lambdas alone are read as any name is, without a warning and reserved or not.
-/

namespace IslandScript

/-- A name where it is bound. -/
structure Occurrence where
  binder : Binder String
  span : Span
  deriving DecidableEq, Repr

namespace Occurrence

/-- The token of the name. -/
def token (o : Occurrence) : Token String := ⟨o.span, .name o.binder.name⟩

/-- The name of a lambda's parameter. -/
def OfLambda (o : Occurrence) : Prop := o.binder.kind = .lambdaParameter

instance (o : Occurrence) : Decidable o.OfLambda := decEq _ _

/-- The warning about the name: `_` is discarded, more underscores are vague. There is none about the
parameters of lambdas. -/
def warning? (o : Occurrence) : Option ParseWarning :=
  if o.OfLambda then none
  else if o.binder.name = "_" then some (.discardedName o.span)
  else if o.binder.name ≠ "" ∧ o.binder.name.toList.all (· == '_') then some (.vagueName o.span)
  else none

end Occurrence

namespace Parser

variable {α β σ : Type} {before : List (Binder String)}

/-- The tokens from the current one on. -/
def State.pending (s : State String) : List (Token String) :=
  (s.current :: s.rest).filter (·.kind != .endOfFile)

/-- From one state to another the tokens of names are passed where the names are bound. -/
structure Passed (os : List Occurrence) (s s' : State String) : Prop where
  tokens : (os.map (·.token) ++ s'.pending).Sublist s.pending
  notReserved : ∀ o ∈ os, ¬ o.OfLambda → isReserved o.binder.name = false
  warnings : s'.warnings = s.warnings ++ os.filterMap (·.warning?)

/-- Behind what was bound before, a parser passes the names that its result binds besides. -/
def Binds (before : List (Binder String)) (p : Parser String α) (all : α → List (Binder String)) : Prop :=
  ∀ s a s', p s = .ok (a, s') → ∃ os, Passed os s s' ∧ all a = before ++ os.map (·.binder)

/-- A parser whose result binds nothing. -/
abbrev Silent (p : Parser String α) : Prop := Binds [] p fun _ => []

theorem Passed.trans {os os' : List Occurrence} {s mid s' : State String} (h : Passed os s mid)
    (h' : Passed os' mid s') : Passed (os ++ os') s s' where
  tokens := by
    rw [List.map_append, List.append_assoc]
    exact (h'.tokens.append_left _).trans h.tokens
  notReserved o ho := (List.mem_append.mp ho).elim (h.notReserved o) (h'.notReserved o)
  warnings := by rw [h'.warnings, h.warnings, List.filterMap_append, List.append_assoc]

/-- Passing tokens binds nothing. -/
theorem Passed.none {s s' : State String} (htokens : s'.pending.Sublist s.pending)
    (hwarnings : s'.warnings = s.warnings) : Passed [] s s' where
  tokens := htokens
  notReserved _ ho := (List.not_mem_nil ho).elim
  warnings := hwarnings.trans (List.append_nil _).symm

theorem Passed.refl (s : State String) : Passed [] s s := .none (.refl _) rfl

/-! ## Composition -/

section

variable {p : Parser String α} {c : α → Parser String β} {own : α → List (Binder String)}
variable {all : β → List (Binder String)}

theorem Binds.bind {f : α → List (Binder String)} (hp : Binds [] p f)
    (hc : ∀ a, Binds (before ++ f a) (c a) all) : Binds before (p >>= c) all := by
  intro s b s' hrun
  obtain ⟨a, mid, hfirst, hsecond⟩ := bind_eq_ok.mp hrun
  obtain ⟨os, hos, hown⟩ := hp s a mid hfirst
  obtain ⟨os', hos', hall⟩ := hc a mid b s' hsecond
  refine ⟨os ++ os', hos.trans hos', ?_⟩
  rw [hall, hown, List.nil_append, List.map_append, List.append_assoc]

theorem Silent.bind (hp : Silent p) (hc : ∀ a, Binds before (c a) all) :
    Binds before (p >>= c) all :=
  Binds.bind hp fun a => (List.append_nil before).symm ▸ hc a

theorem binds_pure {a : α} (h : own a = before) : Binds before (pure a) own := by
  intro s _ s' hrun
  cases hrun
  exact ⟨[], .refl s, h.trans (List.append_nil _).symm⟩

theorem Binds.map {f : α → β} (hp : Binds [] p own) (h : ∀ a, all (f a) = own a) :
    Binds [] (f <$> p) all := by
  have hbind : Binds [] (p >>= fun a => pure (f a)) all := hp.bind fun a => binds_pure (h a)
  exact hbind

theorem binds_throw {failure : Failure} : Binds before (throw failure : Parser String α) own :=
  fun _ _ _ hrun => nomatch hrun

theorem binds_fail {kind : ParseErrorKind} {span : Span} :
    Binds before (fail kind span : Parser String α) own :=
  binds_throw

theorem Binds.inside (construct : Construct) (hp : Binds before p own) :
    Binds before (Parser.inside construct p) own := by
  intro s a s' hrun
  unfold Parser.inside at hrun
  split at hrun
  · cases hrun
  · exact hp s a s' hrun

theorem silent_get : Silent (get : Parser String (State String)) := by
  intro s a s' hrun
  cases hrun
  exact ⟨[], .refl s, rfl⟩

theorem silent_modify {f : State String → State String} (hpending : ∀ s : State String, (f s).pending = s.pending)
    (hwarnings : ∀ s : State String, (f s).warnings = s.warnings) :
    Silent (modify f : Parser String Unit) := by
  intro s a s' hrun
  cases hrun
  exact ⟨[], .none (hpending s ▸ .refl _) (hwarnings s), rfl⟩

end

/-- What is bound behind a round of a loop. -/
def StepBinders (I : σ → List (Binder String)) (all : β → List (Binder String)) :
    Step σ β → List (Binder String)
  | .again a => I a
  | .done b => all b

theorem binds_iterate {round : σ → Parser String (Step σ β)} {I : σ → List (Binder String)}
    {all : β → List (Binder String)} (hround : ∀ a, Binds (I a) (round a) (StepBinders I all))
    (bound : List (Token String)) (a : σ) : Binds (I a) (iterate bound round a) all := by
  induction bound generalizing a with
  | nil => exact binds_throw
  | cons t bound ih =>
      intro s b s' hrun
      rw [iterate_cons] at hrun
      obtain ⟨step, mid, hfirst, hsecond⟩ := bind_eq_ok.mp hrun
      obtain ⟨os, hos, hown⟩ := hround a s step mid hfirst
      cases step with
      | again a' =>
          obtain ⟨os', hos', hall⟩ := ih a' mid b s' hsecond
          refine ⟨os ++ os', hos.trans hos', ?_⟩
          rw [hall, show I a' = _ from hown, List.map_append, List.append_assoc]
      | done b' =>
          cases hsecond
          exact ⟨os, hos, hown⟩

/-- A loop binds what its rounds bind, if `I` tells what is bound before each. -/
theorem binds_loop {round : σ → Parser String (Step σ β)} (I : σ → List (Binder String))
    {all : β → List (Binder String)} (hround : ∀ a, Binds (I a) (round a) (StepBinders I all))
    {a : σ} (ha : I a = before) : Binds before (loop round a) all := by
  subst ha
  intro s b s' hrun
  rw [loop_apply] at hrun
  exact binds_iterate hround _ a s b s' hrun

/-! ## The current token -/

theorem silent_kind : Silent kind := silent_get.bind fun _ => binds_pure rfl

theorem silent_here : Silent here := silent_get.bind fun _ => binds_pure rfl

theorem silent_at? (s : Symbol) : Silent (at? s) := silent_kind.bind fun _ => binds_pure rfl

theorem silent_atWord? (k : Keyword) : Silent (atWord? k) := silent_kind.bind fun _ => binds_pure rfl

/-- Moving on passes the current token. -/
theorem pending_of_advance {s s' : State String} {t : Token String} (h : advance s = .ok (t, s')) :
    s'.pending.Sublist (s.rest.filter (·.kind != .endOfFile)) ∧ s'.warnings = s.warnings := by
  unfold advance at h
  split at h
  next t rest _ hrest =>
    cases h
    exact ⟨hrest ▸ .refl _, rfl⟩
  next span hrest _ =>
    cases h
    rw [State.pending, hrest]
    exact ⟨.refl _, rfl⟩
  · cases h

theorem silent_advance : Silent advance := by
  intro s t s' hrun
  obtain ⟨hpending, hwarnings⟩ := pending_of_advance hrun
  exact ⟨[], .none (hpending.trans ((List.sublist_cons_self _ _).filter _)) hwarnings, rfl⟩

theorem silent_eatKind (expected : TokenKind String) : Silent (eatKind expected) := by
  refine silent_kind.bind fun found => ?_
  split
  · exact silent_advance.bind fun _ => binds_pure rfl
  · exact binds_pure rfl

theorem silent_eat (s : Symbol) : Silent (eat s) := silent_eatKind _

theorem silent_eatWord (k : Keyword) : Silent (eatWord k) := silent_eatKind _

theorem silent_expectKind (expected : TokenKind String) : Silent (expectKind expected) := by
  refine silent_get.bind fun s => ?_
  dsimp only
  split
  · exact silent_advance.bind fun _ => binds_pure rfl
  · exact binds_fail

theorem silent_expect (s : Symbol) : Silent (expect s) := silent_expectKind _

theorem silent_expectWord (k : Keyword) : Silent (expectWord k) := silent_expectKind _

theorem silent_skipLineEnds : Silent skipLineEnds := by
  refine binds_loop (fun _ => []) (fun _ => (silent_eatKind _).bind fun b => ?_) rfl
  split <;> exact binds_pure rfl

theorem silent_eatLine (s : Symbol) : Silent (eatLine s) := by
  refine (silent_eat s).bind fun b => ?_
  split
  · exact silent_skipLineEnds.bind fun _ => binds_pure rfl
  · exact binds_pure rfl

theorem silent_expectLine (s : Symbol) : Silent (expectLine s) :=
  (silent_expect s).bind fun _ => silent_skipLineEnds.bind fun _ => binds_pure rfl

/-! ## Names -/

/-- The name that is read is the current token. -/
theorem pending_of_expectName {s s' : State String} {n : String} {span : Span}
    (h : expectName s = .ok ((n, span), s')) :
    ((⟨span, .name n⟩ : Token String) :: s'.pending).Sublist s.pending ∧
      s'.warnings = s.warnings := by
  obtain ⟨_, _, hget, h⟩ := bind_eq_ok.mp h
  cases hget
  cases hkind : s.current.kind with
  | name n' =>
      rw [hkind] at h
      obtain ⟨t, mid, hadvance, hpure⟩ := bind_eq_ok.mp h
      cases hpure
      obtain ⟨hpending, hwarnings⟩ := pending_of_advance hadvance
      have htoken : (⟨s.current.span, .name n⟩ : Token String) = s.current := by rw [← hkind]
      have hpassed : s.pending = s.current :: s.rest.filter (·.kind != .endOfFile) :=
        List.filter_cons_of_pos (by rw [hkind]; rfl)
      rw [htoken, hpassed]
      exact ⟨hpending.cons_cons _, hwarnings⟩
  | _ =>
      rw [hkind] at h
      cases h

theorem silent_expectName : Silent expectName := by
  intro s ⟨n, span⟩ s' hrun
  obtain ⟨hpending, hwarnings⟩ := pending_of_expectName hrun
  exact ⟨[], .none ((List.sublist_cons_self _ _).trans hpending) hwarnings, rfl⟩

/-- The warning about a name that is declared is the one about its occurrence. -/
theorem underscoreWarning?_eq {kind : BinderKind} (hkind : kind ≠ .lambdaParameter) (n : String)
    (span : Span) : underscoreWarning? n span = Occurrence.warning? ⟨⟨kind, n⟩, span⟩ := by
  have hlambda : ¬ Occurrence.OfLambda ⟨⟨kind, n⟩, span⟩ := hkind
  unfold underscoreWarning? Occurrence.warning?
  simp [hlambda]

/-- A name that is declared is validated. -/
theorem binds_declaredName {k : BinderKind} (hkind : k ≠ .lambdaParameter) :
    Binds [] declaredName fun n => [⟨k, n.1⟩] := by
  intro s a s' hrun
  obtain ⟨⟨n, span⟩, mid, hname, h⟩ := bind_eq_ok.mp hrun
  obtain ⟨hpending, hwarnings⟩ := pending_of_expectName hname
  dsimp only at h
  split at h
  · cases h
  next hreserved =>
    cases h
    refine ⟨[⟨⟨k, n⟩, span⟩], ⟨hpending, fun o ho _ => ?_, ?_⟩, rfl⟩
    · rw [List.mem_singleton.mp ho]
      exact Bool.not_eq_true _ ▸ hreserved
    · dsimp only
      rw [hwarnings, underscoreWarning?_eq hkind, List.filterMap_cons, List.filterMap_nil]
      cases Occurrence.warning? ⟨⟨k, n⟩, span⟩ <;> rfl

theorem silent_label : Silent label := by
  refine (silent_eat _).bind fun b => ?_
  split
  · exact silent_expectName.bind fun _ => binds_pure rfl
  · exact binds_pure rfl

theorem binds_pattern {k : BinderKind} (hkind : k ≠ .lambdaParameter) :
    Binds [] pattern (Pattern.binders k) := by
  refine (silent_eat _).bind fun b => ?_
  split
  · refine Binds.bind (f := fun names => names.reverse.map (⟨k, ·⟩))
      (binds_loop (fun names => names.reverse.map (⟨k, ·⟩)) (fun names => ?_) rfl) fun names => ?_
    · refine (binds_declaredName hkind).bind fun n => (silent_eat _).bind fun b => ?_
      split <;> exact binds_pure (by simp [StepBinders])
    · exact (silent_expect _).bind fun _ => binds_pure rfl
  · exact (binds_declaredName hkind).bind fun _ => binds_pure rfl

theorem silent_linkPath (name : String) : Silent (linkPath name) :=
  silent_get.bind fun _ => binds_pure rfl

theorem Binds.withinClass {p : Parser String α} {own : α → List (Binder String)} (name : String)
    (hp : Binds [] p own) : Binds [] (withinClass name p) own :=
  Silent.bind (silent_modify (fun _ => rfl) fun _ => rfl) fun _ => hp.bind fun _ =>
    Silent.bind (silent_modify (fun _ => rfl) fun _ => rfl) fun _ => binds_pure rfl

/-! ## Lists -/

section

variable {item : Parser String α} {own : α → List (Binder String)}

theorem Binds.commaList (hitem : Binds [] item own) :
    Binds [] (commaList item) (List.flatMap own) := by
  refine Binds.bind (f := fun found => found.reverse.flatMap own)
    (binds_loop (fun found => found.reverse.flatMap own) (fun found => ?_) rfl)
    fun found => binds_pure rfl
  refine hitem.bind fun a => (silent_eatLine _).bind fun b => ?_
  split <;> exact binds_pure (by simp [StepBinders])

theorem Binds.untilBrace (hitem : Binds [] item own) :
    Binds [] (untilBrace item) (List.flatMap own) := by
  refine Binds.bind (f := fun found => found.reverse.flatMap own)
    (binds_loop (fun found => found.reverse.flatMap own) (fun found => ?_) rfl)
    fun found => binds_pure rfl
  refine (silent_eat _).bind fun b => ?_
  split
  · exact binds_pure rfl
  · refine hitem.bind fun a => silent_skipLineEnds.bind fun _ => binds_pure ?_
    simp [StepBinders]

end

/-- The parsers for nested parts pass the names that their trees bind. -/
structure GrammarBinds (g : Grammar String) : Prop where
  expr : Binds [] g.expr Expr.binders
  spread : Binds [] g.spread Expr.binders
  unary : Binds [] g.unary Expr.binders
  stmt : Binds [] g.stmt Stmt.binders

end Parser
end IslandScript
