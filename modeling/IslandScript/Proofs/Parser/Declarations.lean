import IslandScript.Proofs.Parser.Follows
import IslandScript.Proofs.Syntax.Declarations

/-!
# What parsers build

The names of the classes whose bodies are being read are a stack in the state of a parser: the body of a
class is read with its name on top, and the stack is left as it was found. `Builds cs p Q` says that of a
parser that is run with the stack `cs`, and that `Q` holds of whatever it reads. There is a rule for each
way to put parsers together and one for each parser that looks at a token.
-/

namespace IslandScript.Parser

variable {α β σ : Type} {cs : List String}

/-- In the bodies of the classes `cs`, the innermost first, whatever a parser reads fulfils `Q`, and it
leaves these bodies as it found them. -/
def Builds (cs : List String) (p : Parser String α) (Q : α → Prop) : Prop :=
  ∀ s a s', s.classes = cs → p s = .ok (a, s') → s'.classes = cs ∧ Q a

/-- A parser of whose result nothing needs to be said. -/
abbrev Stays (cs : List String) (p : Parser String α) : Prop := Builds cs p fun _ => True

/-- The innermost class, or the empty name outside of classes. -/
def innermost (cs : List String) : String := cs.head?.getD ""

/-! ## Composition -/

section

variable {p : Parser String α} {c : α → Parser String β} {Q : α → Prop} {R : β → Prop}

theorem Builds.bind (hp : Builds cs p Q) (hc : ∀ a, Q a → Builds cs (c a) R) :
    Builds cs (p >>= c) R := by
  intro s b s' hs hrun
  obtain ⟨a, mid, hfirst, hsecond⟩ := bind_eq_ok.mp hrun
  obtain ⟨hmid, ha⟩ := hp s a mid hs hfirst
  exact hc a ha mid b s' hmid hsecond

theorem Stays.bind (hp : Stays cs p) (hc : ∀ a, Builds cs (c a) R) : Builds cs (p >>= c) R :=
  Builds.bind hp fun a _ => hc a

theorem Builds.imp {Q' : α → Prop} (hp : Builds cs p Q) (h : ∀ a, Q a → Q' a) : Builds cs p Q' :=
  fun s a s' hs hrun => (hp s a s' hs hrun).imp_right (h a)

theorem builds_pure {a : α} (h : Q a) : Builds cs (pure a) Q := by
  intro s _ s' hs hrun
  cases hrun
  exact ⟨hs, h⟩

theorem stays_pure {a : α} : Stays cs (pure a) := builds_pure trivial

theorem Builds.map {f : α → β} (hp : Builds cs p Q) (h : ∀ a, Q a → R (f a)) :
    Builds cs (f <$> p) R := by
  have hbind : Builds cs (p >>= fun a => pure (f a)) R := hp.bind fun a ha => builds_pure (h a ha)
  exact hbind

theorem builds_throw {failure : Failure} : Builds cs (throw failure : Parser String α) Q :=
  fun _ _ _ _ hrun => nomatch hrun

theorem builds_fail {kind : ParseErrorKind} {span : Span} : Builds cs (fail kind span : Parser String α) Q :=
  builds_throw

theorem Builds.inside (construct : Construct) (hp : Builds cs p Q) :
    Builds cs (Parser.inside construct p) Q := by
  intro s a s' hs hrun
  unfold Parser.inside at hrun
  split at hrun
  · cases hrun
  · exact hp s a s' hs hrun

theorem builds_get : Builds cs (get : Parser String (State String)) fun s => s.classes = cs := by
  intro s a s' hs hrun
  cases hrun
  exact ⟨hs, hs⟩

/-- The body of a class is read with its name on top of those around it. -/
theorem Builds.withinClass {name : String} (hp : Builds (name :: cs) p Q) :
    Builds cs (Parser.withinClass name p) Q := by
  intro s a s' hs hrun
  obtain ⟨_, inner, hpush, hrun⟩ := bind_eq_ok.mp hrun
  cases hpush
  obtain ⟨b, mid, hbody, hrun⟩ := bind_eq_ok.mp hrun
  obtain ⟨_, last, hpop, hpure⟩ := bind_eq_ok.mp hrun
  cases hpop
  cases hpure
  obtain ⟨hmid, ha⟩ := hp _ _ _ (congrArg (name :: ·) hs) hbody
  exact ⟨congrArg List.tail hmid, ha⟩

/-- The path of a function is the innermost class, a dot and its name. -/
theorem builds_linkPath (name : String) :
    Builds cs (linkPath name) fun path => path = innermost cs ++ "." ++ name := by
  refine builds_get.bind fun s hs => builds_pure ?_
  rw [hs]
  cases cs <;> rfl

end

/-! ## Loops -/

section

variable {round : σ → Parser String (Step σ β)} {I : σ → Prop} {Q : β → Prop}

theorem builds_iterate (hround : ∀ a, I a → Builds cs (round a) (StepHas I Q)) {a : σ} (ha : I a)
    (bound : List (Token String)) : Builds cs (iterate bound round a) Q := by
  -- on the rounds that are left, with what each round keeps
  induction bound generalizing a with
  | nil => exact builds_throw
  | cons t bound ih =>
      rw [iterate_cons]
      refine (hround a ha).bind fun step hstep => ?_
      cases step with
      | again a => exact ih hstep
      | done b => exact builds_pure hstep

theorem builds_loop (I : σ → Prop) (hround : ∀ a, I a → Builds cs (round a) (StepHas I Q)) {a : σ}
    (ha : I a) : Builds cs (loop round a) Q := by
  intro s b s' hs hrun
  rw [loop_apply] at hrun
  exact builds_iterate hround ha _ s b s' hs hrun

end

/-! ## The current token -/

theorem stays_get : Stays cs (get : Parser String (State String)) := builds_get.bind fun _ _ => stays_pure

theorem stays_kind : Stays cs kind := builds_get.bind fun _ _ => stays_pure

theorem stays_here : Stays cs here := builds_get.bind fun _ _ => stays_pure

theorem stays_at? (s : Symbol) : Stays cs (at? s) := stays_kind.bind fun _ => stays_pure

theorem stays_atWord? (k : Keyword) : Stays cs (atWord? k) := stays_kind.bind fun _ => stays_pure

theorem stays_advance : Stays cs advance := by
  intro s t s' hs hrun
  unfold advance at hrun
  split at hrun <;> cases hrun
  all_goals exact ⟨hs, trivial⟩

theorem stays_eatKind (expected : TokenKind String) : Stays cs (eatKind expected) := by
  refine stays_kind.bind fun found => ?_
  split
  · exact stays_advance.bind fun _ => stays_pure
  · exact stays_pure

theorem stays_eat (s : Symbol) : Stays cs (eat s) := stays_eatKind _

theorem stays_eatWord (k : Keyword) : Stays cs (eatWord k) := stays_eatKind _

theorem stays_expectKind (expected : TokenKind String) : Stays cs (expectKind expected) := by
  refine builds_get.bind fun s _ => ?_
  dsimp only
  split
  · exact stays_advance.bind fun _ => stays_pure
  · exact builds_fail

theorem stays_expect (s : Symbol) : Stays cs (expect s) := stays_expectKind _

theorem stays_expectWord (k : Keyword) : Stays cs (expectWord k) := stays_expectKind _

theorem stays_skipLineEnds : Stays cs skipLineEnds := by
  apply builds_loop (fun _ => True) _ trivial
  intro _ _
  refine (stays_eatKind _).bind fun b => ?_
  split <;> exact builds_pure trivial

theorem stays_eatLine (s : Symbol) : Stays cs (eatLine s) := by
  refine (stays_eat s).bind fun b => ?_
  split
  · exact stays_skipLineEnds.bind fun _ => stays_pure
  · exact stays_pure

theorem stays_expectLine (s : Symbol) : Stays cs (expectLine s) :=
  (stays_expect s).bind fun _ => stays_skipLineEnds.bind fun _ => stays_pure

/-! ## Names -/

theorem stays_expectName : Stays cs expectName := by
  refine builds_get.bind fun s _ => ?_
  dsimp only
  split
  · exact stays_advance.bind fun _ => stays_pure
  · exact builds_fail

theorem stays_declaredName : Stays cs declaredName := by
  refine stays_expectName.bind fun n => ?_
  dsimp only
  split
  · exact builds_fail
  · -- a warning is noted, and nothing else in the state changes
    intro s a s' hs hrun
    cases hrun
    exact ⟨hs, trivial⟩

theorem stays_label : Stays cs label := by
  refine (stays_eat _).bind fun b => ?_
  split
  · exact stays_expectName.bind fun _ => stays_pure
  · exact stays_pure

theorem stays_pattern : Stays cs pattern := by
  refine (stays_eat _).bind fun b => ?_
  split
  · refine Stays.bind (builds_loop (fun _ => True) (fun names _ => ?_) trivial) fun names =>
      (stays_expect _).bind fun _ => stays_pure
    refine stays_declaredName.bind fun n => (stays_eat _).bind fun b => ?_
    split <;> exact builds_pure trivial
  · exact stays_declaredName.bind fun _ => stays_pure

/-! ## Lists -/

section

variable {item : Parser String α} {Q : α → Prop}

theorem Builds.commaList (hitem : Builds cs item Q) :
    Builds cs (commaList item) fun l => ∀ a ∈ l, Q a := by
  refine Builds.bind (Q := fun found => ∀ a ∈ found, Q a)
    (builds_loop (fun found => ∀ a ∈ found, Q a) (fun found hfound => ?_) nofun)
    fun found hfound => builds_pure (by simpa using hfound)
  refine hitem.bind fun a ha => (stays_eatLine _).bind fun b => ?_
  split <;> exact builds_pure (List.forall_mem_cons.mpr ⟨ha, hfound⟩)

theorem Builds.untilBrace (hitem : Builds cs item Q) :
    Builds cs (untilBrace item) fun l => ∀ a ∈ l, Q a := by
  refine Builds.bind (Q := fun found => ∀ a ∈ found, Q a)
    (builds_loop (fun found => ∀ a ∈ found, Q a) (fun found hfound => ?_) nofun)
    fun found hfound => builds_pure (by simpa using hfound)
  refine (stays_eat _).bind fun b => ?_
  split
  · exact builds_pure hfound
  · refine hitem.bind fun a ha => stays_skipLineEnds.bind fun _ => ?_
    exact builds_pure (List.forall_mem_cons.mpr ⟨ha, hfound⟩)

end

/-! ## Trees -/

/-- A parser builds expressions whose declarations are well formed in the bodies of `cs`. -/
abbrev BuildsExpr (cs : List String) (p : Parser String (Expr String)) : Prop :=
  Builds cs p fun e => WellDeclared (e.declarations (innermost cs))

/-- A parser builds statements whose declarations are well formed in the bodies of `cs`. -/
abbrev BuildsStmt (cs : List String) (p : Parser String (Stmt String)) : Prop :=
  Builds cs p fun s => WellDeclared (s.declarations (innermost cs))

/-- Whatever bodies they stand in, the parsers for nested parts build well-formed declarations. -/
structure GrammarBuilds (g : Grammar String) : Prop where
  expr : ∀ cs, BuildsExpr cs g.expr
  spread : ∀ cs, BuildsExpr cs g.spread
  unary : ∀ cs, BuildsExpr cs g.unary
  stmt : ∀ cs, BuildsStmt cs g.stmt

end IslandScript.Parser
