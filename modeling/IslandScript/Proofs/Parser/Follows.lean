import IslandScript.Parser.Program
import IslandScript.Proofs.Parser.Levels
import IslandScript.Proofs.Syntax.Spans

/-!
# Parsers in a longer text

A parser that reads something from some tokens reads the same from these tokens with others behind them,
unless it looks at the others. `Follows p p' U O` compares the two runs: `p` on the tokens alone, `p'` on
the longer stream, whose spans may be others. Where the first run comes to the end of its tokens, the
second stands at a line end. It goes on from there only in search of a part that may stand on a later
row, and `U` says what is known of the result then. Behind the line ends the second run may take up a
token that the first never saw; that token is the last of the longer stream, so that the second run is
stopped there, and `O` says what is known of the result of the first.
-/

namespace IslandScript

/-! ## Statements that may go on

A conditional without `else` and a `try` without `finally` may go on with one, and they may do so on a
later row. So may everything that ends with such an expression: an operator whose last operand it is, the
statement that it is the value of. A class that ends with its base may go on with its body where the base
may go on. All other statements are complete where they end.
-/

section

variable {ν : Type}

mutual

/-- Whether an expression ends with a conditional without `else` or a `try` without `finally`. -/
def Expr.unfinished : Expr ν → Bool
  | .unary _ _ operand => operand.unfinished
  | .binary _ _ _ right => right.unfinished
  | .assign _ _ value => value.unfinished
  | .lambda _ decl => Function.unfinished decl
  | .ifElse _ _ _ none => true
  | .ifElse _ _ _ (some otherwise) => otherwise.unfinished
  | .tryCatch _ _ _ _ none => true
  | .tryCatch _ _ _ _ (some finalizer) => finalizer.unfinished
  | .statement _ s => s.unfinished
  | _ => false

/-- Whether a function ends with an expression that may go on. -/
def Function.unfinished : Function ν → Bool
  | ⟨_, _, _, _, _, some body⟩ => body.unfinished
  | ⟨_, _, _, _, _, none⟩ => false

/-- Whether a class ends with an expression that may go on. -/
def Class.unfinished : Class ν → Bool
  | ⟨_, _, _, _, _, some base, []⟩ => base.unfinished
  | _ => false

/-- Whether a statement ends with an expression that may go on. -/
def Stmt.unfinished : Stmt ν → Bool
  | .expr _ e => e.unfinished
  | .declare _ _ _ _ value => value.unfinished
  | .whileLoop _ _ _ body => body.unfinished
  | .loop _ _ _ body => body.unfinished
  | .forLoop _ _ _ _ body => body.unfinished
  | .throwValue _ value => value.unfinished
  | .returnValue _ (some value) => value.unfinished
  | .exitValue _ (some value) => value.unfinished
  | .function _ decl => Function.unfinished decl
  | .cls _ decl => Class.unfinished decl
  | .object _ decl => Class.unfinished decl
  | _ => false

end

end

/-! ## Other spans -/

/-- A warning with another span. -/
def ParseWarning.mapSpan (f : Span → Span) : ParseWarning → ParseWarning
  | .discardedName span => .discardedName (f span)
  | .vagueName span => .vagueName (f span)

namespace Parser

variable {α β σ : Type}

/-- What a parser reads, with other spans. -/
class Spanned (α : Type) where
  moved : (Span → Span) → α → α

export Spanned (moved)

instance : Spanned Unit := ⟨fun _ a => a⟩
instance : Spanned Bool := ⟨fun _ a => a⟩
instance : Spanned String := ⟨fun _ a => a⟩
instance : Spanned BindingKind := ⟨fun _ a => a⟩
instance : Spanned (Pattern String) := ⟨fun _ a => a⟩
instance : Spanned Span := ⟨fun f a => f a⟩
instance : Spanned (Token String) := ⟨fun f t => ⟨f t.span, t.kind⟩⟩
instance : Spanned (Expr String) := ⟨Expr.mapSpans⟩
instance : Spanned (Stmt String) := ⟨Stmt.mapSpans⟩
instance : Spanned (Arg String (Expr String)) := ⟨Arg.mapSpans⟩
instance : Spanned (Param String (Expr String)) := ⟨Param.mapSpans⟩
instance : Spanned (Branch (Expr String)) := ⟨Branch.mapSpans⟩
instance : Spanned (EnumEntry String (Expr String)) := ⟨EnumEntry.mapSpans⟩
instance [Spanned α] : Spanned (List α) := ⟨fun f as => as.map (moved f)⟩
instance [Spanned α] : Spanned (Option α) := ⟨fun f a => a.map (moved f)⟩
instance [Spanned α] [Spanned β] : Spanned (α × β) := ⟨fun f p => (moved f p.1, moved f p.2)⟩

-- Names and kinds of bindings have no spans, so what is made of them stays as it is.
instance : Spanned (List String) := ⟨fun _ a => a⟩
instance : Spanned (Option String) := ⟨fun _ a => a⟩
instance : Spanned (Option BindingKind) := ⟨fun _ a => a⟩

instance : Spanned ParseWarning := ⟨ParseWarning.mapSpan⟩

instance [Spanned σ] [Spanned β] : Spanned (Step σ β) where
  moved f
    | .again s => .again (moved f s)
    | .done b => .done (moved f b)

/-! ## A stream and a longer one -/

/-- The tokens that go on with what is unfinished: the words for its further parts, the brace of a class
body, and what goes on with every expression. -/
def goesOn : TokenKind String → Bool
  | .keyword .elseKey | .keyword .catchKey | .keyword .finallyKey | .symbol .leftBrace => true
  | k => (continues? k).isSome

/-- What stands in the longer stream behind the tokens of the shorter, and how the two end. -/
inductive Joins (f : Span → Span) :
    List (Token String) → Except LexError Span → Except LexError Span → Prop where
  /-- Nothing, and both end. -/
  | same (here : Span) : Joins f [] (.ok here) (.ok (f here))
  /-- Whatever it is, the shorter breaks off before it. -/
  | broken (tail : List (Token String)) (e : LexError) (ending : Except LexError Span) :
      Joins f tail (.error e) ending
  /-- Line ends and another token, behind which the longer breaks off. -/
  | upTo {ends : List (Token String)} {first : Token String} (here : Span) (e : LexError)
      (hne : ends ≠ []) (hends : ∀ t ∈ ends, t.kind = .endOfLine) (hfirst : first.kind ≠ .endOfLine) :
      Joins f (ends ++ [first]) (.ok here) (.error e)
  /-- Line ends only. -/
  | blank {ends : List (Token String)} (here last : Span) (hne : ends ≠ [])
      (hends : ∀ t ∈ ends, t.kind = .endOfLine) : Joins f ends (.ok here) (.ok last)

/-- A stream and a longer one: how the spans of the second are had from those of the first, the warnings
that were there before, and how the two go on and end. -/
structure Seam where
  move : Span → Span
  rangeTo_move : ∀ s t, (move s).rangeTo (move t) = move (s.rangeTo t)
  before : List ParseWarning
  tail : List (Token String)
  ending : Except LexError Span
  ending' : Except LexError Span
  joins : Joins move tail ending ending'

/-- How far the two runs have come: within the tokens of the shorter stream, at its end and a line end
of the longer, or behind the line ends there. -/
inductive Phase where
  | inside
  | atBreak
  | passed

/-- A state of the run on the shorter stream and one of the run on the longer. -/
inductive Seam.Tracks (j : Seam) : Phase → State String → State String → Prop where
  | inside {t : Token String} {rest : List (Token String)} {ws : List ParseWarning}
      {classes : List String} (htokens : j.tail ≠ [] → ∀ x ∈ t :: rest, x.kind ≠ .endOfFile) :
      j.Tracks .inside ⟨t, rest, j.ending, ws, classes⟩
        ⟨moved j.move t, moved j.move rest ++ j.tail, j.ending', j.before ++ moved j.move ws, classes⟩
  | atBreak {here : Span} {t : Token String} {rest : List (Token String)} {ws : List ParseWarning}
      {classes : List String} (hending : j.ending = .ok here) (htail : j.tail = t :: rest)
      (hline : t.kind = .endOfLine) :
      j.Tracks .atBreak ⟨⟨here, .endOfFile⟩, [], j.ending, ws, classes⟩
        ⟨t, rest, j.ending', j.before ++ moved j.move ws, classes⟩
  | first {here : Span} {t : Token String} {e : LexError} {ws : List ParseWarning}
      {classes : List String} (hending : j.ending = .ok here) (htail : j.tail.getLast? = some t)
      (hline : t.kind ≠ .endOfLine) (hending' : j.ending' = .error e) :
      j.Tracks .passed ⟨⟨here, .endOfFile⟩, [], j.ending, ws, classes⟩
        ⟨t, [], j.ending', j.before ++ moved j.move ws, classes⟩
  | finished {here last : Span} {ws : List ParseWarning} {classes : List String}
      (hending : j.ending = .ok here) (hending' : j.ending' = .ok last) :
      j.Tracks .passed ⟨⟨here, .endOfFile⟩, [], j.ending, ws, classes⟩
        ⟨⟨last, .endOfFile⟩, [], j.ending', j.before ++ moved j.move ws, classes⟩

/-- The token behind the line ends is of a kind. -/
def Seam.Next (j : Seam) (k : TokenKind String) : Prop := ∃ t ∈ j.tail.getLast?, t.kind = k

/-- The token behind the line ends goes on with what is unfinished. -/
def Seam.GoesOn (j : Seam) : Prop := ∃ k, j.Next k ∧ goesOn k = true

/-! ## The end of the tokens -/

/-- A parser stands at the end of its tokens. -/
structure IsEnd (s : State String) : Prop where
  kind : s.current.kind = .endOfFile
  rest : s.rest = []

/-- What a parser reads at the end of the tokens, if anything: it moves nowhere. -/
def AtEnd (p : Parser String α) (U : α → Prop) : Prop :=
  ∀ s, IsEnd s → ∀ a s', p s = .ok (a, s') → s' = s ∧ U a

/-- A parser reads nothing at the end of the tokens. -/
def FailsAtEnd (p : Parser String α) : Prop := AtEnd p fun _ => False

/-- How a sequence of parsers succeeds. -/
theorem bind_eq_ok {p : Parser String α} {c : α → Parser String β} {s s' : State String} {b : β} :
    (p >>= c) s = .ok (b, s') ↔ ∃ a mid, p s = .ok (a, mid) ∧ c a mid = .ok (b, s') := by
  change (p s).bind _ = _ ↔ _
  cases p s with
  | error e =>
      constructor
      · exact fun h => nomatch h
      · rintro ⟨a, mid, h, -⟩
        cases h
  | ok result =>
      obtain ⟨a, mid⟩ := result
      constructor
      · exact fun h => ⟨a, mid, rfl, h⟩
      · rintro ⟨_, _, h, hmore⟩
        cases h
        exact hmore

theorem bind_eq_error {p : Parser String α} {c : α → Parser String β} {s : State String} {e : Failure}
    (h : p s = .error e) : (p >>= c) s = .error e := by
  change (p s).bind _ = _
  rw [h]
  rfl

theorem bind_eq {p : Parser String α} {c : α → Parser String β} {s mid : State String} {a : α}
    (h : p s = .ok (a, mid)) : (p >>= c) s = c a mid := by
  change (p s).bind _ = _
  rw [h]
  rfl

section AtEnd

variable {p : Parser String α} {c : α → Parser String β} {U : α → Prop} {V : β → Prop}

theorem AtEnd.bind (hp : AtEnd p U) (hc : ∀ a, U a → AtEnd (c a) V) : AtEnd (p >>= c) V := by
  intro s hs b s' hrun
  obtain ⟨a, mid, hfirst, hsecond⟩ := bind_eq_ok.mp hrun
  obtain ⟨rfl, ha⟩ := hp s hs a mid hfirst
  exact hc a ha mid hs b s' hsecond

theorem AtEnd.imp {W : α → Prop} (hp : AtEnd p U) (h : ∀ a, U a → W a) : AtEnd p W := by
  intro s hs a s' hrun
  obtain ⟨hsame, ha⟩ := hp s hs a s' hrun
  exact ⟨hsame, h a ha⟩

theorem FailsAtEnd.atEnd (hp : FailsAtEnd p) : AtEnd p U := AtEnd.imp hp fun _ h => h.elim

theorem FailsAtEnd.bind (hp : FailsAtEnd p) : FailsAtEnd (p >>= c) := AtEnd.bind hp fun _ h => h.elim

theorem atEnd_pure {a : α} (h : U a) : AtEnd (pure a) U := by
  intro s _ a' s' hrun
  cases hrun
  exact ⟨rfl, h⟩

theorem failsAtEnd_throw {failure : Failure} : FailsAtEnd (throw failure : Parser String α) :=
  fun _ _ _ _ hrun => nomatch hrun

end AtEnd

/-! ### Loops -/

/-- What is known behind a round of a loop: `I` of what it goes on with, `U` of its result. -/
def StepHas (I : σ → Prop) (U : β → Prop) : Step σ β → Prop
  | .again a => I a
  | .done b => U b

theorem iterate_cons {t : Token String} {bound : List (Token String)}
    {round : σ → Parser String (Step σ β)} {a : σ} :
    iterate (t :: bound) round a = round a >>= fun step =>
      match step with
      | .again a => iterate bound round a
      | .done b => pure b := rfl

theorem loop_apply {round : σ → Parser String (Step σ β)} {a : σ} {s : State String} :
    loop round a s = iterate (s.current :: s.current :: s.rest) round a s := rfl

theorem AtEnd.iterate {round : σ → Parser String (Step σ β)} {I : σ → Prop} {U : β → Prop}
    (hround : ∀ a, I a → AtEnd (round a) (StepHas I U)) {a : σ} (ha : I a)
    (bound : List (Token String)) : AtEnd (Parser.iterate bound round a) U := by
  induction bound generalizing a with
  | nil => exact fun s _ b s' hrun => nomatch hrun
  | cons t bound ih =>
      rw [iterate_cons]
      refine (hround a ha).bind fun step hstep => ?_
      cases step with
      | again a => exact ih hstep
      | done b => exact atEnd_pure hstep

theorem AtEnd.loop {round : σ → Parser String (Step σ β)} {I : σ → Prop} {U : β → Prop}
    (hround : ∀ a, I a → AtEnd (round a) (StepHas I U)) {a : σ} (ha : I a) :
    AtEnd (Parser.loop round a) U := by
  intro s hs b s' hrun
  rw [loop_apply] at hrun
  exact AtEnd.iterate hround ha _ s hs b s' hrun

/-! ## Following -/

section

variable [Spanned α] [Spanned β] [Spanned σ]

/-- What the run of `p'` makes of the longer stream where that of `p` reads something: the same, or the
token behind the line ends stops it. Behind the line ends, `U` holds of what was read, and where it was
stopped, `O`. Both runs leave the classes that they were in. -/
def FollowsAt (j : Seam) (p p' : Parser String α) (U O : α → Prop) (s s' : State String) : Prop :=
  ∀ a mid, p s = .ok (a, mid) → mid.classes = s.classes ∧
    ((∃ phase mid', p' s' = .ok (moved j.move a, mid') ∧ j.Tracks phase mid mid' ∧
      (phase = .passed → U a)) ∨
    (∃ e, p' s' = .error e) ∧ IsEnd mid ∧ O a)

/-- The run of `p'` follows that of `p` wherever they stand; if it is behind the line ends already, `Pre`
is the case. -/
def Follows (j : Seam) (Pre : Prop) (p p' : Parser String α) (U O : α → Prop) : Prop :=
  ∀ phase s s', j.Tracks phase s s' → (phase = .passed → Pre) → FollowsAt j p p' U O s s'

variable {j : Seam} {Pre : Prop} {p p' : Parser String α} {c c' : α → Parser String β} {U O : α → Prop}
  {V W : β → Prop} {s s' : State String}

theorem FollowsAt.bind (hp : FollowsAt j p p' U O s s')
    (hc : ∀ a, Follows j (U a) (c a) (c' (moved j.move a)) V W)
    (hend : ∀ a, O a → AtEnd (c a) W) : FollowsAt j (p >>= c) (p' >>= c') V W s s' := by
  intro b last hrun
  obtain ⟨a, mid, hfirst, hsecond⟩ := bind_eq_ok.mp hrun
  obtain ⟨hclasses, ⟨phase, mid', hfirst', htracks, hpassed⟩ | ⟨⟨e, he⟩, hatEnd, ha⟩⟩ := hp a mid hfirst
  · rw [bind_eq hfirst']
    obtain ⟨hclasses', hrest⟩ := hc a phase mid mid' htracks hpassed b last hsecond
    exact ⟨hclasses'.trans hclasses, hrest⟩
  · -- The other run is stopped already, so that the second parser reads what it can at the end.
    obtain ⟨rfl, hb⟩ := hend a ha mid hatEnd b last hsecond
    exact ⟨hclasses, .inr ⟨⟨e, bind_eq_error he⟩, hatEnd, hb⟩⟩

theorem Follows.bind (hp : Follows j Pre p p' U O)
    (hc : ∀ a, Follows j (U a) (c a) (c' (moved j.move a)) V W)
    (hend : ∀ a, O a → AtEnd (c a) W) : Follows j Pre (p >>= c) (p' >>= c') V W :=
  fun phase s s' htracks hpre => (hp phase s s' htracks hpre).bind hc hend

/-- Behind a parser that is not stopped. -/
theorem Follows.andThen (hp : Follows j Pre p p' U fun _ => False)
    (hc : ∀ a, Follows j (U a) (c a) (c' (moved j.move a)) V W) :
    Follows j Pre (p >>= c) (p' >>= c') V W :=
  hp.bind hc fun _ h => h.elim

/-- Behind a part that something must follow. -/
theorem Follows.closedBy (hp : Follows j Pre p p' U O)
    (hc : ∀ a, Follows j (U a) (c a) (c' (moved j.move a)) V W)
    (hfails : ∀ a, FailsAtEnd (c a)) : Follows j Pre (p >>= c) (p' >>= c') V W :=
  hp.bind hc fun a _ => (hfails a).atEnd

theorem Follows.imp {U' O' : α → Prop} (hp : Follows j Pre p p' U O) (hU : ∀ a, U a → U' a)
    (hO : ∀ a, O a → O' a) : Follows j Pre p p' U' O' := by
  intro phase s s' htracks hpre a mid hrun
  obtain ⟨hclasses, h⟩ := hp phase s s' htracks hpre a mid hrun
  refine ⟨hclasses, ?_⟩
  rcases h with ⟨phase', mid', hrun', htracks', hpassed⟩ | ⟨hfails, hatEnd, ha⟩
  · exact .inl ⟨phase', mid', hrun', htracks', fun hphase => hU a (hpassed hphase)⟩
  · exact .inr ⟨hfails, hatEnd, hO a ha⟩

theorem Follows.weaken {Pre' : Prop} (hp : Follows j Pre p p' U O) (h : Pre' → Pre) :
    Follows j Pre' p p' U O :=
  fun phase s s' htracks hpre => hp phase s s' htracks fun hphase => h (hpre hphase)

theorem follows_pure {a a' : α} (ha : a' = moved j.move a) (h : Pre → U a) :
    Follows j Pre (pure a) (pure a') U O := by
  intro phase s s' htracks hpre _ _ hrun
  cases hrun
  subst ha
  exact ⟨rfl, .inl ⟨phase, s', rfl, htracks, fun hphase => h (hpre hphase)⟩⟩

theorem Follows.map {p p' : Parser String α} {f : α → β} (hp : Follows j Pre p p' U O)
    (hf : ∀ a, f (moved j.move a) = moved j.move (f a)) (hU : ∀ a, U a → V (f a))
    (hO : ∀ a, O a → W (f a)) : Follows j Pre (f <$> p) (f <$> p') V W := by
  have hbind : Follows j Pre (p >>= fun a => pure (f a)) (p' >>= fun a => pure (f a)) V W :=
    hp.bind (fun a => follows_pure (hf a) (hU a)) fun a ha => atEnd_pure (hO a ha)
  exact hbind

theorem follows_throw {failure : Failure} : Follows j Pre (throw failure) p' U O :=
  fun _ _ _ _ _ _ _ hrun => nomatch hrun

theorem follows_fail {kind : ParseErrorKind} {span : Span} : Follows j Pre (fail kind span) p' U O :=
  follows_throw

theorem Follows.inside {construct : Construct} (hp : Follows j Pre p p' U O) :
    Follows j Pre (Parser.inside construct p) (Parser.inside construct p') U O := by
  intro phase s s' htracks hpre a mid hrun
  have hok : p s = .ok (a, mid) := by
    unfold Parser.inside at hrun
    split at hrun
    next => cases hrun
    next => exact hrun
  -- Only errors get another construct.
  unfold Parser.inside
  obtain ⟨hclasses, h⟩ := hp phase s s' htracks hpre a mid hok
  refine ⟨hclasses, ?_⟩
  rcases h with ⟨phase', mid', hrun', hmore⟩ | ⟨⟨e, he⟩, hmore⟩
  · rw [hrun']
    exact .inl ⟨phase', mid', rfl, hmore⟩
  · refine .inr ⟨?_, hmore⟩
    rw [he]
    cases e with
    | error e => exact ⟨_, rfl⟩
    | outOfBound => exact ⟨_, rfl⟩

/-- Where the run on the longer stream is behind the shorter, the other is at its end. -/
theorem Seam.Tracks.isEnd {phase : Phase} (h : j.Tracks phase s s') (hphase : phase ≠ .inside) :
    IsEnd s := by
  cases h with
  | inside => exact absurd rfl hphase
  | atBreak => exact ⟨rfl, rfl⟩
  | first => exact ⟨rfl, rfl⟩
  | finished => exact ⟨rfl, rfl⟩

/-- A parser that reads nothing at the end of the tokens is only followed within them. -/
theorem FailsAtEnd.follows (hfails : FailsAtEnd p)
    (h : ∀ s s', j.Tracks .inside s s' → FollowsAt j p p' U O s s') : Follows j Pre p p' U O := by
  intro phase s s' htracks _
  by_cases hphase : phase = .inside
  · subst hphase
    exact h s s' htracks
  · intro a mid hrun
    exact (hfails s (htracks.isEnd hphase) a mid hrun).2.elim

/-! ### Loops -/

section Loops

variable {round round' : σ → Parser String (Step σ β)} {I J : σ → Prop}

/-- A loop may have more rounds in the longer stream. -/
theorem follows_iterate
    (hround : ∀ a, Follows j (I a) (round a) (round' (moved j.move a)) (StepHas I V) (StepHas J W))
    (hend : ∀ a, J a → AtEnd (round a) (StepHas J W)) {bound bound' : List (Token String)}
    (hbound : bound.length ≤ bound'.length) (a : σ) :
    Follows j (I a) (iterate bound round a) (iterate bound' round' (moved j.move a)) V W := by
  induction bound generalizing bound' a with
  | nil => exact fun phase s s' _ _ b mid hrun => nomatch hrun
  | cons t bound ih =>
      obtain ⟨t', bound', rfl⟩ := List.exists_cons_of_length_pos (Nat.zero_lt_of_lt hbound)
      rw [iterate_cons, iterate_cons]
      refine (hround a).bind ?_ ?_
      · intro step
        cases step with
        | again a => exact ih (Nat.le_of_succ_le_succ hbound) a
        | done b => exact follows_pure rfl id
      · intro step hstep
        -- Stopped in this round: the rounds that are left are those at the end of the tokens.
        cases step with
        | again a => exact AtEnd.iterate hend hstep bound
        | done b => exact atEnd_pure hstep

omit [Spanned β] in
theorem Seam.Tracks.length_le {phase : Phase} (h : j.Tracks phase s s') :
    s.rest.length ≤ s'.rest.length := by
  cases h with
  | inside =>
      simp only [moved, List.length_append, List.length_map]
      exact Nat.le_add_right _ _
  | atBreak => exact Nat.zero_le _
  | first => exact Nat.le_refl _
  | finished => exact Nat.le_refl _

theorem follows_loop
    (hround : ∀ a, Follows j (I a) (round a) (round' (moved j.move a)) (StepHas I V) (StepHas J W))
    (hend : ∀ a, J a → AtEnd (round a) (StepHas J W)) (a : σ) :
    Follows j (I a) (loop round a) (loop round' (moved j.move a)) V W := by
  intro phase s s' htracks hpre b mid hrun
  have hlength := htracks.length_le
  refine follows_iterate hround hend ?_ a phase s s' htracks hpre b mid hrun
  simp only [List.length_cons]
  omega

end Loops

end

end Parser

end IslandScript
