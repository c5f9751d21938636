import IslandScript.Proofs.Parser.Follows.Program

/-!
# Parsers of tokens that stand elsewhere

Of the same tokens a parser reads the same wherever they stand: their spans do not matter to it, and
neither does a closing parenthesis behind them, which goes on with nothing. `Matches p p'` compares the
run of `p` on the tokens alone, where the text ends behind them, with that of `p'` on tokens of the same
kinds, behind which the text ends or a closing parenthesis stands. At the end of the tokens the two runs
stand before different things. Hence the last token must be none that looks at what comes next: no line
end, which would be passed, and no `return` or `exit`, which has no value where the text ends.
-/

namespace IslandScript.Parser

variable {α β σ : Type}

/-! ## Results up to their spans -/

/-- Results that differ in their spans only. -/
def Same [Spanned α] (a a' : α) : Prop := moved (fun _ => Span.none) a = moved (fun _ => Span.none) a'

/-- Results without spans. -/
class Plain (α : Type) [Spanned α] : Prop where
  moved_eq : ∀ (f : Span → Span) (a : α), moved f a = a

instance : Plain Unit := ⟨fun _ _ => rfl⟩
instance : Plain Bool := ⟨fun _ _ => rfl⟩
instance : Plain String := ⟨fun _ _ => rfl⟩
instance : Plain BindingKind := ⟨fun _ _ => rfl⟩
instance : Plain (Pattern String) := ⟨fun _ _ => rfl⟩
instance : Plain (List String) := ⟨fun _ _ => rfl⟩
instance : Plain (Option String) := ⟨fun _ _ => rfl⟩
instance : Plain (Option BindingKind) := ⟨fun _ _ => rfl⟩

theorem Same.refl [Spanned α] (a : α) : Same a a := rfl

theorem Same.eq [Spanned α] [Plain α] {a a' : α} (h : Same a a') : a = a' := by
  have h' : moved (fun _ => Span.none) a = moved (fun _ => Span.none) a' := h
  rwa [Plain.moved_eq, Plain.moved_eq] at h'

theorem Same.trans [Spanned α] {a b c : α} (h : Same a b) (h' : Same b c) : Same a c := Eq.trans h h'

theorem same_span (s s' : Span) : Same s s' := rfl

section Parts

variable [Spanned α] [Spanned β] {a a' : α} {b b' : β} {as as' : List α}

theorem same_pair (ha : Same a a') (hb : Same b b') : Same (a, b) (a', b') := congrArg₂ Prod.mk ha hb

theorem Same.fst {p p' : α × β} (h : Same p p') : Same p.1 p'.1 := congrArg Prod.fst h

theorem Same.snd {p p' : α × β} (h : Same p p') : Same p.2 p'.2 := congrArg Prod.snd h

theorem same_some (h : Same a a') : Same (some a) (some a') := congrArg some h

theorem same_cons (ha : Same a a') (has : Same as as') : Same (a :: as) (a' :: as') :=
  congrArg₂ List.cons ha has

theorem Same.reverse (h : Same as as') : Same as.reverse as'.reverse := by
  change moved _ as.reverse = moved _ as'.reverse
  rw [moved_reverse, moved_reverse]
  exact congrArg List.reverse h

theorem Same.length_eq (h : Same as as') : as.length = as'.length := by
  have hlength : (as.map (moved fun _ => Span.none)).length = (as'.map (moved fun _ => Span.none)).length :=
    congrArg List.length h
  rwa [List.length_map, List.length_map] at hlength

end Parts

/-! ## Two streams of the same tokens -/

/-- What stands in the second stream behind the tokens, how it ends, the token that the second run comes to
behind them and those behind that one. -/
inductive Closing : List (Token String) → Except LexError Span → Token String → List (Token String) → Prop
  | finished (here : Span) : Closing [] (.ok here) ⟨here, .endOfFile⟩ []
  | bracket (t : Token String) (rest : List (Token String)) (ending : Except LexError Span)
      (h : t.kind = .symbol .rightParen) : Closing (t :: rest) ending t rest

/-- Some tokens alone and tokens of the same kinds in another place: which spans may correspond, where the
first stream ends, and what stands behind the tokens in the second. -/
structure Enclosure where
  corresponds : Span → Span → Prop
  here : Span
  tail : List (Token String)
  ending : Except LexError Span
  stop : Token String
  behind : List (Token String)
  closes : Closing tail ending stop behind

/-- The last token of an expression is none whose meaning depends on what follows. -/
def looksAhead : TokenKind String → Bool
  | .endOfLine | .keyword .returnKey | .keyword .exit => true
  | _ => false

namespace Enclosure

/-- Tokens of the same kind at corresponding places. -/
structure Alike (c : Enclosure) (t t' : Token String) : Prop where
  kind : t'.kind = t.kind
  span : c.corresponds t.span t'.span

/-- The same warning at corresponding places. -/
structure AlikeWarning (c : Enclosure) (w w' : ParseWarning) : Prop where
  kind : Same w w'
  span : c.corresponds w.span w'.span

/-- A state of the run on the tokens alone and one of the run on them in another place: within the tokens,
or at their end. -/
inductive Tracks (c : Enclosure) : State String → State String → Prop where
  | inside {t t' : Token String} {rest rest' : List (Token String)} {ws ws' : List ParseWarning}
      {classes : List String} (halike : c.Alike t t') (hrest : List.Forall₂ c.Alike rest rest')
      (htokens : ∀ x ∈ t :: rest, x.kind ≠ .endOfFile)
      (hlast : ∀ x ∈ (t :: rest).getLast?, looksAhead x.kind = false)
      (hwarnings : List.Forall₂ c.AlikeWarning ws ws') :
      c.Tracks ⟨t, rest, .ok c.here, ws, classes⟩ ⟨t', rest' ++ c.tail, c.ending, ws', classes⟩
  | atEnd {ws ws' : List ParseWarning} {classes : List String}
      (hwarnings : List.Forall₂ c.AlikeWarning ws ws') :
      c.Tracks ⟨⟨c.here, .endOfFile⟩, [], .ok c.here, ws, classes⟩
        ⟨c.stop, c.behind, c.ending, ws', classes⟩

end Enclosure

variable {c : Enclosure} {s s' : State String}

namespace Enclosure

/-- Behind the tokens the second text ends, or a closing parenthesis stands. -/
theorem stop_kind (c : Enclosure) :
    c.stop.kind = .endOfFile ∨ c.stop.kind = .symbol .rightParen := by
  obtain ⟨corresponds, here, tail, ending, stop, behind, closes⟩ := c
  cases closes with
  | finished => exact .inl rfl
  | bracket _ _ _ h => exact .inr h

/-- Neither is taken by what may take a token. -/
theorem goesOn_stop (c : Enclosure) : goesOn c.stop.kind = false := by
  rcases c.stop_kind with h | h <;> rw [h] <;> rfl

theorem stop_kind_ne (c : Enclosure) {k : TokenKind String} (hfile : k ≠ .endOfFile)
    (hparen : k ≠ .symbol .rightParen) : c.stop.kind ≠ k := by
  rcases c.stop_kind with h | h
  · rw [h]
    exact hfile.symm
  · rw [h]
    exact hparen.symm

theorem advance_of_last {t : Token String} {ws : List ParseWarning} {classes : List String} :
    advance ⟨t, c.tail, c.ending, ws, classes⟩ = .ok (t, ⟨c.stop, c.behind, c.ending, ws, classes⟩) := by
  obtain ⟨corresponds, here, tail, ending, stop, behind, closes⟩ := c
  cases closes with
  | finished => rfl
  | bracket => rfl

namespace Tracks

theorem classes_eq (h : c.Tracks s s') : s'.classes = s.classes := by
  cases h <;> rfl

theorem warnings (h : c.Tracks s s') : List.Forall₂ c.AlikeWarning s.warnings s'.warnings := by
  cases h with
  | inside _ _ _ _ hwarnings => exact hwarnings
  | atEnd hwarnings => exact hwarnings

/-- The second stream has no fewer tokens. -/
theorem length_le (h : c.Tracks s s') : s.rest.length ≤ s'.rest.length := by
  cases h with
  | inside _ hrest =>
      rw [List.length_append, hrest.length_eq]
      exact Nat.le_add_right _ _
  | atEnd => exact Nat.zero_le _

/-- The classes around a parser do not matter to where it stands. -/
theorem withClasses (h : c.Tracks s s') (classes : List String) :
    c.Tracks { s with classes } { s' with classes } := by
  cases h with
  | inside halike hrest htokens hlast hwarnings =>
      exact .inside halike hrest htokens hlast hwarnings
  | atEnd hwarnings => exact .atEnd hwarnings

/-- Nor do the warnings so far. -/
theorem withWarnings (h : c.Tracks s s') {ws ws' : List ParseWarning}
    (hwarnings : List.Forall₂ c.AlikeWarning ws ws') :
    c.Tracks { s with warnings := ws } { s' with warnings := ws' } := by
  cases h with
  | inside halike hrest htokens hlast => exact .inside halike hrest htokens hlast hwarnings
  | atEnd => exact .atEnd hwarnings

end Tracks

/-- The two runs stand at tokens that are alike. -/
structure Inside (c : Enclosure) (s s' : State String) : Prop where
  tracks : c.Tracks s s'
  alike : c.Alike s.current s'.current
  tokens : ∀ x ∈ s.current :: s.rest, x.kind ≠ .endOfFile
  last : ∀ x ∈ (s.current :: s.rest).getLast?, looksAhead x.kind = false

theorem Tracks.cases_inside (h : c.Tracks s s') :
    c.Inside s s' ∨ IsEnd s ∧ s'.current = c.stop := by
  cases h with
  | inside halike hrest htokens hlast hwarnings =>
      exact .inl ⟨.inside halike hrest htokens hlast hwarnings, halike, htokens, hlast⟩
  | atEnd => exact .inr ⟨⟨rfl, rfl⟩, rfl⟩

theorem Inside.kind_eq (h : c.Inside s s') : s'.current.kind = s.current.kind := h.alike.kind

end Enclosure

/-! ## Matching runs -/

section

variable [Spanned α] [Spanned β] [Spanned σ]

/-- Where the run of `p` on the tokens alone reads something, that of `p'` reads the same. -/
def MatchesAt (c : Enclosure) (p p' : Parser String α) (s s' : State String) : Prop :=
  ∀ a mid, p s = .ok (a, mid) → ∃ a' mid', p' s' = .ok (a', mid') ∧ Same a a' ∧ c.Tracks mid mid'

/-- The run of `p'` matches that of `p` wherever they stand. -/
def Matches (c : Enclosure) (p p' : Parser String α) : Prop := ∀ s s', c.Tracks s s' → MatchesAt c p p' s s'

variable {p p' : Parser String α} {f f' : α → Parser String β}

theorem MatchesAt.bind (hp : MatchesAt c p p' s s') (hf : ∀ a a', Same a a' → Matches c (f a) (f' a')) :
    MatchesAt c (p >>= f) (p' >>= f') s s' := by
  intro b last hrun
  obtain ⟨a, mid, hfirst, hsecond⟩ := bind_eq_ok.mp hrun
  obtain ⟨a', mid', hfirst', hsame, htracks⟩ := hp a mid hfirst
  rw [bind_eq hfirst']
  exact hf a a' hsame mid mid' htracks b last hsecond

theorem Matches.bind (hp : Matches c p p') (hf : ∀ a a', Same a a' → Matches c (f a) (f' a')) :
    Matches c (p >>= f) (p' >>= f') :=
  fun s s' htracks => (hp s s' htracks).bind hf

/-- Behind a parser whose results have no spans. -/
theorem MatchesAt.andThen [Plain α] (hp : MatchesAt c p p' s s') (hf : ∀ a, Matches c (f a) (f' a)) :
    MatchesAt c (p >>= f) (p' >>= f') s s' := by
  refine hp.bind fun a a' hsame => ?_
  cases hsame.eq
  exact hf a

theorem Matches.andThen [Plain α] (hp : Matches c p p') (hf : ∀ a, Matches c (f a) (f' a)) :
    Matches c (p >>= f) (p' >>= f') :=
  fun s s' htracks => (hp s s' htracks).andThen hf

theorem matchesAt_pure {a a' : α} (ha : Same a a') (htracks : c.Tracks s s') :
    MatchesAt c (pure a) (pure a') s s' := by
  intro _ _ hrun
  cases hrun
  exact ⟨a', s', rfl, ha, htracks⟩

theorem matches_pure {a a' : α} (ha : Same a a') : Matches c (pure a) (pure a') :=
  fun _ _ htracks => matchesAt_pure ha htracks

theorem Matches.map {g : α → β} (hp : Matches c p p') (hg : ∀ a a', Same a a' → Same (g a) (g a')) :
    Matches c (g <$> p) (g <$> p') :=
  hp.bind fun a a' hsame => matches_pure (hg a a' hsame)

theorem matches_throw {failure : Failure} : Matches c (throw failure) p' :=
  fun _ _ _ _ _ hrun => nomatch hrun

theorem matches_fail {kind : ParseErrorKind} {span : Span} : Matches c (fail kind span) p' :=
  matches_throw

theorem Matches.inside {construct : Construct} (hp : Matches c p p') :
    Matches c (Parser.inside construct p) (Parser.inside construct p') := by
  intro s s' htracks a mid hrun
  have hok : p s = .ok (a, mid) := by
    unfold Parser.inside at hrun
    split at hrun
    next => cases hrun
    next => exact hrun
  obtain ⟨a', mid', hrun', hmore⟩ := hp s s' htracks a mid hok
  refine ⟨a', mid', ?_, hmore⟩
  unfold Parser.inside
  rw [hrun']

/-- A parser that reads nothing at the end of the tokens is compared within them. -/
theorem FailsAtEnd.matches (hfails : FailsAtEnd p)
    (h : ∀ s s', c.Inside s s' → MatchesAt c p p' s s') : Matches c p p' := by
  intro s s' htracks
  rcases htracks.cases_inside with hinside | ⟨hend, -⟩
  · exact h s s' hinside
  · intro a mid hrun
    exact (hfails s hend a mid hrun).2.elim

/-- Behind the tokens neither run of a parser takes one that may be missing. -/
theorem matches_mayTake {a a' : α} (ha : Same a a') (hp : ∀ s, MayTake p a s) (hp' : ∀ s, MayTake p' a' s)
    (h : ∀ s s', c.Inside s s' → MatchesAt c p p' s s') : Matches c p p' := by
  intro s s' htracks
  rcases htracks.cases_inside with hinside | ⟨hend, hstop⟩
  · exact h s s' hinside
  · intro b mid hrun
    rw [(hp s).stays (by rw [hend.kind]; rfl)] at hrun
    cases hrun
    exact ⟨a', s', (hp' s').stays (by rw [hstop]; exact c.goesOn_stop), ha, htracks⟩

/-! ### Loops -/

/-- Rounds that match decide alike. -/
theorem Same.step {step step' : Step σ β} (h : Same step step') :
    (∃ a a', step = .again a ∧ step' = .again a' ∧ Same a a') ∨
      ∃ b b', step = .done b ∧ step' = .done b' ∧ Same b b' := by
  cases step with
  | again a =>
      cases step' with
      | again a' => exact .inl ⟨a, a', rfl, rfl, Step.again.inj h⟩
      | done b' => cases h
  | done b =>
      cases step' with
      | again a' => cases h
      | done b' => exact .inr ⟨b, b', rfl, rfl, Step.done.inj h⟩

theorem same_again {a a' : σ} (h : Same a a') : Same (Step.again a : Step σ β) (.again a') :=
  congrArg Step.again h

theorem same_done {b b' : β} (h : Same b b') : Same (Step.done b : Step σ β) (.done b') :=
  congrArg Step.done h

variable {round round' : σ → Parser String (Step σ β)}

theorem matches_iterate (hround : ∀ a a', Same a a' → Matches c (round a) (round' a')) {a a' : σ}
    (ha : Same a a') {bound bound' : List (Token String)} (hbound : bound.length ≤ bound'.length) :
    Matches c (iterate bound round a) (iterate bound' round' a') := by
  induction bound generalizing bound' a a' with
  | nil => exact fun s s' _ b mid hrun => nomatch hrun
  | cons t bound ih =>
      obtain ⟨t', bound', rfl⟩ := List.exists_cons_of_length_pos (Nat.zero_lt_of_lt hbound)
      rw [iterate_cons, iterate_cons]
      refine (hround a a' ha).bind fun step step' hstep => ?_
      rcases hstep.step with ⟨a, a', rfl, rfl, hsame⟩ | ⟨b, b', rfl, rfl, hsame⟩
      · exact ih hsame (Nat.le_of_succ_le_succ hbound)
      · exact matches_pure hsame

theorem matches_loop (hround : ∀ a a', Same a a' → Matches c (round a) (round' a')) {a a' : σ}
    (ha : Same a a') : Matches c (loop round a) (loop round' a') := by
  intro s s' htracks b mid hrun
  have hlength := htracks.length_le
  refine matches_iterate hround ha ?_ s s' htracks b mid hrun
  simp only [List.length_cons]
  omega

end

/-! ## The current token -/

section

variable [Spanned α] [Spanned β]

theorem matchesAt_get {f f' : State String → Parser String α} (h : MatchesAt c (f s) (f' s') s s') :
    MatchesAt c (get >>= f) (get >>= f') s s' := h

/-- The place of a token is used for spans only. -/
theorem matches_here : Matches c here here := by
  intro s s' htracks a mid hrun
  cases hrun
  exact ⟨_, s', rfl, same_span _ _, htracks⟩

end

/-- Within the tokens both runs move on, past the last of them to what stands behind. -/
theorem Enclosure.Inside.matchesAt_advance (h : c.Inside s s') : MatchesAt c advance advance s s' := by
  obtain ⟨htracks, halike, htokens, hlast⟩ := h
  intro a mid hrun
  cases htracks with
  | inside _ hrest _ _ hwarnings =>
      cases hrest with
      | nil =>
          cases hrun
          exact ⟨_, _, c.advance_of_last, congrArg (Token.mk Span.none) halike.kind.symm, .atEnd hwarnings⟩
      | cons hnext hmore =>
          cases hrun
          refine ⟨_, _, rfl, congrArg (Token.mk Span.none) halike.kind.symm, ?_⟩
          refine .inside hnext hmore (fun x hx => htokens x (List.mem_cons_of_mem _ hx)) ?_ hwarnings
          rwa [List.getLast?_cons_cons] at hlast
  | atEnd => exact absurd rfl (htokens _ List.mem_cons_self)

/-- A token whose meaning depends on what follows is not the last. -/
theorem Enclosure.Inside.exists_next (h : c.Inside s s') (hlooks : looksAhead s.current.kind = true) :
    ∃ t rest t' rest', s.rest = t :: rest ∧ s'.rest = t' :: rest' ∧
      c.Inside { s with current := t, rest } { s' with current := t', rest := rest' } := by
  obtain ⟨htracks, halike, htokens, hlast⟩ := h
  cases htracks with
  | inside _ hrest _ _ hwarnings =>
      cases hrest with
      | nil => exact absurd (hlooks.symm.trans (hlast _ rfl)) Bool.false_ne_true.symm
      | @cons t t' rest rest' hnext hmore =>
          rw [List.getLast?_cons_cons] at hlast
          have htokens' : ∀ x ∈ t :: rest, x.kind ≠ .endOfFile :=
            fun x hx => htokens x (List.mem_cons_of_mem _ hx)
          exact ⟨t, rest, t', rest' ++ c.tail, rfl, rfl,
            .inside hnext hmore htokens' hlast hwarnings, hnext, htokens', hlast⟩
  | atEnd => cases hlooks

theorem Enclosure.Inside.matchesAt_kind {f f' : TokenKind String → Parser String α} [Spanned α]
    (h : c.Inside s s') (hf : MatchesAt c (f s.current.kind) (f' s.current.kind) s s') :
    MatchesAt c (kind >>= f) (kind >>= f') s s' := by
  have hkind : (kind >>= f') s' = f' s.current.kind s' := congrArg (fun k => f' k s') h.kind_eq
  intro a mid hrun
  rw [hkind]
  exact hf a mid hrun

theorem Enclosure.Inside.matchesAt_at? [Spanned α] (h : c.Inside s s') (x : Symbol)
    {f f' : Bool → Parser String α} (hf : ∀ b, MatchesAt c (f b) (f' b) s s') :
    MatchesAt c (at? x >>= f) (at? x >>= f') s s' := by
  have hmatches : MatchesAt c (f (s.current.kind == .symbol x)) (f' (s'.current.kind == .symbol x)) s s' := by
    rw [h.kind_eq]
    exact hf _
  exact hmatches

theorem Enclosure.Inside.matchesAt_eatKind (h : c.Inside s s') (k : TokenKind String) :
    MatchesAt c (eatKind k) (eatKind k) s s' := by
  by_cases hk : s.current.kind = k
  · intro b mid hrun
    rw [eatKind_of_eq hk] at hrun
    rw [eatKind_of_eq (h.kind_eq.trans hk)]
    exact h.matchesAt_advance.bind (fun _ _ _ => matches_pure rfl) b mid hrun
  · intro b mid hrun
    rw [eatKind_of_ne hk] at hrun
    cases hrun
    exact ⟨false, s', eatKind_of_ne fun hk' => hk (h.kind_eq.symm.trans hk'), rfl, h.tracks⟩

/-- A token that may be there, unless the run in the other place would take the closing parenthesis. -/
theorem matches_eatKind {k : TokenKind String} (hfile : k ≠ .endOfFile) (hparen : k ≠ .symbol .rightParen) :
    Matches c (eatKind k) (eatKind k) := by
  intro s s' htracks
  rcases htracks.cases_inside with hinside | ⟨hend, hstop⟩
  · exact hinside.matchesAt_eatKind k
  · have hnot : s'.current.kind ≠ k := by
      rw [hstop]
      exact c.stop_kind_ne hfile hparen
    intro b mid hrun
    obtain ⟨rfl, rfl⟩ := atEnd_eatKind hfile s hend b mid hrun
    exact ⟨false, s', eatKind_of_ne hnot, rfl, htracks⟩

/-- A symbol other than the closing parenthesis. -/
theorem matches_eat (x : Symbol) (h : x ≠ .rightParen) : Matches c (eat x) (eat x) :=
  matches_eatKind nofun fun heq => h (TokenKind.symbol.inj heq)

theorem matches_eatWord (k : Keyword) : Matches c (eatWord k) (eatWord k) := matches_eatKind nofun nofun

/-- A token that must be there. -/
theorem matches_expectKind {k : TokenKind String} (hfile : k ≠ .endOfFile) :
    Matches c (expectKind k) (expectKind k) := by
  refine (failsAtEnd_expectKind hfile).matches fun s s' h => ?_
  have hexpect (s : State String) : expectKind k s = (if (s.current.kind == k) = true then
    advance >>= fun _ => pure s.current.span
    else fail (.invalidToken (s.current.kind.map Naming.text) (k.map Naming.text))
      s.current.span) s := rfl
  have hmatches : MatchesAt c (advance >>= fun _ => pure s.current.span)
      (advance >>= fun _ => pure s'.current.span) s s' :=
    h.matchesAt_advance.bind fun _ _ _ => matches_pure (same_span _ _)
  intro a mid hrun
  rw [hexpect] at hrun ⊢
  rw [h.kind_eq]
  split at hrun
  next hk =>
    rw [if_pos hk]
    exact hmatches a mid hrun
  next => cases hrun

theorem matches_expect (x : Symbol) : Matches c (expect x) (expect x) := matches_expectKind nofun

theorem matches_expectWord (k : Keyword) : Matches c (expectWord k) (expectWord k) :=
  matches_expectKind nofun

section

variable [Spanned α]

/-- Whether a token is there: the end of the text and a closing parenthesis are alike. -/
theorem matches_test (test : TokenKind String → Bool)
    (htest : test (.symbol .rightParen) = test .endOfFile) {f f' : Bool → Parser String α}
    (hf : ∀ b, Matches c (f b) (f' b)) :
    Matches c (kind >>= fun k => f (test k)) (kind >>= fun k => f' (test k)) := by
  intro s s' htracks
  have hsame : test s'.current.kind = test s.current.kind := by
    rcases htracks.cases_inside with hinside | ⟨hend, hstop⟩
    · rw [hinside.kind_eq]
    · rw [hstop, hend.kind]
      rcases c.stop_kind with h | h
      · rw [h]
      · rw [h, htest]
  have hmatches : MatchesAt c (f (test s.current.kind)) (f' (test s'.current.kind)) s s' := by
    rw [hsame]
    exact hf _ s s' htracks
  exact hmatches

theorem matches_at? (x : Symbol) (hx : x ≠ .rightParen) {f f' : Bool → Parser String α}
    (hf : ∀ b, Matches c (f b) (f' b)) : Matches c (at? x >>= f) (at? x >>= f') := by
  refine matches_test (· == .symbol x) ?_ hf
  exact beq_eq_false_iff_ne.mpr fun h => hx (TokenKind.symbol.inj h).symm

theorem matches_atWord? (k : Keyword) {f f' : Bool → Parser String α} (hf : ∀ b, Matches c (f b) (f' b)) :
    Matches c (atWord? k >>= f) (atWord? k >>= f') :=
  matches_test (· == .keyword k) rfl hf

end

/-! ## Line ends -/

/-- Line ends among the tokens are passed in both places, and they are not the last. -/
theorem Enclosure.Inside.skip (h : c.Inside s s') : ∃ mid mid', skipLineEnds s = .ok ((), mid) ∧
    skipLineEnds s' = .ok ((), mid') ∧ c.Inside mid mid' := by
  -- By induction on how many tokens are left.
  induction hn : s.rest.length generalizing s s' with
  | zero =>
      have hline : s.current.kind ≠ .endOfLine := by
        intro hline
        obtain ⟨t, rest, -, -, hrest, -⟩ := h.exists_next (by rw [hline]; rfl)
        rw [hrest] at hn
        cases hn
      exact ⟨s, s', skipLineEnds_of_ne hline, skipLineEnds_of_ne (h.kind_eq ▸ hline), h⟩
  | succ n ih =>
      by_cases hline : s.current.kind = .endOfLine
      · obtain ⟨t, rest, t', rest', hrest, hrest', hnext⟩ := h.exists_next (by rw [hline]; rfl)
        rw [skipLineEnds_of_cons hline hrest, skipLineEnds_of_cons (h.kind_eq.trans hline) hrest']
        rw [hrest] at hn
        exact ih hnext (Nat.succ.inj hn)
      · exact ⟨s, s', skipLineEnds_of_ne hline, skipLineEnds_of_ne (h.kind_eq ▸ hline), h⟩

/-- If only line ends are left of the tokens, none is. -/
theorem Enclosure.Tracks.atEnd_of_skip {last : State String} (h : c.Tracks s s')
    (hskip : skipLineEnds s = .ok ((), last)) (hend : last.current.kind = .endOfFile) :
    ∃ ws ws' classes, s = ⟨⟨c.here, .endOfFile⟩, [], .ok c.here, ws, classes⟩ ∧
      s' = ⟨c.stop, c.behind, c.ending, ws', classes⟩ ∧ List.Forall₂ c.AlikeWarning ws ws' := by
  rcases h.cases_inside with hinside | ⟨hatEnd, -⟩
  · obtain ⟨mid, _, hskip', -, hmid⟩ := hinside.skip
    obtain rfl : mid = last := by
      cases hskip'.symm.trans hskip
      rfl
    exact absurd hend (hmid.tokens _ List.mem_cons_self)
  · cases h with
    | inside _ _ htokens => exact absurd hatEnd.kind (htokens _ List.mem_cons_self)
    | atEnd hwarnings => exact ⟨_, _, _, rfl, rfl, hwarnings⟩

theorem matches_skipLineEnds : Matches c skipLineEnds skipLineEnds := by
  intro s s' htracks a mid hrun
  rcases htracks.cases_inside with hinside | ⟨hend, hstop⟩
  · obtain ⟨next, next', hskip, hskip', hnext⟩ := hinside.skip
    cases hskip.symm.trans hrun
    exact ⟨(), next', hskip', rfl, hnext.tracks⟩
  · obtain ⟨rfl, -⟩ := atEnd_skipLineEnds s hend a mid hrun
    have hline : s'.current.kind ≠ .endOfLine := by
      rw [hstop]
      exact c.stop_kind_ne nofun nofun
    exact ⟨(), s', skipLineEnds_of_ne hline, rfl, htracks⟩

theorem matches_eatLine (x : Symbol) (h : x ≠ .rightParen) : Matches c (eatLine x) (eatLine x) := by
  refine (matches_eat x h).andThen fun b => ?_
  cases b with
  | false => exact matches_pure rfl
  | true => exact matches_skipLineEnds.andThen fun _ => matches_pure rfl

theorem matches_expectLine (x : Symbol) : Matches c (expectLine x) (expectLine x) :=
  (matches_expect x).bind fun _ _ _ => matches_skipLineEnds.andThen fun _ => matches_pure rfl

/-! ## Names -/

/-- How a name is read. -/
theorem expectName_eq_ok {n : String × Span} {mid : State String} : expectName s = .ok (n, mid) ↔
    s.current.kind = .name n.1 ∧ n.2 = s.current.span ∧ ∃ t, advance s = .ok (t, mid) := by
  obtain ⟨⟨span, k⟩, rest, ending, warnings, classes⟩ := s
  obtain ⟨n, place⟩ := n
  cases k with
  | name m =>
      change (advance >>= fun _ => pure (m, span)) _ = _ ↔ _
      rw [bind_eq_ok]
      constructor
      · rintro ⟨t, _, hadvance, hpure⟩
        cases hpure
        exact ⟨rfl, rfl, t, hadvance⟩
      · rintro ⟨hkind, hspan, t, hadvance⟩
        cases hkind
        cases hspan
        exact ⟨t, mid, hadvance, rfl⟩
  | _ =>
      constructor
      · exact fun h => nomatch h
      · exact fun h => nomatch h.1

theorem matches_expectName : Matches c expectName expectName := by
  refine failsAtEnd_expectName.matches fun s s' h => ?_
  rintro ⟨n, span⟩ mid hrun
  obtain ⟨hkind, rfl, t, hadvance⟩ := expectName_eq_ok.mp hrun
  obtain ⟨t', mid', hadvance', -, htracks⟩ := h.matchesAt_advance t mid hadvance
  exact ⟨(n, s'.current.span), mid', expectName_eq_ok.mpr ⟨h.kind_eq.trans hkind, rfl, t', hadvance'⟩,
    same_pair rfl (same_span _ _), htracks⟩

/-- A name and the warning about it, at the name in either place. -/
theorem matches_declaredName : Matches c declaredName declaredName := by
  refine failsAtEnd_declaredName.matches fun s s' h => ?_
  rintro r last hrun
  obtain ⟨⟨n, span⟩, mid, hname, hmore⟩ := bind_eq_ok.mp hrun
  obtain ⟨⟨n', span'⟩, mid', hname', hsame, htracks⟩ := matches_expectName s s' h.tracks _ mid hname
  obtain ⟨-, hspan, -⟩ := expectName_eq_ok.mp hname
  obtain ⟨-, hspan', -⟩ := expectName_eq_ok.mp hname'
  dsimp only at hspan hspan' hmore
  obtain rfl : n = n' := hsame.fst.eq
  split at hmore
  next => cases hmore
  next hreserved =>
    cases hmore
    have halike : List.Forall₂ c.AlikeWarning (underscoreWarning? n span).toList
        (underscoreWarning? n span').toList := by
      have hplace : c.corresponds span span' := by
        rw [hspan, hspan']
        exact h.alike.span
      unfold underscoreWarning?
      split
      next => exact .cons ⟨rfl, hplace⟩ .nil
      next =>
        split
        next => exact .cons ⟨rfl, hplace⟩ .nil
        next => exact .nil
    refine ⟨(n, span'), { mid' with warnings := mid'.warnings ++ (underscoreWarning? n span').toList }, ?_,
      same_pair rfl (same_span _ _), htracks.withWarnings (List.rel_append htracks.warnings halike)⟩
    rw [declaredName, bind_eq hname']
    dsimp only
    rw [if_neg hreserved]
    rfl

theorem matches_label : Matches c label label := by
  refine (matches_eat .atSign nofun).andThen fun b => ?_
  cases b with
  | false => exact matches_pure rfl
  | true => exact matches_expectName.bind fun n n' hn => matches_pure (congrArg some hn.fst.eq)

theorem matches_pattern : Matches c pattern pattern := by
  refine (matches_eat .leftParen nofun).andThen fun b => ?_
  cases b with
  | false => exact matches_declaredName.bind fun n n' hn => matches_pure (congrArg Pattern.name hn.fst.eq)
  | true =>
      refine (matches_loop (fun names names' hnames => ?_) (Same.refl [])).andThen fun names => ?_
      · cases hnames.eq
        refine matches_declaredName.bind fun ⟨n, _⟩ ⟨n', _⟩ hn => ?_
        cases hn.fst.eq
        refine (matches_eat .comma nofun).andThen fun b => ?_
        cases b with
        | false => exact matches_pure rfl
        | true => exact matches_pure rfl
      · exact (matches_expect .rightParen).bind fun _ _ _ => matches_pure rfl

theorem matches_linkPath (n : String) : Matches c (linkPath n) (linkPath n) := by
  intro s s' htracks a mid hrun
  cases hrun
  refine ⟨_, s', ?_, rfl, htracks⟩
  change Except.ok (((s'.classes.head?.map Naming.text).getD "") ++ "." ++ n, s') = _
  rw [htracks.classes_eq]
  rfl

theorem Matches.withinClass [Spanned α] {p p' : Parser String α} (hp : Matches c p p') (n : String) :
    Matches c (Parser.withinClass n p) (Parser.withinClass n p') := by
  intro s s' htracks a last hrun
  rw [withinClass_eq] at hrun ⊢
  rw [htracks.classes_eq]
  cases hinner : p { s with classes := n :: s.classes } with
  | error e =>
      rw [hinner] at hrun
      cases hrun
  | ok result =>
      obtain ⟨b, mid⟩ := result
      rw [hinner] at hrun
      cases hrun
      obtain ⟨b', mid', hrun', hsame, htracks'⟩ := hp _ _ (htracks.withClasses _) a mid hinner
      rw [hrun']
      refine ⟨b', _, rfl, hsame, ?_⟩
      rw [htracks'.classes_eq]
      exact htracks'.withClasses mid.classes.tail

/-! ## Lists -/

section Lists

variable [Spanned α] {item item' : Parser String α}

theorem Matches.commaList (hitem : Matches c item item') :
    Matches c (Parser.commaList item) (Parser.commaList item') := by
  refine (matches_loop (fun found found' hfound => ?_) (Same.refl [])).bind fun found found' hfound =>
    matches_pure hfound.reverse
  refine hitem.bind fun a a' ha => ?_
  refine (matches_eatLine .comma nofun).andThen fun b => ?_
  cases b with
  | false => exact matches_pure (same_done (same_cons ha hfound))
  | true => exact matches_pure (same_again (same_cons ha hfound))

/-- Items up to a closing brace. -/
theorem Matches.untilBrace (hitem : Matches c item item') :
    Matches c (Parser.untilBrace item) (Parser.untilBrace item') := by
  refine (matches_loop (fun found found' hfound => ?_) (Same.refl [])).bind fun found found' hfound =>
    matches_pure hfound.reverse
  refine (matches_eat .rightBrace nofun).andThen fun b => ?_
  cases b with
  | true => exact matches_pure (same_done hfound)
  | false =>
      refine hitem.bind fun a a' ha => ?_
      exact matches_skipLineEnds.andThen fun _ => matches_pure (same_again (same_cons ha hfound))

end Lists

end IslandScript.Parser
