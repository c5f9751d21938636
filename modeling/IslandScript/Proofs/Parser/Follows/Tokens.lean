import IslandScript.Proofs.Parser.Follows

/-!
# Tokens, names and lists in a longer text

The parsers of `Parser.Basic` are followed. One that takes a token it needs is never stopped: it fails
where the tokens of the shorter text end. One that takes a token only if it is there may be stopped behind
the line ends, and then it took nothing. Only `skipLineEnds` comes to stand behind the line ends.
-/

namespace IslandScript.Parser

variable {α β : Type} [Spanned α] [Spanned β] {j : Seam} {Pre : Prop} {s s' : State String}

/-! ## The current token -/

namespace Seam.Tracks

theorem kind_eq (h : j.Tracks .inside s s') : s'.current.kind = s.current.kind := by
  cases h
  rfl

theorem span_eq (h : j.Tracks .inside s s') : s'.current.span = j.move s.current.span := by
  cases h
  rfl

theorem current_eq (h : j.Tracks .inside s s') :
    s'.current = ⟨j.move s.current.span, s.current.kind⟩ := by
  cases h
  rfl

theorem classes_eq {phase : Phase} (h : j.Tracks phase s s') : s'.classes = s.classes := by
  cases h <;> rfl

end Seam.Tracks

/-- Where the shorter stream ends, a line end comes next in the longer, or it ends too. -/
theorem Seam.tail_of_ending {j : Seam} {here : Span} (h : j.ending = .ok here) :
    (j.tail = [] ∧ j.ending' = .ok (j.move here)) ∨
      ∃ t rest, j.tail = t :: rest ∧ t.kind = .endOfLine := by
  obtain ⟨move, hmove, before, tail, ending, ending', joins⟩ := j
  dsimp only at h ⊢
  cases joins with
  | same =>
      cases h
      exact .inl ⟨rfl, rfl⟩
  | broken => cases h
  | upTo _ _ hne hends =>
      obtain ⟨t, ends, rfl⟩ := List.exists_cons_of_ne_nil hne
      exact .inr ⟨t, _, rfl, hends t List.mem_cons_self⟩
  | blank _ _ hne hends =>
      obtain ⟨t, ends, rfl⟩ := List.exists_cons_of_ne_nil hne
      exact .inr ⟨t, _, rfl, hends t List.mem_cons_self⟩

theorem advance_of_cons {s : State String} {t : Token String} {rest : List (Token String)}
    (h : s.rest = t :: rest) : advance s = .ok (s.current, { s with current := t, rest }) := by
  unfold advance
  rw [h]

theorem advance_of_end {s : State String} {here : Span} (h : s.rest = []) (hending : s.ending = .ok here) :
    advance s = .ok (s.current, { s with current := ⟨here, .endOfFile⟩ }) := by
  unfold advance
  rw [h, hending]

theorem advance_of_error {s : State String} {e : LexError} (h : s.rest = []) (hending : s.ending = .error e) :
    advance s = .error (.error ⟨.lexical e.kind, e.span, none⟩) := by
  unfold advance
  rw [h, hending]

/-- Within the tokens of the shorter stream both runs move on, at its end to a line end of the longer. -/
theorem followsAt_advance (h : j.Tracks .inside s s') :
    FollowsAt j advance advance (fun _ => False) (fun _ => False) s s' := by
  intro a mid hrun
  cases h with
  | @inside t rest ws classes htokens =>
      cases rest with
      | cons x rest =>
          cases hrun
          exact ⟨rfl, .inl ⟨.inside, _, rfl,
            .inside fun hne y hy => htokens hne y (List.mem_cons_of_mem t hy), fun h => nomatch h⟩⟩
      | nil =>
          cases hending : j.ending with
          | error e =>
              rw [advance_of_error rfl hending] at hrun
              cases hrun
          | ok here =>
              rw [advance_of_end rfl hending] at hrun
              cases hrun
              refine ⟨rfl, .inl ?_⟩
              rcases j.tail_of_ending hending with ⟨htail, hending'⟩ | ⟨x, rest, htail, hline⟩
              · have hrest : (moved j.move [] : List (Token String)) ++ j.tail = [] := htail
                refine ⟨.inside, _, advance_of_end hrest hending', ?_, fun h => nomatch h⟩
                exact .inside (t := ⟨here, .endOfFile⟩) fun hne => absurd htail hne
              · have hrest : (moved j.move [] : List (Token String)) ++ j.tail = x :: rest := htail
                exact ⟨.atBreak, _, advance_of_cons hrest, .atBreak hending htail hline,
                  fun h => nomatch h⟩

theorem Follows.at {p p' : Parser String α} {U O : α → Prop} (hp : Follows j False p p' U O)
    (h : j.Tracks .inside s s') : FollowsAt j p p' U O s s' :=
  hp .inside s s' h fun hphase => nomatch hphase

/-- A parser that starts by looking at the current token. -/
theorem followsAt_kind {c c' : TokenKind String → Parser String α} {U O : α → Prop}
    (h : FollowsAt j (c s.current.kind) (c' s'.current.kind) U O s s') :
    FollowsAt j (kind >>= c) (kind >>= c') U O s s' := h

theorem followsAt_get {c c' : State String → Parser String α} {U O : α → Prop}
    (h : FollowsAt j (c s) (c' s') U O s s') : FollowsAt j (get >>= c) (get >>= c') U O s s' := h

theorem followsAt_here {c c' : Span → Parser String α} {U O : α → Prop}
    (h : FollowsAt j (c s.current.span) (c' s'.current.span) U O s s') :
    FollowsAt j (here >>= c) (here >>= c') U O s s' := h

theorem eatKind_apply (k : TokenKind String) (s : State String) :
    eatKind k s = (if (s.current.kind == k) = true then advance >>= fun _ => pure true
      else pure false) s := rfl

theorem eatKind_of_ne {k : TokenKind String} (h : s.current.kind ≠ k) :
    eatKind k s = .ok (false, s) := by
  rw [eatKind_apply, beq_eq_false_iff_ne.mpr h, if_neg Bool.false_ne_true]
  rfl

theorem eatKind_of_eq {k : TokenKind String} (h : s.current.kind = k) :
    eatKind k s = (advance >>= fun _ => pure true) s := by
  rw [eatKind_apply, if_pos (beq_iff_eq.mpr h)]

theorem atEnd_eatKind {k : TokenKind String} (hk : k ≠ .endOfFile) : AtEnd (eatKind k) (· = false) := by
  intro s hs b s' hrun
  have hnot : s.current.kind ≠ k := by
    rw [hs.kind]
    exact hk.symm
  rw [eatKind_of_ne hnot] at hrun
  cases hrun
  exact ⟨rfl, rfl⟩

/-- A token that may be there: behind the line ends it is not taken, or the longer stream breaks off
behind it. -/
theorem follows_eatKind {k : TokenKind String} (hline : k ≠ .endOfLine) (hfile : k ≠ .endOfFile) :
    Follows j Pre (eatKind k) (eatKind k) (fun b => b = false ∧ Pre)
      (fun b => b = false ∧ Pre ∧ j.Next k) := by
  intro phase s s' htracks hpre
  by_cases hphase : phase = .inside
  · subst hphase
    by_cases hk : s.current.kind = k
    · have hk' : s'.current.kind = k := htracks.kind_eq.trans hk
      intro a mid hrun
      rw [eatKind_of_eq hk] at hrun
      rw [eatKind_of_eq hk']
      have hfollows : FollowsAt j (advance >>= fun _ => pure true) (advance >>= fun _ => pure true)
          (fun b => b = false ∧ Pre) (fun b => b = false ∧ Pre ∧ j.Next k) s s' :=
        (followsAt_advance htracks).bind (fun _ => follows_pure rfl fun h => h.elim)
          fun _ h => h.elim
      exact hfollows a mid hrun
    · have hk' : s'.current.kind ≠ k := fun h => hk (htracks.kind_eq.symm.trans h)
      intro a mid hrun
      rw [eatKind_of_ne hk] at hrun
      cases hrun
      exact ⟨rfl, .inl ⟨.inside, s', eatKind_of_ne hk', htracks, fun h => nomatch h⟩⟩
  · intro a mid hrun
    have hatEnd := htracks.isEnd hphase
    obtain ⟨rfl, rfl⟩ := atEnd_eatKind hfile s hatEnd a mid hrun
    refine ⟨rfl, ?_⟩
    cases htracks with
    | inside => exact absurd rfl hphase
    | atBreak hending htail hline' =>
        refine .inl ⟨.atBreak, _, eatKind_of_ne ?_, .atBreak hending htail hline', fun h => nomatch h⟩
        exact fun h => hline (h.symm.trans hline')
    | @first here t e ws classes hending htail hline' hending' =>
        -- The longer stream has just this token: to take it is to come to where it breaks off.
        by_cases hk : t.kind = k
        · refine .inr ⟨?_, hatEnd, rfl, hpre rfl, t, htail, hk⟩
          rw [eatKind_of_eq hk]
          exact ⟨_, bind_eq_error (advance_of_error rfl hending')⟩
        · exact .inl ⟨.passed, _, eatKind_of_ne hk, .first hending htail hline' hending',
            fun _ => ⟨rfl, hpre rfl⟩⟩
    | finished hending hending' =>
        exact .inl ⟨.passed, _, eatKind_of_ne (Ne.symm hfile), .finished hending hending',
          fun _ => ⟨rfl, hpre rfl⟩⟩

theorem follows_eat (x : Symbol) :
    Follows j Pre (eat x) (eat x) (fun b => b = false ∧ Pre)
      (fun b => b = false ∧ Pre ∧ j.Next (.symbol x)) :=
  follows_eatKind (fun h => nomatch h) (fun h => nomatch h)

theorem follows_eatWord (k : Keyword) :
    Follows j Pre (eatWord k) (eatWord k) (fun b => b = false ∧ Pre)
      (fun b => b = false ∧ Pre ∧ j.Next (.keyword k)) :=
  follows_eatKind (fun h => nomatch h) (fun h => nomatch h)

theorem atEnd_eat (x : Symbol) : AtEnd (eat x) (· = false) := atEnd_eatKind fun h => nomatch h

theorem atEnd_eatWord (k : Keyword) : AtEnd (eatWord k) (· = false) := atEnd_eatKind fun h => nomatch h

/-- Where the run on the longer stream cannot be behind the line ends, it is not stopped. -/
theorem follows_eat_closed (x : Symbol) :
    Follows j False (eat x) (eat x) (fun _ => False) (fun _ => False) :=
  (follows_eat x).imp (fun _ h => h.2) fun _ h => h.2.1

theorem follows_eatWord_closed (k : Keyword) :
    Follows j False (eatWord k) (eatWord k) (fun _ => False) (fun _ => False) :=
  (follows_eatWord k).imp (fun _ h => h.2) fun _ h => h.2.1

theorem atEnd_kind : AtEnd kind (· = .endOfFile) := by
  intro s hs k s' hrun
  cases hrun
  exact ⟨rfl, hs.kind⟩

theorem atEnd_here : AtEnd here fun _ => True := by
  intro s _ span s' hrun
  cases hrun
  exact ⟨rfl, trivial⟩

theorem followsAt_pure {a a' : α} {U O : α → Prop} (ha : a' = moved j.move a)
    (htracks : j.Tracks .inside s s') : FollowsAt j (pure a) (pure a') U O s s' := by
  intro _ _ hrun
  cases hrun
  subst ha
  exact ⟨rfl, .inl ⟨.inside, s', rfl, htracks, fun h => nomatch h⟩⟩

theorem followsAt_isKind {k : TokenKind String} {c c' : Bool → Parser String α} {U O : α → Prop}
    (htracks : j.Tracks .inside s s') (h : ∀ b, FollowsAt j (c b) (c' b) U O s s') :
    FollowsAt j ((return (← kind) == k) >>= c) ((return (← kind) == k) >>= c') U O s s' := by
  intro a mid hrun
  have hsame : (s'.current.kind == k) = (s.current.kind == k) := by
    rw [htracks.kind_eq]
  have hrun' : ((return (← kind) == k) >>= c') s' = c' (s.current.kind == k) s' := by
    rw [← hsame]
    rfl
  rw [hrun']
  exact h _ a mid hrun

theorem followsAt_at? {x : Symbol} {c c' : Bool → Parser String α} {U O : α → Prop}
    (htracks : j.Tracks .inside s s') (h : ∀ b, FollowsAt j (c b) (c' b) U O s s') :
    FollowsAt j (at? x >>= c) (at? x >>= c') U O s s' := followsAt_isKind htracks h

theorem followsAt_atWord? {k : Keyword} {c c' : Bool → Parser String α} {U O : α → Prop}
    (htracks : j.Tracks .inside s s') (h : ∀ b, FollowsAt j (c b) (c' b) U O s s') :
    FollowsAt j (atWord? k >>= c) (atWord? k >>= c') U O s s' := followsAt_isKind htracks h

omit [Spanned α] in
theorem atEnd_isKind {k : TokenKind String} (hk : k ≠ .endOfFile) :
    AtEnd (return (← kind) == k) (· = false) := by
  intro s hs b s' hrun
  cases hrun
  refine ⟨rfl, ?_⟩
  rw [hs.kind]
  exact beq_eq_false_iff_ne.mpr (Ne.symm hk)

omit [Spanned α] in
theorem atEnd_at? (x : Symbol) : AtEnd (at? x) (· = false) := atEnd_isKind fun h => nomatch h

omit [Spanned α] in
theorem atEnd_atWord? (k : Keyword) : AtEnd (atWord? k) (· = false) := atEnd_isKind fun h => nomatch h

/-! ## Tokens that may be there -/

/-- A parser that may take a token: it takes only one that goes on with what is unfinished, and needs what
is behind it. -/
structure MayTake (p : Parser String α) (a : α) (s : State String) : Prop where
  stays : goesOn s.current.kind = false → p s = .ok (a, s)
  stops : s.rest = [] → ∀ e, s.ending = .error e → p s = .ok (a, s) ∨ ∃ failure, p s = .error failure

section

omit [Spanned α] [Spanned β]

theorem mayTake_pure {a : α} : MayTake (pure a) a s := ⟨fun _ => rfl, fun _ _ _ => .inl rfl⟩

theorem mayTake_advance {c : Token String → Parser String α} {a : α} (h : goesOn s.current.kind = true) :
    MayTake (advance >>= c) a s := by
  refine ⟨fun hnot => absurd (hnot.symm.trans h) Bool.false_ne_true, fun hrest e hending => .inr ?_⟩
  exact ⟨_, bind_eq_error (advance_of_error hrest hending)⟩

theorem mayTake_get {c : State String → Parser String α} {a : α} (h : MayTake (c s) a s) : MayTake (get >>= c) a s :=
  ⟨h.stays, h.stops⟩

theorem mayTake_kind {c : TokenKind String → Parser String α} {a : α} (h : MayTake (c s.current.kind) a s) :
    MayTake (kind >>= c) a s := ⟨h.stays, h.stops⟩

theorem mayTake_at? {x : Symbol} {c : Bool → Parser String α} {a : α}
    (h : MayTake (c (s.current.kind == .symbol x)) a s) : MayTake (at? x >>= c) a s :=
  ⟨h.stays, h.stops⟩

theorem MayTake.atEnd {p : Parser String α} {a : α} {U : α → Prop} (h : ∀ s, MayTake p a s) (ha : U a) :
    AtEnd p U := by
  intro s hs b s' hrun
  rw [(h s).stays (by rw [hs.kind]; rfl)] at hrun
  cases hrun
  exact ⟨rfl, ha⟩

end

/-- At the end of the shorter stream such a parser takes nothing, and in the longer it takes a token only
if that goes on with what is unfinished. -/
theorem follows_mayTake {p p' : Parser String α} {U O : α → Prop} {a : α}
    (hinside : ∀ s s', j.Tracks .inside s s' → FollowsAt j p p' U O s s')
    (hp : ∀ s, MayTake p a s) (hp' : ∀ s, MayTake p' (moved j.move a) s)
    (hU : Pre → U a) (hO : Pre → j.GoesOn → O a) : Follows j Pre p p' U O := by
  intro phase s s' htracks hpre
  by_cases hphase : phase = .inside
  · subst hphase
    exact hinside s s' htracks
  · intro b mid hrun
    have hatEnd := htracks.isEnd hphase
    rw [(hp s).stays (by rw [hatEnd.kind]; rfl)] at hrun
    cases hrun
    refine ⟨rfl, ?_⟩
    cases htracks with
    | inside => exact absurd rfl hphase
    | @atBreak here t rest ws classes hending htail hline =>
        have hstays : goesOn t.kind = false := by
          rw [hline]
          rfl
        exact .inl ⟨.atBreak, _, (hp' _).stays hstays, .atBreak hending htail hline, fun h => nomatch h⟩
    | @first here t e ws classes hending htail hline hending' =>
        have htracks : j.Tracks .passed ⟨⟨here, .endOfFile⟩, [], j.ending, ws, classes⟩
            ⟨t, [], j.ending', j.before ++ moved j.move ws, classes⟩ :=
          .first hending htail hline hending'
        -- The first token behind the line ends is taken only if it goes on with what is unfinished, and then
        -- the longer stream breaks off behind it.
        cases hgoesOn : goesOn t.kind with
        | false => exact .inl ⟨.passed, _, (hp' _).stays hgoesOn, htracks, fun _ => hU (hpre rfl)⟩
        | true =>
            rcases (hp' ⟨t, [], _, _, _⟩).stops rfl e hending' with hok | hfails
            · exact .inl ⟨.passed, _, hok, htracks, fun _ => hU (hpre rfl)⟩
            · exact .inr ⟨hfails, hatEnd, hO (hpre rfl) ⟨t.kind, ⟨t, htail, rfl⟩, hgoesOn⟩⟩
    | finished hending hending' =>
        exact .inl ⟨.passed, _, (hp' _).stays rfl, .finished hending hending', fun _ => hU (hpre rfl)⟩

/-! ## Tokens that must be there -/

omit [Spanned α] in
theorem failsAtEnd_fail {kind : ParseErrorKind} {span : Span} :
    FailsAtEnd (fail kind span : Parser String α) := failsAtEnd_throw

theorem failsAtEnd_expectKind {k : TokenKind String} (hk : k ≠ .endOfFile) :
    FailsAtEnd (expectKind k) := by
  intro s hs a s' hrun
  have hnot : (s.current.kind == k) = false := by
    rw [hs.kind, beq_eq_false_iff_ne]
    exact Ne.symm hk
  have hexpect : expectKind k s = (if (s.current.kind == k) = true then
    advance >>= fun _ => pure s.current.span
    else fail (.invalidToken (s.current.kind.map Naming.text) (k.map Naming.text))
      s.current.span) s := rfl
  rw [hexpect, hnot, if_neg Bool.false_ne_true] at hrun
  cases hrun

theorem failsAtEnd_expect (x : Symbol) : FailsAtEnd (expect x) := failsAtEnd_expectKind fun h => nomatch h

theorem failsAtEnd_expectWord (k : Keyword) : FailsAtEnd (expectWord k) :=
  failsAtEnd_expectKind fun h => nomatch h

theorem follows_expectKind {k : TokenKind String} (hk : k ≠ .endOfFile) :
    Follows j Pre (expectKind k) (expectKind k) (fun _ => False) (fun _ => False) := by
  refine (failsAtEnd_expectKind hk).follows fun s s' htracks => ?_
  refine followsAt_get ?_
  dsimp only
  rw [htracks.kind_eq, htracks.span_eq]
  split
  next =>
    exact (followsAt_advance htracks).bind (fun _ => follows_pure rfl id) fun _ h => h.elim
  next => exact fun _ _ hrun => nomatch hrun

theorem follows_expect (x : Symbol) :
    Follows j Pre (expect x) (expect x) (fun _ => False) (fun _ => False) :=
  follows_expectKind fun h => nomatch h

theorem follows_expectWord (k : Keyword) :
    Follows j Pre (expectWord k) (expectWord k) (fun _ => False) (fun _ => False) :=
  follows_expectKind fun h => nomatch h

/-! ## Line ends -/

section LineEnds

variable {σ τ : Type} {round : σ → Parser String (Step σ τ)}

theorem iterate_congr {bound bound' : List (Token String)} (h : bound.length = bound'.length) (a : σ) :
    iterate bound round a = iterate bound' round a := by
  induction bound generalizing bound' a with
  | nil =>
      cases bound' with
      | nil => rfl
      | cons t bound' => cases h
  | cons t bound ih =>
      cases bound' with
      | nil => cases h
      | cons t' bound' =>
          rw [iterate_cons, iterate_cons]
          congr 1
          funext step
          cases step with
          | again a => exact ih (Nat.succ.inj h) a
          | done b => rfl

theorem iterate_again {a a' : σ} {mid : State String} (h : round a s = .ok (.again a', mid))
    (t : Token String) (bound : List (Token String)) :
    iterate (t :: bound) round a s = iterate bound round a' mid := by
  rw [iterate_cons, bind_eq h]

theorem iterate_done {a : σ} {b : τ} {mid : State String} (h : round a s = .ok (.done b, mid))
    (t : Token String) (bound : List (Token String)) :
    iterate (t :: bound) round a s = .ok (b, mid) := by
  rw [iterate_cons, bind_eq h]
  rfl

end LineEnds

/-- Moves past one line end. -/
def lineEndRound (_ : Unit) : Parser String (Step Unit Unit) := do
  if ← eatKind .endOfLine then return .again () else return .done ()

theorem skipLineEnds_eq : skipLineEnds = loop lineEndRound () := rfl

theorem lineEndRound_of_ne (h : s.current.kind ≠ .endOfLine) :
    lineEndRound () s = .ok (.done (), s) := by
  unfold lineEndRound
  rw [bind_eq (eatKind_of_ne h)]
  rfl

theorem lineEndRound_of_eq {t : Token String} {mid : State String} (h : s.current.kind = .endOfLine)
    (hadvance : advance s = .ok (t, mid)) : lineEndRound () s = .ok (.again (), mid) := by
  have heat : eatKind .endOfLine s = .ok (true, mid) := by
    rw [eatKind_of_eq h, bind_eq hadvance]
    rfl
  unfold lineEndRound
  rw [bind_eq heat]
  rfl

theorem skipLineEnds_of_ne (h : s.current.kind ≠ .endOfLine) : skipLineEnds s = .ok ((), s) := by
  rw [skipLineEnds_eq, loop_apply]
  exact iterate_done (lineEndRound_of_ne h) _ _

theorem skipLineEnds_of_cons {t : Token String} {rest : List (Token String)}
    (h : s.current.kind = .endOfLine) (hrest : s.rest = t :: rest) :
    skipLineEnds s = skipLineEnds { s with current := t, rest } := by
  rw [skipLineEnds_eq, loop_apply, loop_apply,
    iterate_again (lineEndRound_of_eq h (advance_of_cons hrest)), hrest]
  exact congrFun (iterate_congr rfl ()) _

theorem skipLineEnds_of_nil {here : Span} (h : s.current.kind = .endOfLine) (hrest : s.rest = [])
    (hending : s.ending = .ok here) :
    skipLineEnds s = .ok ((), { s with current := ⟨here, .endOfFile⟩ }) := by
  rw [skipLineEnds_eq, loop_apply,
    iterate_again (lineEndRound_of_eq h (advance_of_end hrest hending))]
  refine iterate_done (lineEndRound_of_ne ?_) _ _
  exact fun h => nomatch h

theorem skipLineEnds_of_error {e : LexError} (h : s.current.kind = .endOfLine) (hrest : s.rest = [])
    (hending : s.ending = .error e) :
    skipLineEnds s = .error (.error ⟨.lexical e.kind, e.span, none⟩) := by
  rw [skipLineEnds_eq, loop_apply, iterate_cons]
  apply bind_eq_error
  unfold lineEndRound
  apply bind_eq_error
  rw [eatKind_of_eq h]
  exact bind_eq_error (advance_of_error hrest hending)

/-- Behind all the line ends of a stream stands another token, or its end. -/
theorem skipLineEnds_append {ends : List (Token String)} (hends : ∀ t ∈ ends, t.kind = .endOfLine)
    {t : Token String} {rest : List (Token String)} (hline : s.current.kind = .endOfLine)
    (hrest : s.rest = ends ++ t :: rest) :
    skipLineEnds s = skipLineEnds { s with current := t, rest } := by
  induction ends generalizing s with
  | nil => exact skipLineEnds_of_cons hline hrest
  | cons x ends ih =>
      rw [skipLineEnds_of_cons hline hrest]
      exact ih (fun y hy => hends y (List.mem_cons_of_mem x hy)) (hends x List.mem_cons_self) rfl

/-- Line ends leave the classes as they are, and none is left. -/
theorem skipLineEnds_eq_ok {mid : State String} (h : skipLineEnds s = .ok ((), mid)) :
    mid.classes = s.classes ∧ mid.current.kind ≠ .endOfLine := by
  obtain ⟨t, rest, ending, warnings, classes⟩ := s
  induction rest generalizing t with
  | nil =>
      by_cases hline : t.kind = .endOfLine
      · cases ending with
        | error e =>
            rw [skipLineEnds_of_error hline rfl rfl] at h
            cases h
        | ok here =>
            rw [skipLineEnds_of_nil hline rfl rfl] at h
            cases h
            exact ⟨rfl, fun h => nomatch h⟩
      · rw [skipLineEnds_of_ne hline] at h
        cases h
        exact ⟨rfl, hline⟩
  | cons x rest ih =>
      by_cases hline : t.kind = .endOfLine
      · rw [skipLineEnds_of_cons hline rfl] at h
        exact ih x h
      · rw [skipLineEnds_of_ne hline] at h
        cases h
        exact ⟨rfl, hline⟩

theorem atEnd_skipLineEnds : AtEnd skipLineEnds fun _ => True := by
  intro s hs a s' hrun
  rw [skipLineEnds_of_ne (by rw [hs.kind]; exact fun h => nomatch h)] at hrun
  cases hrun
  exact ⟨rfl, trivial⟩

/-- At a line end before what the longer stream has more, the run on it comes to stand behind all line
ends. -/
theorem skipLineEnds_of_tail {here : Span} (s' : State String) (hending : j.ending = .ok here) (hne : j.tail ≠ [])
    (hline : s'.current.kind = .endOfLine) (hrest : s'.rest = j.tail) (hending' : s'.ending = j.ending')
    {ws : List ParseWarning} (hwarnings : s'.warnings = j.before ++ moved j.move ws) :
    ∃ mid, skipLineEnds s' = .ok ((), mid) ∧
      j.Tracks .passed ⟨⟨here, .endOfFile⟩, [], j.ending, ws, s'.classes⟩ mid := by
  obtain ⟨current, rest, ending, warnings, classes⟩ := s'
  dsimp only at hline hrest hending' hwarnings ⊢
  subst hrest hending' hwarnings
  obtain ⟨move, hmove, before, tail, ending, ending', joins⟩ := j
  dsimp only at hending hne ⊢
  cases joins with
  | same => exact absurd rfl hne
  | broken => cases hending
  | @upTo ends first _ e _ hends hfirst =>
      refine ⟨_, ?_, .first (t := first) hending ?_ hfirst rfl⟩
      · rw [skipLineEnds_append hends hline rfl]
        exact skipLineEnds_of_ne hfirst
      · exact List.getLast?_concat
  | blank _ last _ hends =>
      obtain ⟨more, t, rfl⟩ := (List.eq_nil_or_concat' tail).resolve_left hne
      refine ⟨_, ?_, .finished hending rfl⟩
      rw [skipLineEnds_append (fun x hx => hends x (List.mem_append_left _ hx)) hline rfl]
      exact skipLineEnds_of_nil (hends t (by simp)) rfl rfl

/-- Line ends are passed, and only here the run on the longer stream comes to stand behind those that
follow the shorter. -/
theorem follows_skipLineEnds :
    Follows j Pre skipLineEnds skipLineEnds (fun _ => True) (fun _ => False) := by
  intro phase s s' htracks _ a mid hrun
  refine ⟨(skipLineEnds_eq_ok hrun).1, .inl ?_⟩
  cases htracks with
  | @inside t rest ws classes htokens =>
      -- By induction on the tokens of the shorter stream: past the last of them the longer may have more
      -- line ends, and the run on it passes these as well.
      induction rest generalizing t with
      | nil =>
          by_cases hline : t.kind = .endOfLine
          · cases hending : j.ending with
            | error e =>
                rw [skipLineEnds_of_error hline rfl hending] at hrun
                cases hrun
            | ok here =>
                rw [skipLineEnds_of_nil hline rfl hending] at hrun
                cases hrun
                rcases j.tail_of_ending hending with ⟨htail, hending'⟩ | ⟨x, rest, htail, -⟩
                · have hrest : (moved j.move [] : List (Token String)) ++ j.tail = [] := htail
                  refine ⟨.inside, _, skipLineEnds_of_nil hline hrest hending', ?_, fun h => nomatch h⟩
                  exact .inside (t := ⟨here, .endOfFile⟩) fun hne => absurd htail hne
                · have hne : j.tail ≠ [] := by
                    rw [htail]
                    exact List.cons_ne_nil _ _
                  obtain ⟨mid', hrun', htracks⟩ := skipLineEnds_of_tail
                    ⟨moved j.move t, moved j.move [] ++ j.tail, j.ending', _, classes⟩
                    hending hne hline rfl rfl rfl
                  exact ⟨.passed, mid', hrun', htracks, fun _ => trivial⟩
          · rw [skipLineEnds_of_ne hline] at hrun
            cases hrun
            exact ⟨.inside, _, skipLineEnds_of_ne hline, .inside htokens, fun h => nomatch h⟩
      | cons x rest ih =>
          by_cases hline : t.kind = .endOfLine
          · rw [skipLineEnds_of_cons hline rfl] at hrun
            have hskip : skipLineEnds ⟨moved j.move t, moved j.move (x :: rest) ++ j.tail, j.ending',
                j.before ++ moved j.move ws, classes⟩ = _ := skipLineEnds_of_cons hline rfl
            rw [hskip]
            exact ih (fun hne y hy => htokens hne y (List.mem_cons_of_mem t hy)) hrun
          · rw [skipLineEnds_of_ne hline] at hrun
            cases hrun
            exact ⟨.inside, _, skipLineEnds_of_ne hline, .inside htokens, fun h => nomatch h⟩
  | @atBreak here t rest ws classes hending htail hline =>
      -- Only the longer stream has a line end here. To pass it is the same as to pass it as the first of all
      -- those in the tail.
      obtain ⟨rfl, -⟩ := atEnd_skipLineEnds _ ⟨rfl, rfl⟩ a mid hrun
      have hne : j.tail ≠ [] := by
        rw [htail]
        exact List.cons_ne_nil _ _
      obtain ⟨mid', hrun', htracks⟩ := skipLineEnds_of_tail
        ⟨t, j.tail, j.ending', j.before ++ moved j.move ws, classes⟩ hending hne hline rfl rfl rfl
      have hskip : skipLineEnds ⟨t, j.tail, j.ending', j.before ++ moved j.move ws, classes⟩ = _ :=
        skipLineEnds_of_cons hline htail
      rw [hskip] at hrun'
      exact ⟨.passed, mid', hrun', htracks, fun _ => trivial⟩
  | first hending htail hline hending' =>
      obtain ⟨rfl, -⟩ := atEnd_skipLineEnds _ ⟨rfl, rfl⟩ a mid hrun
      exact ⟨.passed, _, skipLineEnds_of_ne hline, .first hending htail hline hending',
        fun _ => trivial⟩
  | finished hending hending' =>
      obtain ⟨rfl, -⟩ := atEnd_skipLineEnds _ ⟨rfl, rfl⟩ a mid hrun
      exact ⟨.passed, _, skipLineEnds_of_ne (fun h => nomatch h), .finished hending hending',
        fun _ => trivial⟩

theorem follows_eatLine (x : Symbol) :
    Follows j Pre (eatLine x) (eatLine x) (fun b => b = true ∨ Pre)
      (fun b => b = false ∧ Pre ∧ j.Next (.symbol x)) := by
  refine (follows_eat x).bind (fun b => ?_) fun b hb => ?_
  · cases b with
    | false => exact follows_pure rfl fun h => .inr h.2
    | true => exact follows_skipLineEnds.andThen fun _ => follows_pure rfl fun _ => .inl rfl
  · rw [hb.1]
    exact atEnd_pure ⟨rfl, hb.2⟩

theorem atEnd_eatLine (x : Symbol) : AtEnd (eatLine x) (· = false) := by
  refine (atEnd_eat x).bind fun b hb => ?_
  rw [hb]
  exact atEnd_pure rfl

theorem follows_expectLine (x : Symbol) :
    Follows j Pre (expectLine x) (expectLine x) (fun _ => True) (fun _ => False) :=
  (follows_expect x).andThen fun _ => follows_skipLineEnds.andThen fun _ => follows_pure rfl id

theorem failsAtEnd_expectLine (x : Symbol) : FailsAtEnd (expectLine x) := (failsAtEnd_expect x).bind

/-! ## Names -/

theorem failsAtEnd_expectName : FailsAtEnd expectName := by
  intro s hs a s' hrun
  obtain ⟨t, s₁, hget, hrest⟩ := bind_eq_ok.mp hrun
  cases hget
  rw [hs.kind] at hrest
  cases hrest

theorem follows_expectName :
    Follows j Pre expectName expectName (fun _ => False) (fun _ => False) := by
  refine failsAtEnd_expectName.follows fun s s' htracks => ?_
  refine followsAt_get ?_
  dsimp only
  rw [htracks.kind_eq, htracks.span_eq]
  split
  next => exact (followsAt_advance htracks).bind (fun _ => follows_pure rfl id) fun _ h => h.elim
  next => exact fun _ _ hrun => nomatch hrun

theorem moved_underscoreWarning? (f : Span → Span) (n : String) (span : Span) :
    moved f (underscoreWarning? n span).toList = (underscoreWarning? n (f span)).toList := by
  unfold underscoreWarning?
  split
  next => rfl
  next => split <;> rfl

/-- Warnings do not move a parser. -/
theorem follows_warn {ws ws' : List ParseWarning} (h : moved j.move ws = ws') :
    Follows j Pre (modify fun s => { s with warnings := s.warnings ++ ws })
      (modify fun s => { s with warnings := s.warnings ++ ws' }) (fun _ => Pre) (fun _ => False) := by
  intro phase s s' htracks hpre a mid hrun
  cases hrun
  have hwarnings (old : List ParseWarning) : j.before ++ moved j.move old ++ ws' =
      j.before ++ moved j.move (old ++ ws) := by
    rw [← h, List.append_assoc]
    simp only [moved, List.map_append]
  refine ⟨rfl, .inl ⟨phase, _, rfl, ?_, hpre⟩⟩
  cases htracks with
  | inside htokens =>
      dsimp only
      rw [hwarnings]
      exact .inside htokens
  | atBreak hending htail hline =>
      dsimp only
      rw [hwarnings]
      exact .atBreak hending htail hline
  | first hending htail hline hending' =>
      dsimp only
      rw [hwarnings]
      exact .first hending htail hline hending'
  | finished hending hending' =>
      dsimp only
      rw [hwarnings]
      exact .finished hending hending'

theorem failsAtEnd_declaredName : FailsAtEnd declaredName := failsAtEnd_expectName.bind

theorem follows_declaredName :
    Follows j Pre declaredName declaredName (fun _ => False) (fun _ => False) := by
  refine follows_expectName.andThen fun ⟨n, span⟩ => ?_
  dsimp only [moved]
  split
  next => exact follows_fail
  next =>
    exact (follows_warn (moved_underscoreWarning? _ n span)).andThen fun _ => follows_pure rfl id

theorem follows_label : Follows j False label label (fun _ => False) (fun _ => False) := by
  refine (follows_eat_closed .atSign).andThen fun b => ?_
  cases b with
  | false => exact follows_pure rfl id
  | true => exact follows_expectName.andThen fun _ => follows_pure rfl id

theorem follows_pattern : Follows j False pattern pattern (fun _ => False) (fun _ => False) := by
  refine (follows_eat_closed .leftParen).andThen fun b => ?_
  cases b with
  | false => exact follows_declaredName.andThen fun _ => follows_pure rfl id
  | true =>
      refine (follows_loop (I := fun _ => False) (J := fun _ => False) (V := fun _ => False)
        (W := fun _ => False) (fun names => ?_) (fun _ h => h.elim) []).andThen fun names => ?_
      · refine follows_declaredName.andThen fun ⟨n, span⟩ => ?_
        refine (follows_eat_closed .comma).andThen fun b => ?_
        cases b with
        | false => exact follows_pure rfl id
        | true => exact follows_pure rfl id
      · exact (follows_expect .rightParen).andThen fun _ => follows_pure rfl id

theorem follows_linkPath (n : String) :
    Follows j Pre (linkPath n) (linkPath n) (fun _ => Pre) (fun _ => False) := by
  intro phase s s' htracks hpre a mid hrun
  cases hrun
  refine ⟨rfl, .inl ⟨phase, s', ?_, htracks, hpre⟩⟩
  change Except.ok (((s'.classes.head?.map Naming.text).getD "") ++ "." ++ n, s') = _
  rw [htracks.classes_eq]
  rfl

/-- The classes around a parser do not move it. -/
theorem Seam.Tracks.withClasses {phase : Phase} (h : j.Tracks phase s s') (classes : List String) :
    j.Tracks phase { s with classes } { s' with classes } := by
  cases h with
  | inside htokens => exact .inside htokens
  | atBreak hending htail hline => exact .atBreak hending htail hline
  | first hending htail hline hending' => exact .first hending htail hline hending'
  | finished hending hending' => exact .finished hending hending'

omit [Spanned α] in
theorem withinClass_eq (n : String) (p : Parser String α) (s : State String) :
    Parser.withinClass n p s =
      (p { s with classes := n :: s.classes }).map fun (a, mid) =>
        (a, { mid with classes := mid.classes.tail }) := by
  change (p { s with classes := n :: s.classes }).bind _ = _
  cases p { s with classes := n :: s.classes } <;> rfl

theorem Follows.withinClass {p p' : Parser String α} {U O : α → Prop} (hp : Follows j Pre p p' U O)
    (n : String) : Follows j Pre (Parser.withinClass n p) (Parser.withinClass n p') U O := by
  intro phase s s' htracks hpre a last hrun
  rw [withinClass_eq] at hrun ⊢
  rw [htracks.classes_eq]
  cases hinner : p { s with classes := n :: s.classes } with
  | error e =>
      rw [hinner] at hrun
      cases hrun
  | ok result =>
      obtain ⟨b, mid⟩ := result
      rw [hinner] at hrun
      cases hrun
      obtain ⟨hclasses, h⟩ := hp phase _ _ (htracks.withClasses (n :: s.classes)) hpre a mid hinner
      refine ⟨congrArg List.tail hclasses, ?_⟩
      rcases h with ⟨phase', mid', hrun', htracks', hpassed⟩ | ⟨⟨e, he⟩, hatEnd, ha⟩
      · rw [hrun']
        refine .inl ⟨phase', _, rfl, ?_, hpassed⟩
        rw [htracks'.classes_eq]
        exact htracks'.withClasses mid.classes.tail
      · rw [he]
        exact .inr ⟨⟨e, rfl⟩, ⟨hatEnd.kind, hatEnd.rest⟩, ha⟩

/-! ## Lists -/

theorem moved_reverse (f : Span → Span) (as : List α) : moved f as.reverse = (moved f as).reverse :=
  List.map_reverse

section Lists

variable {item item' : Parser String α} {U O : α → Prop}

omit [Spanned α] in
theorem failsAtEnd_commaRound (hitem : FailsAtEnd item) (found : List α) :
    FailsAtEnd (commaRound item found) := hitem.bind

omit [Spanned α] in
theorem failsAtEnd_commaList (hitem : FailsAtEnd item) : FailsAtEnd (commaList item) := by
  have hloop : FailsAtEnd (loop (commaRound item) []) :=
    AtEnd.loop (I := fun _ => True) (fun found _ => (failsAtEnd_commaRound hitem found).atEnd) trivial
  exact hloop.bind

/-- Items with commas between them; what must follow them is not known. -/
theorem Follows.commaList (hitem : Follows j True item item' U O) (hfails : FailsAtEnd item) :
    Follows j True (Parser.commaList item) (Parser.commaList item') (fun _ => True)
      (fun _ => True) := by
  refine (follows_loop (I := fun _ => True) (J := fun _ => True) (V := fun _ => True)
    (W := fun _ => True) (fun found => ?_) (fun found _ => ?_) []).bind (fun found => ?_) fun _ _ => ?_
  · refine hitem.bind (fun a => ?_) fun a _ => ?_
    · refine (follows_eatLine .comma).bind (fun b => ?_) fun b _ => ?_
      · cases b with
        | false => exact follows_pure rfl fun _ => trivial
        | true => exact follows_pure rfl fun _ => trivial
      · cases b with
        | false => exact atEnd_pure trivial
        | true => exact atEnd_pure trivial
    · refine (atEnd_eatLine .comma).bind fun b hb => ?_
      rw [hb]
      exact atEnd_pure trivial
  · exact (failsAtEnd_commaRound hfails found).atEnd
  · rw [← moved_reverse]
    exact follows_pure rfl id
  · exact atEnd_pure trivial

/-- Items up to a closing brace. -/
theorem Follows.untilBrace (hitem : Follows j True item item' U O) (hfails : FailsAtEnd item) :
    Follows j Pre (Parser.untilBrace item) (Parser.untilBrace item') (fun _ => False)
      (fun _ => False) := by
  have hround (found : List α) : FailsAtEnd (eat .rightBrace >>= fun b =>
      if b = true then pure (Step.done found)
      else item >>= fun a => skipLineEnds >>= fun _ => pure (.again (a :: found))) := by
    refine (atEnd_eat .rightBrace).bind fun b hb => ?_
    rw [hb]
    exact hfails.bind
  suffices h : Follows j True (Parser.untilBrace item) (Parser.untilBrace item') (fun _ => False)
      (fun _ => False) from h.weaken fun _ => trivial
  refine (follows_loop (I := fun _ => True) (J := fun _ => True) (V := fun _ => False)
    (W := fun _ => False) (fun found => ?_) (fun found _ => (hround found).atEnd) []).andThen
      fun found => ?_
  · refine (follows_eat .rightBrace).bind (fun b => ?_) fun b hb => ?_
    · cases b with
      | true => exact follows_pure rfl fun h => nomatch h.1
      | false =>
          refine (hitem.weaken fun _ => trivial).bind (fun a => ?_) fun a _ => ?_
          · exact follows_skipLineEnds.andThen fun _ => follows_pure rfl fun _ => trivial
          · exact atEnd_skipLineEnds.bind fun _ _ => atEnd_pure trivial
    · rw [hb.1]
      exact (hfails.bind).atEnd
  · rw [← moved_reverse]
    exact follows_pure rfl id

end Lists

end IslandScript.Parser
