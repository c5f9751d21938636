import Mathlib.Data.List.Forall2
import IslandScript.Parser.Expression
import IslandScript.Proofs.Lexer.Lexeme

/-!
# What parsers read

A parser that stands before some lexemes reads those in front and leaves it standing before the
others: `Reads p before after Q`. As the lexemes are on one line, line ends are never in the way. The
rules follow the parsers. A loop is read by its rounds: `Grows` says how far it has come, each round
but the last having read something, so that the bound on its rounds is not met.
-/

namespace IslandScript.Parser

variable {α β σ : Type}

/-- A parser stands before some lexemes if they are its tokens, and behind them the text ends. -/
inductive Stands : State String → List Lexeme → Prop where
  | before {s : State String} {l : Lexeme} {ls : List Lexeme} {span : Span}
      (hkind : s.current.kind = l.kind) (hrest : s.rest.map (·.kind) = ls.map Lexeme.kind)
      (hending : s.ending = .ok span) : Stands s (l :: ls)
  | atEnd {s : State String} {span : Span} (hkind : s.current.kind = .endOfFile) (hrest : s.rest = [])
      (hending : s.ending = .ok span) : Stands s []

/-- The kind of the next token. -/
def nextKind : List Lexeme → TokenKind String
  | [] => .endOfFile
  | l :: _ => l.kind

theorem nextKind_ne_endOfLine (ls : List Lexeme) : nextKind ls ≠ .endOfLine := by
  cases ls with
  | nil => exact fun h => nomatch h
  | cons l ls => cases l <;> exact fun h => nomatch h

namespace Stands

variable {s : State String} {l : Lexeme} {ls : List Lexeme}

theorem current_kind (h : Stands s ls) : s.current.kind = nextKind ls := by
  cases h with
  | before hkind _ _ => exact hkind
  | atEnd hkind _ _ => exact hkind

/-- There are no more lexemes than tokens. -/
theorem length_le (h : Stands s ls) : ls.length ≤ s.rest.length + 1 := by
  cases h with
  | before _ hrest _ =>
      have hlength := congrArg List.length hrest
      rw [List.length_map, List.length_map] at hlength
      exact Nat.succ_le_succ (Nat.le_of_eq hlength.symm)
  | atEnd _ _ _ => exact Nat.zero_le _

end Stands

/-- A parser reads from some lexemes to others, with a result of some kind and no warning. -/
def Reads (p : Parser String α) (before after : List Lexeme) (Q : α → Prop) : Prop :=
  ∀ s, Stands s before →
    ∃ a s', p s = .ok (a, s') ∧ Stands s' after ∧ s'.warnings = s.warnings ∧ Q a

variable {p : Parser String α} {before mid after : List Lexeme} {Q : α → Prop} {R : β → Prop}

theorem reads_pure {a : α} (h : Q a) : Reads (pure a) after after Q :=
  fun s hs => ⟨a, s, rfl, hs, rfl, h⟩

theorem Reads.bind {f : α → Parser String β} (hp : Reads p before mid Q)
    (hf : ∀ a, Q a → Reads (f a) mid after R) : Reads (p >>= f) before after R := by
  intro s hs
  obtain ⟨a, s₁, hrun, hs₁, hwarn, ha⟩ := hp s hs
  obtain ⟨b, s₂, hrun₂, hs₂, hwarn₂, hb⟩ := hf a ha s₁ hs₁
  refine ⟨b, s₂, ?_, hs₂, hwarn₂.trans hwarn, hb⟩
  change (p s).bind _ = _
  rw [hrun]
  exact hrun₂

theorem Reads.imp {Q' : α → Prop} (h : Reads p before after Q) (hQ : ∀ a, Q a → Q' a) :
    Reads p before after Q' := by
  intro s hs
  obtain ⟨a, s', hrun, hs', hwarn, ha⟩ := h s hs
  exact ⟨a, s', hrun, hs', hwarn, hQ a ha⟩

theorem Reads.inside {c : Construct} (h : Reads p before after Q) :
    Reads (Parser.inside c p) before after Q := by
  intro s hs
  obtain ⟨a, s', hrun, hrest⟩ := h s hs
  refine ⟨a, s', ?_, hrest⟩
  unfold Parser.inside
  rw [hrun]

/-! ## The next token -/

theorem reads_kind : Reads kind after after (· = nextKind after) :=
  fun s hs => ⟨s.current.kind, s, rfl, hs, rfl, hs.current_kind⟩

theorem reads_here : Reads here after after fun _ => True :=
  fun s hs => ⟨s.current.span, s, rfl, hs, rfl, trivial⟩

theorem reads_get : Reads get after after fun s => s.current.kind = nextKind after :=
  fun s hs => ⟨s, s, rfl, hs, rfl, hs.current_kind⟩

/-- To move on from a lexeme is to stand before the next one. -/
theorem reads_advance {l : Lexeme} : Reads advance (l :: after) after fun t => t.kind = l.kind := by
  intro s hs
  obtain ⟨current, rest, ending, warnings, classes⟩ := s
  cases hs with
  | @before _ _ span hkind hrest hending =>
      dsimp only at hkind hrest hending
      subst hending
      cases rest with
      | nil =>
          cases after with
          | nil => exact ⟨current, _, rfl, .atEnd rfl rfl rfl, rfl, hkind⟩
          | cons l' after => cases hrest
      | cons t rest =>
          cases after with
          | nil => cases hrest
          | cons l' after =>
              rw [List.map_cons, List.map_cons, List.cons.injEq] at hrest
              exact ⟨current, _, rfl, .before hrest.1 hrest.2 rfl, rfl, hkind⟩

theorem reads_at? {s : Symbol} :
    Reads (at? s) after after fun b => b = (nextKind after == .symbol s) :=
  reads_kind.bind fun _ h => reads_pure (h ▸ rfl)

theorem reads_atWord? {k : Keyword} :
    Reads (atWord? k) after after fun b => b = (nextKind after == .keyword k) :=
  reads_kind.bind fun _ h => reads_pure (h ▸ rfl)

/-- A token of the kind looked for is passed. -/
theorem reads_eatKind {l : Lexeme} : Reads (eatKind l.kind) (l :: after) after (· = true) := by
  refine reads_kind.bind fun k hk => ?_
  have hl : (k == l.kind) = true := beq_iff_eq.mpr hk
  rw [if_pos hl]
  exact reads_advance.bind fun _ _ => reads_pure rfl

/-- A token of another kind is left. -/
theorem reads_eatKind_of_ne {k : TokenKind String} (h : nextKind after ≠ k) :
    Reads (eatKind k) after after (· = false) := by
  refine reads_kind.bind fun k' hk => ?_
  rw [if_neg (by rw [hk, beq_iff_eq]; exact h)]
  exact reads_pure rfl

theorem reads_eat {s : Symbol} : Reads (eat s) (.symbol s :: after) after (· = true) :=
  @reads_eatKind after (.symbol s)

theorem reads_eat_of_ne {s : Symbol} (h : nextKind after ≠ .symbol s) :
    Reads (eat s) after after (· = false) :=
  reads_eatKind_of_ne h

theorem reads_expect {s : Symbol} : Reads (expect s) (.symbol s :: after) after fun _ => True := by
  refine reads_get.bind fun state hkind => ?_
  have hs : (state.current.kind == .symbol s) = true := beq_iff_eq.mpr hkind
  dsimp only
  rw [if_pos hs]
  exact reads_advance.bind fun _ _ => reads_pure trivial

theorem reads_expectName {w : Word} :
    Reads expectName (.name w :: after) after fun found => found.1 = w.text := by
  refine reads_get.bind fun state hkind => ?_
  change state.current.kind = .name w.text at hkind
  dsimp only
  rw [hkind]
  exact reads_advance.bind fun _ _ => reads_pure rfl

/-! ## Loops -/

/-- A loop comes from one state to another in some rounds. -/
inductive Rounds (round : σ → Parser String (Step σ β)) : Nat → σ → State String → σ → State String → Prop where
  | none {a : σ} {s : State String} : Rounds round 0 a s a s
  | more {n : Nat} {a b c : σ} {s s' s'' : State String} (h : Rounds round n a s b s')
      (hround : round b s' = .ok (.again c, s'')) : Rounds round (n + 1) a s c s''

/-- The rounds made so far may be left out if the bound was long enough for them. -/
theorem Rounds.iterate_eq {round : σ → Parser String (Step σ β)} {n : Nat} {a b : σ} {s s' : State String}
    (h : Rounds round n a s b s') {bound : List (Token String)} (hbound : n ≤ bound.length) :
    iterate bound round a s = iterate (bound.drop n) round b s' := by
  induction h with
  | none => rfl
  | @more n a b c s s' s'' h hround ih =>
      have hdrop : ∃ t, bound.drop n = t :: bound.drop (n + 1) :=
        ⟨bound[n], (List.drop_eq_getElem_cons hbound)⟩
      obtain ⟨t, ht⟩ := hdrop
      rw [ih (Nat.le_of_succ_le hbound), ht]
      change (round b s').bind _ = _
      rw [hround]
      rfl

/-- Behind what `first` reads, a loop comes to some state of it and reads up to some lexemes, at
least one in each round. -/
def Grows (first : Parser String σ) (round : σ → Parser String (Step σ β)) (before after : List Lexeme)
    (Q : σ → Prop) : Prop :=
  ∀ s, Stands s before → ∃ a s₀ ls n b s', first s = .ok (a, s₀) ∧ Stands s₀ ls ∧
    Rounds round n a s₀ b s' ∧ n + after.length ≤ ls.length ∧ Stands s' after ∧
    s'.warnings = s.warnings ∧ Q b

section Loops

variable {first : Parser String σ} {round : σ → Parser String (Step σ β)} {Q : σ → Prop}

/-- A loop that has not begun. -/
theorem Reads.grows (h : Reads first before after Q) : Grows first round before after Q := by
  intro s hs
  obtain ⟨a, s', hrun, hs', hwarn, ha⟩ := h s hs
  exact ⟨a, s', after, 0, a, s', hrun, hs', .none, by omega, hs', hwarn, ha⟩

/-- Another round of a loop. -/
theorem Grows.again {Q' : σ → Prop} (h : Grows first round before mid Q)
    (hshorter : after.length < mid.length)
    (hround : ∀ b, Q b → Reads (round b) mid after fun step => ∃ c, step = .again c ∧ Q' c) :
    Grows first round before after Q' := by
  intro s hs
  obtain ⟨a, s₀, ls, n, b, s₁, hrun, hs₀, hrounds, hlength, hs₁, hwarn, hb⟩ := h s hs
  obtain ⟨_, s₂, hrun₂, hs₂, hwarn₂, c, rfl, hc⟩ := hround b hb s₁ hs₁
  exact ⟨a, s₀, ls, n + 1, c, s₂, hrun, hs₀, hrounds.more hrun₂, by omega, hs₂,
    hwarn₂.trans hwarn, hc⟩

/-- The last round of a loop. -/
theorem Grows.done {R : β → Prop} (h : Grows first round before mid Q)
    (hround : ∀ b, Q b → Reads (round b) mid after fun step => ∃ c, step = .done c ∧ R c) :
    Reads (first >>= loop round) before after R := by
  intro s hs
  obtain ⟨a, s₀, ls, n, b, s₁, hrun, hs₀, hrounds, hlength, hs₁, hwarn, hb⟩ := h s hs
  obtain ⟨_, s₂, hrun₂, hs₂, hwarn₂, c, rfl, hc⟩ := hround b hb s₁ hs₁
  refine ⟨c, s₂, ?_, hs₂, hwarn₂.trans hwarn, hc⟩
  change (first s).bind _ = _
  rw [hrun]
  change iterate (s₀.current :: s₀.current :: s₀.rest) round a s₀ = _
  have hbound : n < (s₀.current :: s₀.current :: s₀.rest).length := by
    have := hs₀.length_le
    simp only [List.length_cons]
    omega
  rw [hrounds.iterate_eq (Nat.le_of_lt hbound), List.drop_eq_getElem_cons hbound]
  change (round b s₁).bind _ = _
  rw [hrun₂]
  rfl

end Loops

/-- Between lexemes there are no line ends. -/
theorem reads_skipLineEnds : Reads skipLineEnds after after fun _ => True := by
  have hstart : Grows (pure ()) (fun _ => do
      if ← eatKind .endOfLine then return .again () else return .done ()) after after
      fun _ => True := (reads_pure trivial).grows
  exact hstart.done fun _ _ => (reads_eatKind_of_ne (nextKind_ne_endOfLine _)).bind fun _ h => by
    rw [h]
    exact reads_pure ⟨(), rfl, trivial⟩

theorem reads_eatLine {s : Symbol} : Reads (eatLine s) (.symbol s :: after) after (· = true) :=
  reads_eat.bind fun b hb => by
    rw [hb]
    exact reads_skipLineEnds.bind fun _ _ => reads_pure rfl

theorem reads_eatLine_of_ne {s : Symbol} (h : nextKind after ≠ .symbol s) :
    Reads (eatLine s) after after (· = false) :=
  (reads_eat_of_ne h).bind fun b hb => by
    rw [hb]
    exact reads_pure rfl

theorem reads_expectLine {s : Symbol} :
    Reads (expectLine s) (.symbol s :: after) after fun _ => True :=
  reads_expect.bind fun _ _ => reads_skipLineEnds.bind fun _ _ => reads_pure trivial

theorem loop_eq {round : σ → Parser String (Step σ β)} {a : σ} :
    loop round a = pure a >>= loop round := rfl

end IslandScript.Parser
