import IslandScript.Proofs.Parser.Follows

/-!
# Parsers that come to an end

A parser ends with something it has read or with an error, or it runs out of its bound. What keeps
it from that is the number of tokens that are left: a loop has a round for each of them and two more,
so a loop whose rounds all consume a token ends, and nested calls that come behind a token that was
consumed nest no deeper than there are tokens.

`Ends E p s Q` says what is known of how `p` ends from `s`: `Q` holds of what it reads and of the
state it leaves, and `E` holds if it runs out of its bound. So it never does where `E` is false, and
what it reads is told whatever the bound where `E` is true.
-/

namespace IslandScript.Parser

variable {α β σ : Type} {E : Prop}

/-- The number of tokens a parser has not moved past. -/
def State.left (s : State String) : Nat :=
  s.rest.length + if s.current.kind = .endOfFile then 0 else 1

/-- What a parser reads from a state and the state it leaves fulfil `Q`, and it runs out of its bound
only if `E` holds. -/
def Ends (E : Prop) (p : Parser String α) (s : State String) (Q : α → State String → Prop) : Prop :=
  match p s with
  | .ok (a, s') => Q a s'
  | .error (.error _) => True
  | .error .outOfBound => E

/-- From a state a parser ends, and has consumed a token if it reads something; it runs out of its
bound only if `E` holds. -/
abbrev Consumes (E : Prop) (p : Parser String α) (s : State String) : Prop := Ends E p s fun _ s' => s'.left < s.left

/-- From a state a parser ends, having consumed a token or not; it runs out of its bound only if `E`
holds. -/
abbrev Advances (E : Prop) (p : Parser String α) (s : State String) : Prop := Ends E p s fun _ s' => s'.left ≤ s.left

/-! ## Composition -/

section

variable {p : Parser String α} {c : α → Parser String β} {s : State String} {Q Q' : α → State String → Prop}
  {R : β → State String → Prop}

theorem Ends.of_ok {a : α} {s' : State String} (hp : Ends E p s Q) (h : p s = .ok (a, s')) : Q a s' := by
  unfold Ends at hp
  rwa [h] at hp

theorem Ends.of_outOfBound (hp : Ends E p s Q) (h : p s = .error .outOfBound) : E := by
  unfold Ends at hp
  rw [h] at hp
  exact hp

theorem Ends.imp (hp : Ends E p s Q) (h : ∀ a s', Q a s' → Q' a s') : Ends E p s Q' := by
  unfold Ends at hp ⊢
  split at hp
  next a s' _ => exact h a s' hp
  · trivial
  · exact hp

theorem Ends.bind (hp : Ends E p s Q) (hc : ∀ a s', Q a s' → Ends E (c a) s' R) :
    Ends E (p >>= c) s R := by
  cases h : p s with
  | ok result =>
      obtain ⟨a, s'⟩ := result
      have hend := hc a s' (hp.of_ok h)
      unfold Ends
      rwa [bind_eq h]
  | error e =>
      unfold Ends
      rw [bind_eq_error h]
      cases e with
      | error e => trivial
      | outOfBound => exact hp.of_outOfBound h

theorem ends_pure {a : α} (h : Q a s) : Ends E (pure a) s Q := h

theorem ends_fail {kind : ParseErrorKind} {span : Span} : Ends E (fail kind span : Parser String α) s Q :=
  trivial

theorem Ends.map {f : α → β} (hp : Ends E p s Q) (h : ∀ a s', Q a s' → R (f a) s') :
    Ends E (f <$> p) s R := by
  have hbind : Ends E (p >>= fun a => pure (f a)) s R := hp.bind fun a s' ha => ends_pure (h a s' ha)
  exact hbind

/-- To say where an error is changes nothing else. -/
theorem Ends.inside (construct : Construct) (hp : Ends E p s Q) :
    Ends E (Parser.inside construct p) s Q := by
  unfold Ends Parser.inside
  cases h : p s with
  | ok result => exact hp.of_ok h
  | error e =>
      cases e with
      | error e => trivial
      | outOfBound => exact hp.of_outOfBound h

theorem ends_get : Ends E get s fun a s' => a = s ∧ s' = s := ⟨rfl, rfl⟩

theorem Consumes.advances (hp : Consumes E p s) : Advances E p s := hp.imp fun _ _ => Nat.le_of_lt

end

/-! ## Loops -/

section

variable {round : σ → Parser String (Step σ β)} {s : State String} {Q : β → State String → Prop}

/-- What a round of a loop has to do: unless it is the last one, it consumes a token. -/
abbrev RoundEnds (E : Prop) (I : State String → Prop) (Q : β → State String → Prop) (p : Parser String (Step σ β))
    (s : State String) : Prop :=
  Ends E p s fun step s' =>
    match step with
    | .again _ => s'.left < s.left ∧ I s'
    | .done b => Q b s'

/-- A loop whose rounds consume tokens needs one round more than there are tokens. -/
theorem ends_iterate {I : State String → Prop} (hround : ∀ a s, I s → RoundEnds E I Q (round a) s)
    {bound : List (Token String)} {a : σ} (hs : I s) (h : s.left < bound.length) :
    Ends E (iterate bound round a) s Q := by
  -- on the rounds that are left: each one but the last takes a token with it
  induction bound generalizing a s with
  | nil => exact absurd h (Nat.not_lt_zero _)
  | cons t bound ih =>
      rw [iterate_cons]
      refine (hround a s hs).bind fun step s' hstep => ?_
      cases step with
      | again a =>
          obtain ⟨hlt, hs'⟩ := hstep
          exact ih hs' (Nat.lt_of_lt_of_le hlt (Nat.le_of_lt_succ h))
      | done b => exact ends_pure hstep

/-- A loop whose rounds consume tokens ends. -/
theorem ends_loop {I : State String → Prop} (hround : ∀ a s, I s → RoundEnds E I Q (round a) s) {a : σ}
    (hs : I s) : Ends E (loop round a) s Q := by
  unfold Ends
  rw [loop_apply]
  -- the current token may be the end, which counts as a round but not as a token
  refine ends_iterate hround hs ?_
  simp only [State.left, List.length_cons]
  split <;> omega

end

/-! ## The current token -/

section

variable {s : State String} {Q : α → State String → Prop}

theorem ends_kind : Ends E kind s fun k s' => k = s.current.kind ∧ s' = s := ⟨rfl, rfl⟩

theorem ends_here : Ends E here s fun _ s' => s' = s := rfl

theorem ends_at? (x : Symbol) :
    Ends E (at? x) s fun b s' => s' = s ∧ (b = true → s.current.kind = .symbol x) :=
  ends_kind.bind fun _ _ h => ends_pure ⟨h.2, fun heq => h.1 ▸ eq_of_beq heq⟩

theorem ends_atWord? (k : Keyword) : Ends E (atWord? k) s fun _ s' => s' = s := rfl

/-- At the end of the text the current token stays what it is; otherwise one is moved past. -/
theorem ends_advance : Ends E advance s fun _ s' =>
    s'.left + (if s.current.kind = .endOfFile then 0 else 1) ≤ s.left := by
  unfold Ends advance
  split
  next a s' hok =>
    split at hok
    next t rest _ hrest =>
      cases hok
      simp only [State.left, hrest, List.length_cons]
      split <;> omega
    next span hrest _ =>
      cases hok
      simp [State.left, hrest]
    · cases hok
  · trivial
  next hbound =>
    split at hbound <;> cases hbound

theorem consumes_advance (h : s.current.kind ≠ .endOfFile) : Consumes E advance s :=
  ends_advance.imp fun _ _ hle => by rwa [if_neg h] at hle

theorem advances_advance : Advances E advance s :=
  ends_advance.imp fun _ _ hle => Nat.le_of_add_right_le hle

/-- A parser that tells whether it has consumed a token. -/
abbrev Eats (E : Prop) (p : Parser String Bool) (s : State String) : Prop :=
  Ends E p s fun b s' => s'.left + b.toNat ≤ s.left

/-- What follows goes on behind the token that was eaten, or where it was. -/
theorem Eats.bind_ite {p : Parser String Bool} {x y : Parser String α} (hp : Eats E p s)
    (hx : ∀ s', s'.left < s.left → Ends E x s' Q) (hy : ∀ s', s'.left ≤ s.left → Ends E y s' Q) :
    Ends E (p >>= fun b => if b = true then x else y) s Q := by
  refine Ends.bind hp fun b s' h => ?_
  cases b with
  | true => exact hx s' h
  | false => exact hy s' h

theorem eats_eatKind {expected : TokenKind String} (hne : expected ≠ .endOfFile) :
    Eats E (eatKind expected) s := by
  refine ends_kind.bind fun k s₁ hk => ?_
  obtain ⟨rfl, rfl⟩ := hk
  split
  next heq =>
    have hcurrent : s₁.current.kind ≠ .endOfFile := by rwa [eq_of_beq heq]
    exact (consumes_advance hcurrent).bind fun _ _ h => ends_pure h
  · exact ends_pure (Nat.le_refl _)

/-- A token that is there is eaten. -/
theorem ends_eatKind_of_eq {expected : TokenKind String} (hne : expected ≠ .endOfFile)
    (heq : s.current.kind = expected) :
    Ends E (eatKind expected) s fun b s' => b = true ∧ s'.left < s.left := by
  refine ends_kind.bind fun k s₁ hk => ?_
  obtain ⟨rfl, rfl⟩ := hk
  rw [if_pos (beq_iff_eq.mpr heq)]
  exact (consumes_advance (heq ▸ hne)).bind fun _ _ h => ends_pure ⟨rfl, h⟩

theorem eats_eat (x : Symbol) : Eats E (eat x) s := eats_eatKind nofun

theorem eats_eatWord (k : Keyword) : Eats E (eatWord k) s := eats_eatKind nofun

theorem consumes_expectKind {expected : TokenKind String} (hne : expected ≠ .endOfFile) :
    Consumes E (expectKind expected) s := by
  refine ends_get.bind fun _ s₁ hget => ?_
  obtain ⟨rfl, rfl⟩ := hget
  dsimp only
  split
  next heq =>
    have hcurrent : s₁.current.kind ≠ .endOfFile := by rwa [eq_of_beq heq]
    exact (consumes_advance hcurrent).bind fun _ _ h => ends_pure h
  · exact ends_fail

theorem consumes_expect (x : Symbol) : Consumes E (expect x) s := consumes_expectKind nofun

theorem consumes_expectWord (k : Keyword) : Consumes E (expectWord k) s := consumes_expectKind nofun

theorem advances_skipLineEnds : Advances E skipLineEnds s := by
  refine ends_loop (I := fun s' => s'.left ≤ s.left) (fun _ s₁ hs₁ => ?_) (Nat.le_refl _)
  have heats : Eats E (eatKind .endOfLine) s₁ := eats_eatKind nofun
  refine heats.bind_ite (fun s₂ h => ?_) fun s₂ h => ?_
  · exact ends_pure ⟨h, Nat.le_trans (Nat.le_of_lt h) hs₁⟩
  · exact ends_pure (Nat.le_trans h hs₁)

theorem eats_eatLine (x : Symbol) : Eats E (eatLine x) s := by
  refine (eats_eat x).bind_ite (fun s₁ h => ?_) fun s₁ h => ?_
  · exact advances_skipLineEnds.bind fun _ s₂ h₂ => ends_pure (Nat.lt_of_le_of_lt h₂ h)
  · exact ends_pure h

theorem ends_eatLine_of_eq {x : Symbol} (heq : s.current.kind = .symbol x) :
    Ends E (eatLine x) s fun b s' => b = true ∧ s'.left < s.left := by
  refine Ends.bind (ends_eatKind_of_eq nofun heq) fun b s₁ h₁ => ?_
  obtain ⟨rfl, h₁⟩ := h₁
  exact advances_skipLineEnds.bind fun _ s₂ h₂ => ends_pure ⟨rfl, Nat.lt_of_le_of_lt h₂ h₁⟩

theorem consumes_expectLine (x : Symbol) : Consumes E (expectLine x) s := by
  refine (consumes_expect x).bind fun span s₁ h₁ => advances_skipLineEnds.bind fun _ s₂ h₂ => ?_
  exact ends_pure (Nat.lt_of_le_of_lt h₂ h₁)

end

/-! ## Names -/

section

variable {s : State String}

theorem consumes_expectName : Consumes E expectName s := by
  refine ends_get.bind fun _ s₁ hget => ?_
  obtain ⟨rfl, rfl⟩ := hget
  dsimp only
  split
  next hname =>
    have hcurrent : s₁.current.kind ≠ .endOfFile := by
      rw [hname]
      exact nofun
    exact (consumes_advance hcurrent).bind fun _ _ h => ends_pure h
  · exact ends_fail

theorem consumes_declaredName : Consumes E declaredName s := by
  refine consumes_expectName.bind fun (n, span) s₁ h₁ => ?_
  dsimp only
  split
  · exact ends_fail
  · exact Ends.bind (Q := fun _ s' => s'.left < s.left) h₁ fun _ _ h => ends_pure h

theorem advances_label : Advances E label s := by
  refine (eats_eat _).bind_ite (fun s₁ h₁ => ?_) fun s₁ h₁ => ends_pure h₁
  exact consumes_expectName.bind fun _ s₂ h₂ => ends_pure (by omega)

theorem consumes_pattern : Consumes E pattern s := by
  refine (eats_eat _).bind_ite (fun s₁ h₁ => ?_) fun s₁ h₁ => ?_
  · refine Ends.bind (Q := fun _ s' => s'.left < s.left)
      (ends_loop (I := fun s' => s'.left < s.left) (fun names s₂ h₂ => ?_) h₁) fun names s₂ h₂ => ?_
    · refine consumes_declaredName.bind fun n s₃ h₃ => ?_
      refine (eats_eat _).bind_ite (fun s₄ h₄ => ?_) fun s₄ h₄ => ?_
      · exact ends_pure ⟨by omega, by omega⟩
      · exact ends_pure (by omega)
    · exact (consumes_expect _).bind fun _ s₃ h₃ => ends_pure (by omega)
  · exact consumes_declaredName.bind fun _ s₂ h₂ => ends_pure (by omega)

theorem ends_linkPath (name : String) : Ends E (linkPath name) s fun _ s' => s' = s := rfl

/-- To be inside a class changes no tokens. -/
theorem Consumes.withinClass {p : Parser String α} (name : String)
    (hp : ∀ s', s'.left = s.left → Consumes E p s') :
    Consumes E (withinClass name p) s := by
  refine Ends.bind (Q := fun _ s' => s'.left = s.left) rfl fun _ s₁ h₁ => ?_
  refine (hp s₁ h₁).bind fun a s₂ h₂ => ?_
  refine Ends.bind (Q := fun _ s' => s'.left = s₂.left) rfl fun _ s₃ h₃ => ?_
  exact ends_pure (by omega)

end

/-! ## Lists -/

section

variable {item : Parser String α} {s : State String}

/-- Items that consume tokens make a list that ends. -/
theorem Consumes.commaList (hitem : ∀ s', s'.left ≤ s.left → Consumes E item s') :
    Consumes E (commaList item) s := by
  refine Ends.bind (Q := fun _ s' => s'.left < s.left)
    (ends_loop (I := fun s' => s'.left ≤ s.left) (fun found s₁ h₁ => ?_) (Nat.le_refl _))
    fun found s₁ h₁ => ends_pure h₁
  refine (hitem s₁ h₁).bind fun a s₂ h₂ => ?_
  refine (eats_eatLine _).bind_ite (fun s₃ h₃ => ?_) fun s₃ h₃ => ?_
  · exact ends_pure ⟨by omega, by omega⟩
  · exact ends_pure (by omega)

/-- Items that consume tokens come to an end before the brace that closes them, or fail for want of
it. -/
theorem Consumes.untilBrace (hitem : ∀ s', s'.left ≤ s.left → Consumes E item s') :
    Consumes E (untilBrace item) s := by
  refine Ends.bind (Q := fun _ s' => s'.left < s.left)
    (ends_loop (I := fun s' => s'.left ≤ s.left) (fun found s₁ h₁ => ?_) (Nat.le_refl _))
    fun found s₁ h₁ => ends_pure h₁
  refine (eats_eat _).bind_ite (fun s₂ h₂ => ends_pure (by omega)) fun s₂ h₂ => ?_
  refine (hitem s₂ (by omega)).bind fun a s₃ h₃ => ?_
  refine advances_skipLineEnds.bind fun _ s₄ h₄ => ends_pure ⟨by omega, by omega⟩

end

/-- The parsers for nested parts consume a token from every state with fewer tokens left than a
bound. -/
structure Grammar.ConsumesBelow (E : Prop) (g : Grammar String) (l : Nat) : Prop where
  expr : ∀ s, s.left < l → Consumes E g.expr s
  spread : ∀ s, s.left < l → Consumes E g.spread s
  unary : ∀ s, s.left < l → Consumes E g.unary s
  stmt : ∀ s, s.left < l → Consumes E g.stmt s

theorem Grammar.ConsumesBelow.mono {g : Grammar String} {l l' : Nat} (h : g.ConsumesBelow E l) (hl : l' ≤ l) :
    g.ConsumesBelow E l' where
  expr s hs := h.expr s (Nat.lt_of_lt_of_le hs hl)
  spread s hs := h.spread s (Nat.lt_of_lt_of_le hs hl)
  unary s hs := h.unary s (Nat.lt_of_lt_of_le hs hl)
  stmt s hs := h.stmt s (Nat.lt_of_lt_of_le hs hl)

end IslandScript.Parser
