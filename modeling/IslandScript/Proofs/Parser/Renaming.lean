import IslandScript.Parser.Program
import IslandScript.Proofs.Syntax.Names

/-!
# Parsers of renamed tokens

A parser learns of a name only its text and whether it is reserved. So when names are replaced by others
of which the same is true (`Renaming`), it does to the tokens what it did before, and reads the same tree
with other names: `Renames f p q` says that the run of `q` on the renamed tokens is that of `p`, renamed.
A parser that compares a name with another, or depends on what a name is, would have no such partner.
-/

namespace IslandScript.Parser

variable {ν μ α β α' β' σ σ' : Type}

/-! ## Results with other names -/

/-- What a parser reads can be read with other names. -/
class Renamable (f : ν → μ) (α : Type) (α' : outParam Type) where
  renamed : α → α'

/-- What was read, with other names. -/
abbrev rename (f : ν → μ) {α α' : Type} [Renamable f α α'] : α → α' := Renamable.renamed f

section

variable {f : ν → μ}

instance : Renamable f ν μ := ⟨f⟩
instance : Renamable f Unit Unit := ⟨fun a => a⟩
instance : Renamable f Bool Bool := ⟨fun a => a⟩
instance : Renamable f String String := ⟨fun a => a⟩
instance : Renamable f Span Span := ⟨fun a => a⟩
instance : Renamable f BindingKind BindingKind := ⟨fun a => a⟩
instance : Renamable f (TokenKind ν) (TokenKind μ) := ⟨TokenKind.map f⟩
instance : Renamable f (Token ν) (Token μ) := ⟨Token.mapNames f⟩
instance : Renamable f (Pattern ν) (Pattern μ) := ⟨Pattern.mapNames f⟩
instance : Renamable f (Expr ν) (Expr μ) := ⟨Expr.mapNames f⟩
instance : Renamable f (Stmt ν) (Stmt μ) := ⟨Stmt.mapNames f⟩
instance : Renamable f (Arg ν (Expr ν)) (Arg μ (Expr μ)) := ⟨Arg.mapNames f⟩
instance : Renamable f (Param ν (Expr ν)) (Param μ (Expr μ)) := ⟨Param.mapNames f⟩
instance : Renamable f (Branch (Expr ν)) (Branch (Expr μ)) := ⟨Branch.mapNames f⟩
instance : Renamable f (EnumEntry ν (Expr ν)) (EnumEntry μ (Expr μ)) := ⟨EnumEntry.mapNames f⟩
instance [Renamable f α α'] : Renamable f (List α) (List α') := ⟨List.map (rename f)⟩
instance [Renamable f α α'] : Renamable f (Option α) (Option α') := ⟨Option.map (rename f)⟩
instance : Renamable f (Option BindingKind) (Option BindingKind) := ⟨fun a => a⟩

instance [Renamable f α α'] [Renamable f β β'] : Renamable f (α × β) (α' × β') where
  renamed p := (rename f p.1, rename f p.2)

instance [Renamable f σ σ'] [Renamable f β β'] : Renamable f (Step σ β) (Step σ' β') where
  renamed
    | .again s => .again (rename f s)
    | .done b => .done (rename f b)

instance : Renamable f (State ν) (State μ) where
  renamed s := ⟨rename f s.current, rename f s.rest, s.ending, s.warnings, rename f s.classes⟩

end

/-- Names are replaced by others with the same text, reserved ones by reserved ones. -/
class Renaming [Naming ν] [Naming μ] (f : ν → μ) : Prop where
  text_eq : ∀ n, Naming.text (f n) = Naming.text n
  isReserved_eq : ∀ n, Naming.isReserved (f n) = Naming.isReserved n

/-- Messages about a token do not depend on which names there are. -/
theorem Renaming.map_text [Naming ν] [Naming μ] {f : ν → μ} [Renaming f] (k : TokenKind ν) :
    (k.map f).map Naming.text = k.map Naming.text := by
  cases k with
  | name n => exact congrArg TokenKind.name (Renaming.text_eq n)
  | _ => rfl

/-! ## Runs on renamed tokens -/

section

variable {f : ν → μ} [Renamable f α α'] [Renamable f β β'] {p : Parser ν α} {q : Parser μ α'}

/-- From a state the run of `q` on the renamed tokens is that of `p`, renamed. -/
def RenamesAt (f : ν → μ) [Renamable f α α'] (p : Parser ν α) (q : Parser μ α') (s : State ν) : Prop :=
  q (rename f s) = (p s).map (rename f)

/-- The run of `q` on renamed tokens is that of `p`, renamed. -/
def Renames (f : ν → μ) [Renamable f α α'] (p : Parser ν α) (q : Parser μ α') : Prop :=
  ∀ s, RenamesAt f p q s

theorem renames_pure {a : α} {a' : α'} (h : rename f a = a') : Renames f (pure a) (pure a') := by
  intro s
  subst h
  rfl

theorem RenamesAt.bind {k : α → Parser ν β} {k' : α' → Parser μ β'} {s : State ν}
    (hp : RenamesAt f p q s) (hk : ∀ a, Renames f (k a) (k' (rename f a))) :
    RenamesAt f (p >>= k) (q >>= k') s := by
  unfold RenamesAt at hp ⊢
  change (q (rename f s)).bind _ = ((p s).bind _).map _
  rw [hp]
  cases p s with
  | error e => rfl
  | ok read => exact hk read.1 read.2

theorem Renames.bind {k : α → Parser ν β} {k' : α' → Parser μ β'} (hp : Renames f p q)
    (hk : ∀ a, Renames f (k a) (k' (rename f a))) : Renames f (p >>= k) (q >>= k') :=
  fun s => (hp s).bind hk

theorem Renames.map {g : α → β} {g' : α' → β'} (hp : Renames f p q)
    (hg : ∀ a, rename f (g a) = g' (rename f a)) : Renames f (g <$> p) (g' <$> q) :=
  show Renames f (p >>= fun a => pure (g a)) (q >>= fun a => pure (g' a)) from
    hp.bind fun a => renames_pure (hg a)

theorem renames_throw (failure : Failure) :
    Renames f (throw failure : Parser ν α) (throw failure : Parser μ α') :=
  fun _ => rfl

theorem renames_fail {kind kind' : ParseErrorKind} (h : kind' = kind) (span : Span) :
    Renames f (fail kind span : Parser ν α) (fail kind' span : Parser μ α') := by
  subst h
  exact renames_throw _

theorem Renames.inside (hp : Renames f p q) (c : Construct) :
    Renames f (Parser.inside c p) (Parser.inside c q) := by
  intro s
  unfold RenamesAt Parser.inside
  rw [hp s]
  cases p s with
  | error e => cases e <;> rfl
  | ok read => rfl

/-- What depends on a state may depend on its renamed tokens. -/
theorem renamesAt_get {k : State ν → Parser ν β} {k' : State μ → Parser μ β'} {s : State ν}
    (h : RenamesAt f (k s) (k' (rename f s)) s) : RenamesAt f (get >>= k) (get >>= k') s := h

theorem renames_modify {g : State ν → State ν} {g' : State μ → State μ}
    (h : ∀ s, g' (rename f s) = rename f (g s)) : Renames f (modify g) (modify g') := by
  intro s
  change Except.ok ((), g' (rename f s)) = _
  rw [h]
  rfl

/-! ### Loops -/

variable [Renamable f σ σ'] {round : σ → Parser ν (Step σ β)} {round' : σ' → Parser μ (Step σ' β')}

/-- There may be as many rounds for the renamed tokens as for the others. -/
theorem renames_iterate (hround : ∀ a, Renames f (round a) (round' (rename f a)))
    (bound : List (Token ν)) (a : σ) :
    Renames f (iterate bound round a) (iterate (rename f bound) round' (rename f a)) := by
  induction bound generalizing a with
  | nil => exact renames_throw _
  | cons t bound ih =>
      refine (hround a).bind fun step => ?_
      cases step with
      | again a => exact ih a
      | done b => exact renames_pure rfl

theorem renames_loop (hround : ∀ a, Renames f (round a) (round' (rename f a))) (a : σ) :
    Renames f (loop round a) (loop round' (rename f a)) :=
  fun s => renames_iterate hround (s.current :: s.current :: s.rest) a s

end

/-! ## The current token -/

variable {f : ν → μ}

theorem renames_kind : Renames f kind kind := fun _ => rfl

theorem renames_here : Renames f here here := fun _ => rfl

theorem renames_advance : Renames f advance advance := by
  rintro ⟨current, rest, ending, warnings, classes⟩
  cases rest with
  | cons t rest => rfl
  | nil => cases ending <;> rfl

/-! ## Names -/

section

variable [Naming ν] [Naming μ]

theorem renames_expectName : Renames f expectName expectName := by
  rintro ⟨⟨span, kind⟩, rest, ending, warnings, classes⟩
  refine renamesAt_get ?_
  cases kind with
  | name n => exact (renames_advance _).bind fun _ => renames_pure rfl
  | _ => exact renames_fail rfl span _

variable [Renaming f]

theorem renames_declaredName : Renames f declaredName declaredName := by
  refine renames_expectName.bind fun ⟨n, span⟩ => ?_
  change Renames f _ (if Naming.isReserved (f n) then fail (.reservedName (Naming.text (f n))) span else
    modify (fun s => { s with warnings := s.warnings ++
      (underscoreWarning? (Naming.text (f n)) span).toList }) >>= fun _ => pure (f n, span))
  rw [Renaming.isReserved_eq, Renaming.text_eq]
  dsimp only
  split
  next => exact renames_fail rfl span
  next =>
    refine (renames_modify ?_).bind fun _ => renames_pure rfl
    exact fun _ => rfl

theorem renames_linkPath (n : ν) : Renames f (linkPath n) (linkPath (f n)) := by
  intro s
  refine renamesAt_get (renames_pure ?_ s)
  have htext : Naming.text ∘ f = Naming.text := funext Renaming.text_eq
  change _ = ((s.classes.map f).head?.map Naming.text).getD "" ++ "." ++ Naming.text (f n)
  rw [List.head?_map, Option.map_map, htext, Renaming.text_eq]
  rfl

end

theorem Renames.withinClass [Renamable f α α'] {p : Parser ν α} {q : Parser μ α'} (hp : Renames f p q)
    (n : ν) : Renames f (Parser.withinClass n p) (Parser.withinClass (f n) q) := by
  refine (renames_modify ?_).bind fun _ => hp.bind fun a => ?_
  · exact fun _ => rfl
  · refine (renames_modify ?_).bind fun _ => renames_pure rfl
    exact fun s => congrArg (State.mk _ _ _ _) List.map_tail.symm

/-! ## Kinds of tokens -/

variable [DecidableEq ν] [DecidableEq μ]

/-- A renamed token is of a kind that holds no name if the token was. -/
theorem map_beq_map (expected : TokenKind ν) (h : ∀ n, expected ≠ .name n) (k : TokenKind ν) :
    (k.map f == expected.map f) = (k == expected) := by
  rw [Bool.eq_iff_iff, beq_iff_eq, beq_iff_eq]
  cases expected with
  | name n => exact absurd rfl (h n)
  | _ => cases k <;> simp [TokenKind.map]

theorem renames_at? (x : Symbol) : Renames f (at? x) (at? x) :=
  renames_kind.bind fun k => renames_pure (map_beq_map (.symbol x) nofun k).symm

theorem renames_atWord? (k : Keyword) : Renames f (atWord? k) (atWord? k) :=
  renames_kind.bind fun found => renames_pure (map_beq_map (.keyword k) nofun found).symm

theorem renames_eatKind (expected : TokenKind ν) (h : ∀ n, expected ≠ .name n) :
    Renames f (eatKind expected) (eatKind (expected.map f)) := by
  refine renames_kind.bind fun k => ?_
  rw [show (rename f k == expected.map f) = _ from map_beq_map expected h k]
  split
  next => exact renames_advance.bind fun _ => renames_pure rfl
  next => exact renames_pure rfl

theorem renames_eat (x : Symbol) : Renames f (eat x) (eat x) :=
  renames_eatKind (.symbol x) nofun

theorem renames_eatWord (k : Keyword) : Renames f (eatWord k) (eatWord k) :=
  renames_eatKind (.keyword k) nofun

theorem renames_skipLineEnds : Renames f skipLineEnds skipLineEnds := by
  refine renames_loop (fun _ => ?_) ()
  refine (renames_eatKind .endOfLine nofun).bind fun b => ?_
  cases b <;> exact renames_pure rfl

theorem renames_eatLine (x : Symbol) : Renames f (eatLine x) (eatLine x) := by
  refine (renames_eat x).bind fun b => ?_
  cases b with
  | true => exact renames_skipLineEnds.bind fun _ => renames_pure rfl
  | false => exact renames_pure rfl

section

variable [Naming ν] [Naming μ] [Renaming f]

theorem renames_expectKind (expected : TokenKind ν) (h : ∀ n, expected ≠ .name n) :
    Renames f (expectKind expected) (expectKind (expected.map f)) := by
  intro s
  refine renamesAt_get ?_
  change RenamesAt f _ (if s.current.kind.map f == expected.map f then _ else _) s
  rw [map_beq_map expected h]
  dsimp only
  split
  next => exact (renames_advance s).bind fun _ => renames_pure rfl
  next =>
    refine renames_fail ?_ _ s
    exact congr (congrArg ParseErrorKind.invalidToken (Renaming.map_text _)) (Renaming.map_text _)

theorem renames_expect (x : Symbol) : Renames f (expect x) (expect x) :=
  renames_expectKind (.symbol x) nofun

theorem renames_expectWord (k : Keyword) : Renames f (expectWord k) (expectWord k) :=
  renames_expectKind (.keyword k) nofun

theorem renames_expectLine (x : Symbol) : Renames f (expectLine x) (expectLine x) :=
  (renames_expect x).bind fun _ => renames_skipLineEnds.bind fun _ => renames_pure rfl

end

theorem renames_label [Naming ν] [Naming μ] : Renames f label label := by
  refine (renames_eat .atSign).bind fun b => ?_
  cases b with
  | true => exact renames_expectName.bind fun n => renames_pure rfl
  | false => exact renames_pure rfl

theorem renames_pattern [Naming ν] [Naming μ] [Renaming f] : Renames f pattern pattern := by
  refine (renames_eat .leftParen).bind fun b => ?_
  cases b with
  | false => exact renames_declaredName.bind fun n => renames_pure rfl
  | true =>
      refine (renames_loop (fun names => ?_) []).bind fun names => ?_
      · refine renames_declaredName.bind fun n => (renames_eat .comma).bind fun b => ?_
        cases b <;> exact renames_pure rfl
      · refine (renames_expect .rightParen).bind fun _ => renames_pure ?_
        exact congrArg Pattern.items List.map_reverse

/-! ## Lists -/

section

variable [Renamable f α α'] {item : Parser ν α} {item' : Parser μ α'}

theorem Renames.commaList (hitem : Renames f item item') :
    Renames f (Parser.commaList item) (Parser.commaList item') := by
  refine (renames_loop (fun found => ?_) []).bind fun found => renames_pure List.map_reverse
  refine hitem.bind fun a => (renames_eatLine .comma).bind fun b => ?_
  cases b <;> exact renames_pure rfl

theorem Renames.untilBrace (hitem : Renames f item item') :
    Renames f (Parser.untilBrace item) (Parser.untilBrace item') := by
  refine (renames_loop (fun found => ?_) []).bind fun found => renames_pure List.map_reverse
  refine (renames_eat .rightBrace).bind fun b => ?_
  cases b with
  | true => exact renames_pure rfl
  | false => exact hitem.bind fun a => renames_skipLineEnds.bind fun _ => renames_pure rfl

end

/-- The rules of one grammar on renamed tokens are those of the other. -/
structure RenamesGrammar (f : ν → μ) (g : Grammar ν) (g' : Grammar μ) : Prop where
  expr : Renames f g.expr g'.expr
  spread : Renames f g.spread g'.spread
  unary : Renames f g.unary g'.unary
  stmt : Renames f g.stmt g'.stmt

end IslandScript.Parser
