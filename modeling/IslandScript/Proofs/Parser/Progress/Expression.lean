import IslandScript.Parser.Expression
import IslandScript.Proofs.Parser.Progress

/-!
# Expressions come to an end

Every parser of an expression consumes a token, and makes its nested calls behind one: `Consumes` at
a state follows from what the nested parsers do at states with fewer tokens left. Only where the first
thing to be parsed is itself a nested part, as in a body, do they have to consume from that state on.
-/

namespace IslandScript.Parser

variable {E : Prop} {g : Grammar String} {s : State String} {l : Nat}

/-! ## Bodies, conditionals and `try` -/

theorem consumes_bodyItem (hg : g.ConsumesBelow E l) (hs : s.left < l) : Consumes E (bodyItem g) s := by
  refine ends_kind.bind fun k s₁ hk => ?_
  obtain ⟨rfl, rfl⟩ := hk
  split
  · split
    · refine ends_here.bind fun span s₂ h₂ => ?_
      subst h₂
      exact (hg.stmt _ hs).bind fun _ s₃ h₃ => ends_pure h₃
    · exact hg.expr _ hs
  · exact hg.expr _ hs

theorem consumes_exprBody (hg : g.ConsumesBelow E l) (hs : s.left < l) : Consumes E (exprBody g) s := by
  refine ends_here.bind fun span s₁ h₁ => ?_
  subst h₁
  refine (eats_eatLine _).bind_ite (fun s₂ h₂ => ?_) fun s₂ h₂ => ?_
  · refine Ends.bind (Consumes.untilBrace fun s₃ h₃ => consumes_bodyItem hg (by omega))
      fun items s₃ h₃ => ends_pure (by omega)
  · exact (consumes_bodyItem hg (by omega)).imp fun _ s₃ h₃ => by omega

theorem consumes_parenthesized (hg : g.ConsumesBelow E s.left) : Consumes E (parenthesized g) s := by
  refine (consumes_expect _).bind fun _ s₁ h₁ => (hg.expr s₁ h₁).bind fun e s₂ h₂ => ?_
  exact (consumes_expect _).bind fun _ s₃ h₃ => ends_pure (by omega)

theorem consumes_ifElse (hg : g.ConsumesBelow E s.left) : Consumes E (ifElse g) s := by
  refine (consumes_expectWord _).bind fun span s₁ h₁ => ?_
  refine (consumes_parenthesized (hg.mono (by omega))).bind fun condition s₂ h₂ => ?_
  refine (consumes_exprBody hg (by omega)).bind fun body s₃ h₃ => ?_
  refine advances_skipLineEnds.bind fun _ s₄ h₄ => ?_
  refine (eats_eatWord _).bind_ite (fun s₅ h₅ => ?_) fun s₅ h₅ => ends_pure (by omega)
  exact (consumes_exprBody hg (by omega)).bind fun _ s₆ h₆ => ends_pure (by omega)

theorem consumes_branch (hg : g.ConsumesBelow E l) (hs : s.left < l) : Consumes E (branch g) s := by
  refine ends_here.bind fun span s₁ h₁ => ?_
  subst h₁
  refine (hg.expr _ hs).bind fun condition s₂ h₂ => ?_
  refine (consumes_expectLine _).bind fun _ s₃ h₃ => ?_
  refine (consumes_exprBody hg (by omega)).bind fun body s₄ h₄ => ?_
  exact advances_skipLineEnds.bind fun _ s₅ h₅ => ends_pure (by omega)

theorem consumes_elseBranch (hg : g.ConsumesBelow E s.left) : Consumes E (elseBranch g) s := by
  refine (consumes_expectLine _).bind fun _ s₁ h₁ => ?_
  refine (consumes_exprBody hg h₁).bind fun body s₂ h₂ => ?_
  refine advances_skipLineEnds.bind fun _ s₃ h₃ => (ends_at? _).bind fun b s₄ h₄ => ?_
  obtain ⟨rfl, -⟩ := h₄
  split
  · exact ends_pure (by omega)
  · exact ends_here.bind fun _ _ _ => ends_fail

/-- The closing brace behind the branches is left where it is. -/
theorem advances_branches (hg : g.ConsumesBelow E l) (hs : s.left < l) : Advances E (branches g) s := by
  refine Ends.bind (Q := fun _ s' => s'.left ≤ s.left)
    (ends_loop (I := fun s' => s'.left ≤ s.left) (fun found s₁ h₁ => ?_) (Nat.le_refl _))
    fun r s₁ h₁ => ends_pure h₁
  refine (ends_at? _).bind fun b s₂ h₂ => ?_
  obtain ⟨rfl, -⟩ := h₂
  split
  · exact ends_pure h₁
  · refine (eats_eatWord _).bind_ite (fun s₃ h₃ => ?_) fun s₃ h₃ => ?_
    · refine (consumes_elseBranch (hg.mono (by omega))).bind fun e s₄ h₄ => ends_pure ?_
      show s₄.left ≤ s.left
      omega
    · exact (consumes_branch hg (by omega)).bind fun b s₄ h₄ => ends_pure ⟨by omega, by omega⟩

theorem advances_subject : Advances E subject s := by
  refine (eats_eat _).bind_ite (fun s₁ h₁ => ?_) fun s₁ h₁ => ends_pure h₁
  refine consumes_expectName.bind fun _ s₂ h₂ => (consumes_expect _).bind fun _ s₃ h₃ => ?_
  exact ends_pure (by omega)

theorem consumes_whenCase (hg : g.ConsumesBelow E s.left) : Consumes E (whenCase g) s := by
  refine (consumes_expectWord _).bind fun span s₁ h₁ => advances_subject.bind fun subject s₂ h₂ => ?_
  refine (consumes_expectLine _).bind fun _ s₃ h₃ => ?_
  refine (advances_branches hg (by omega)).bind fun r s₄ h₄ => ?_
  exact (consumes_expect _).bind fun _ s₅ h₅ => ends_pure (by omega)

theorem advances_caughtName : Advances E caughtName s := by
  refine (eats_eat _).bind_ite (fun s₁ h₁ => ?_) fun s₁ h₁ => ends_pure h₁
  refine consumes_declaredName.bind fun _ s₂ h₂ => (consumes_expect _).bind fun _ s₃ h₃ => ?_
  exact ends_pure (by omega)

theorem advances_catchPart (hg : g.ConsumesBelow E s.left) : Advances E (catchPart g) s := by
  refine (eats_eatWord _).bind_ite (fun s₁ h₁ => ?_) fun s₁ h₁ => ends_pure h₁
  refine advances_caughtName.bind fun error s₂ h₂ => ?_
  refine (consumes_exprBody hg (by omega)).bind fun handler s₃ h₃ => ?_
  exact advances_skipLineEnds.bind fun _ s₄ h₄ => ends_pure (by omega)

theorem advances_finallyPart (hg : g.ConsumesBelow E s.left) : Advances E (finallyPart g) s := by
  refine (eats_eatWord _).bind_ite (fun s₁ h₁ => ?_) fun s₁ h₁ => ends_pure h₁
  exact (consumes_exprBody hg h₁).bind fun e s₂ h₂ => ends_pure (by omega)

theorem consumes_tryCatch (hg : g.ConsumesBelow E s.left) : Consumes E (tryCatch g) s := by
  refine (consumes_expectWord _).bind fun span s₁ h₁ => ?_
  refine (consumes_exprBody hg h₁).bind fun body s₂ h₂ => ?_
  refine advances_skipLineEnds.bind fun _ s₃ h₃ => ?_
  refine (advances_catchPart (hg.mono (by omega))).bind fun r s₄ h₄ => ?_
  refine (advances_finallyPart (hg.mono (by omega))).bind fun finalizer s₅ h₅ => ?_
  exact ends_pure (by omega)

/-! ## Lists and lambdas -/

theorem consumes_comprehension (hg : g.ConsumesBelow E s.left) {span : Span} {element : Expr String} :
    Consumes E (comprehension g span element) s := by
  refine (consumes_expectWord _).bind fun _ s₁ h₁ => consumes_pattern.bind fun names s₂ h₂ => ?_
  refine (consumes_expect _).bind fun _ s₃ h₃ => (hg.expr s₃ (by omega)).bind fun iterable s₄ h₄ => ?_
  -- the closing bracket is parsed in the same way with a condition and without one
  have hend (condition : Option (Expr String)) (s' : State String) (hs' : s'.left < s.left) : Ends E
      (do
        skipLineEnds
        let _ ← expect .rightBracket
        return Expr.comprehension span element names iterable condition) s'
      fun _ s'' => s''.left < s.left := by
    refine advances_skipLineEnds.bind fun _ s₅ h₅ => (consumes_expect _).bind fun _ s₆ h₆ => ?_
    exact ends_pure (by omega)
  refine advances_skipLineEnds.bind fun _ s₅ h₅ => (eats_eatWord _).bind fun b s₆ h₆ => ?_
  cases b with
  | true =>
      have hlt : s₆.left < s₅.left := h₆
      refine Ends.bind (Q := fun _ s' => s'.left < s.left) ?_ fun condition s' hs' => hend condition s' hs'
      exact (hg.expr s₆ (by omega)).map fun e s₇ h₇ => by omega
  | false => exact hend none s₆ (Nat.lt_of_le_of_lt (h₆ : s₆.left ≤ s₅.left) (by omega))

theorem consumes_listExpr (hg : g.ConsumesBelow E s.left) : Consumes E (listExpr g) s := by
  refine (consumes_expectLine _).bind fun span s₁ h₁ => ?_
  refine (eats_eat _).bind_ite (fun s₂ h₂ => ends_pure (by omega)) fun s₂ h₂ => ?_
  refine Ends.bind (Consumes.commaList fun s' hs' => hg.expr s' (by omega)) fun elements s₃ h₃ => ?_
  refine advances_skipLineEnds.bind fun _ s₄ h₄ => (ends_atWord? _).bind fun isFor s₅ h₅ => ?_
  subst h₅
  split
  · exact (consumes_comprehension (hg.mono (by omega))).imp fun _ s₆ h₆ => by omega
  · exact (consumes_expect _).bind fun _ s₆ h₆ => ends_pure (by omega)

theorem consumes_lambdaParam : Consumes E lambdaParam s :=
  consumes_expectName.bind fun _ _ h => ends_pure h

theorem consumes_lambdaParams : Consumes E lambdaParams s := by
  refine (eats_eat _).bind_ite (fun s₁ h₁ => ends_pure h₁) fun s₁ h₁ => ?_
  refine Ends.bind (Q := fun _ s' => s'.left < s.left)
    (ends_loop (I := fun s' => s'.left ≤ s.left) (fun params s₂ h₂ => ?_) h₁) fun params s₂ h₂ => ?_
  · refine consumes_lambdaParam.bind fun p s₃ h₃ => ?_
    refine (eats_eat _).bind_ite (fun s₄ h₄ => ?_) fun s₄ h₄ => ?_
    · exact ends_pure ⟨by omega, by omega⟩
    · exact ends_pure (by omega)
  · exact (consumes_expect _).bind fun _ s₃ h₃ => ends_pure (by omega)

theorem consumes_lambda (hg : g.ConsumesBelow E s.left) : Consumes E (lambda g) s := by
  refine (consumes_expect _).bind fun span s₁ h₁ => consumes_lambdaParams.bind fun params s₂ h₂ => ?_
  exact (consumes_exprBody hg (by omega)).bind fun body s₃ h₃ => ends_pure (by omega)

/-! ## Terminals and postfixes -/

theorem consumes_terminal (hg : g.ConsumesBelow E s.left) : Consumes E (terminal g) s := by
  refine ends_get.bind fun _ s₁ hget => ?_
  obtain ⟨rfl, rfl⟩ := hget
  split
  next h => exact (consumes_advance (by rw [h]; exact nofun)).bind fun _ _ h => ends_pure h
  next h => exact (consumes_advance (by rw [h]; exact nofun)).bind fun _ _ h => ends_pure h
  · exact consumes_parenthesized hg
  · exact (consumes_listExpr hg).inside _
  · exact (consumes_lambda hg).inside _
  · exact (consumes_ifElse hg).inside _
  · exact (consumes_whenCase hg).inside _
  · exact (consumes_tryCatch hg).inside _
  · exact ends_fail

theorem consumes_indexArg (hg : g.ConsumesBelow E l) (hs : s.left < l) : Consumes E (indexArg g) s := by
  refine ends_here.bind fun span s₁ h₁ => ?_
  subst h₁
  refine (eats_eat _).bind fun spread s₂ h₂ => ?_
  exact (hg.expr s₂ (by omega)).bind fun _ s₃ h₃ => ends_pure (by omega)

theorem consumes_callArg (hg : g.ConsumesBelow E l) (hs : s.left < l) : Consumes E (callArg g) s := by
  refine ends_here.bind fun span s₁ h₁ => ?_
  subst h₁
  refine (eats_eat _).bind fun spread s₂ h₂ => (hg.spread s₂ (by omega)).bind fun e s₃ h₃ => ?_
  refine (eats_eat _).bind_ite (fun s₄ h₄ => ?_) fun s₄ h₄ => ends_pure (by omega)
  split
  · exact ends_fail
  · exact (hg.spread s₄ (by omega)).bind fun _ s₅ h₅ => ends_pure (by omega)

/-- Arguments are at least their closing bracket. -/
theorem consumes_args {arg : Parser String (Arg String (Expr String))} {close : Symbol}
    (harg : ∀ s', s'.left ≤ s.left → Consumes E arg s') : Consumes E (args arg close) s := by
  refine advances_skipLineEnds.bind fun _ s₁ h₁ => ?_
  refine (eats_eat _).bind_ite (fun s₂ h₂ => ends_pure (by omega)) fun s₂ h₂ => ?_
  refine Ends.bind (Consumes.commaList fun s' hs' => harg s' (by omega)) fun found s₃ h₃ => ?_
  refine advances_skipLineEnds.bind fun _ s₄ h₄ => (consumes_expect _).bind fun _ s₅ h₅ => ?_
  exact ends_pure (by omega)

theorem consumes_indexArgs (hg : g.ConsumesBelow E l) (hs : s.left < l) : Consumes E (indexArgs g) s :=
  consumes_args fun _ h => consumes_indexArg hg (Nat.lt_of_le_of_lt h hs)

theorem consumes_callArgs (hg : g.ConsumesBelow E l) (hs : s.left < l) : Consumes E (callArgs g) s :=
  consumes_args fun _ h => consumes_callArg hg (Nat.lt_of_le_of_lt h hs)

theorem roundEnds_postfixRound (hg : g.ConsumesBelow E l) (target : Expr String) (hs : s.left < l) :
    RoundEnds E (fun s' => s'.left < l) (fun _ s' => s'.left < l) (postfixRound g target) s := by
  refine ends_get.bind fun _ s₁ hget => ?_
  obtain ⟨rfl, rfl⟩ := hget
  split
  next h =>
    refine (consumes_advance (by rw [h]; exact nofun)).bind fun _ s₂ h₂ => ?_
    exact consumes_expectName.bind fun _ s₃ h₃ => ends_pure ⟨by omega, by omega⟩
  next h =>
    refine (consumes_advance (by rw [h]; exact nofun)).bind fun _ s₂ h₂ => ?_
    exact ((consumes_indexArgs hg (by omega)).inside _).bind fun _ s₃ h₃ =>
      ends_pure ⟨by omega, by omega⟩
  next h =>
    refine (consumes_advance (by rw [h]; exact nofun)).bind fun _ s₂ h₂ => ?_
    exact ((consumes_callArgs hg (by omega)).inside _).bind fun _ s₃ h₃ =>
      ends_pure ⟨by omega, by omega⟩
  · exact ends_pure hs

theorem consumes_postfixed (hg : g.ConsumesBelow E s.left) : Consumes E (postfixed g) s :=
  (consumes_terminal hg).bind fun _ _ h =>
    ends_loop (fun target _ hs => roundEnds_postfixRound hg target hs) h

/-! ## Operators -/

/-- No operator is the end of the text. -/
def Level.Proper (level : Level String) : Prop := level .endOfFile = none

theorem consumes_unaryStep (hg : g.ConsumesBelow E s.left) : Consumes E (unaryStep g) s := by
  refine ends_kind.bind fun k s₁ hk => ?_
  obtain ⟨rfl, rfl⟩ := hk
  split
  next op h =>
    have hcurrent : s₁.current.kind ≠ .endOfFile := by
      intro hend
      rw [hend] at h
      cases h
    refine (consumes_advance hcurrent).bind fun t s₂ h₂ => ?_
    exact (hg.unary s₂ h₂).bind fun _ s₃ h₃ => ends_pure (by omega)
  · exact consumes_postfixed hg

theorem consumes_chain {level : Level String} {operand : Parser String (Expr String)} (hlevel : level.Proper)
    (hoperand : ∀ s', s'.left ≤ s.left → Consumes E operand s') : Consumes E (chain level operand) s := by
  refine (hoperand s (Nat.le_refl _)).bind fun left s₁ h₁ => ?_
  refine ends_loop (I := fun s' => s'.left < s.left) (fun left s₂ h₂ => ?_) h₁
  refine ends_kind.bind fun k s₃ hk => ?_
  obtain ⟨rfl, rfl⟩ := hk
  split
  · exact ends_pure h₂
  next op h =>
    have hcurrent : s₃.current.kind ≠ .endOfFile := by
      intro hend
      rw [hend, hlevel] at h
      cases h
    refine (consumes_advance hcurrent).bind fun t s₄ h₄ => ?_
    exact (hoperand s₄ (by omega)).bind fun _ s₅ h₅ => ends_pure ⟨by omega, by omega⟩

theorem consumes_chains {ls : List (Level String)} {operand : Parser String (Expr String)}
    (hls : ∀ level ∈ ls, level.Proper) (hoperand : ∀ s', s'.left ≤ s.left → Consumes E operand s') :
    Consumes E (ls.foldr chain operand) s := by
  -- an operand of one level is a chain of the next
  induction ls generalizing s with
  | nil => exact hoperand s (Nat.le_refl _)
  | cons level ls ih =>
      obtain ⟨hlevel, hls⟩ := List.forall_mem_cons.mp hls
      refine consumes_chain hlevel fun s' hs' => ih hls fun s'' hs'' => ?_
      exact hoperand s'' (Nat.le_trans hs'' hs')

theorem consumes_infixed (hg : g.ConsumesBelow E s.left) : Consumes E (infixed g) s := by
  refine consumes_chains (fun level hlevel => ?_) fun s' hs' => consumes_unaryStep (hg.mono hs')
  simp only [levels, List.mem_cons, List.not_mem_nil, or_false] at hlevel
  rcases hlevel with rfl | rfl | rfl | rfl | rfl | rfl <;> rfl

theorem consumes_spreadStep (hg : g.ConsumesBelow E s.left) : Consumes E (spreadStep g) s := by
  refine (ends_at? _).bind fun b s₁ h₁ => ?_
  obtain ⟨rfl, hstar⟩ := h₁
  split
  next h =>
    refine (consumes_advance (by rw [hstar h]; exact nofun)).bind fun t s₂ h₂ => ?_
    exact (consumes_infixed (hg.mono (by omega))).bind fun _ s₃ h₃ => ends_pure (by omega)
  · exact consumes_infixed hg

theorem advances_assignmentTarget (left : Expr String) : Advances E (assignmentTarget left) s := by
  unfold assignmentTarget
  split
  · exact ends_pure (Nat.le_refl _)
  · exact ends_fail

theorem consumes_exprStep (hg : g.ConsumesBelow E s.left) : Consumes E (exprStep g) s := by
  refine (consumes_spreadStep hg).bind fun left s₁ h₁ => (ends_at? _).bind fun b s₂ h₂ => ?_
  obtain ⟨rfl, hequal⟩ := h₂
  split
  next h =>
    refine (consumes_advance (by rw [hequal h]; exact nofun)).bind fun t s₃ h₃ => ?_
    refine (advances_assignmentTarget left).bind fun target s₄ h₄ => ?_
    exact (hg.expr s₄ (by omega)).bind fun _ s₅ h₅ => ends_pure (by omega)
  · refine ends_kind.bind fun k s₃ hk => ?_
    obtain ⟨rfl, rfl⟩ := hk
    split
    next op h =>
      have hcurrent : s₃.current.kind ≠ .endOfFile := by
        intro hend
        rw [hend] at h
        cases h
      refine (consumes_advance hcurrent).bind fun t s₄ h₄ => ?_
      refine (advances_assignmentTarget left).bind fun target s₅ h₅ => ?_
      exact (hg.expr s₅ (by omega)).bind fun _ s₆ h₆ => ends_pure (by omega)
    · exact ends_pure h₁

end IslandScript.Parser
