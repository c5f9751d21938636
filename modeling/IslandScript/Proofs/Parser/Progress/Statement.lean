import IslandScript.Parser.Declaration
import IslandScript.Proofs.Parser.Progress.Expression

/-!
# Statements and declarations come to an end

A statement that starts with a keyword consumes it before anything nested is parsed. A block and a
statement that is an expression have no such token before what they hold.
-/

namespace IslandScript.Parser

variable {E : Prop} {g : Grammar String} {s : State String} {l : Nat}

/-! ## Bindings, loops and jumps -/

theorem consumes_stmtBody (hg : g.ConsumesBelow E l) (hs : s.left < l) : Consumes E (stmtBody g) s := by
  refine ends_here.bind fun span s₁ h₁ => ?_
  subst h₁
  refine (eats_eatLine _).bind_ite (fun s₂ h₂ => ?_) fun s₂ h₂ => ?_
  · refine Ends.bind (Consumes.untilBrace fun s₃ h₃ => hg.stmt s₃ (by omega)) fun stmts s₃ h₃ => ?_
    exact ends_pure (by omega)
  · exact (hg.stmt s₂ (by omega)).imp fun _ s₃ h₃ => by omega

/-- A block needs no nested parser at its own state: its brace comes first. -/
theorem consumes_block (hg : g.ConsumesBelow E s.left) (hbrace : s.current.kind = .symbol .leftBrace) :
    Consumes E (stmtBody g) s := by
  refine ends_here.bind fun span s₁ h₁ => ?_
  subst h₁
  refine (ends_eatLine_of_eq hbrace).bind fun b s₂ h₂ => ?_
  obtain ⟨rfl, h₂⟩ := h₂
  refine Ends.bind (Consumes.untilBrace fun s₃ h₃ => hg.stmt s₃ (by omega)) fun stmts s₃ h₃ => ?_
  exact ends_pure (by omega)

theorem consumes_bindingKeyword : Consumes E bindingKeyword s := by
  refine (eats_eatWord _).bind_ite (fun s₁ h₁ => ends_pure h₁) fun s₁ h₁ => ?_
  exact (consumes_expectWord _).bind fun _ s₂ h₂ => ends_pure (by omega)

theorem consumes_declaration (hg : g.ConsumesBelow E s.left) : Consumes E (declaration g) s := by
  refine ends_here.bind fun span s₁ h₁ => ?_
  subst h₁
  refine consumes_bindingKeyword.bind fun kind s₂ h₂ => (eats_eatWord _).bind fun mutable s₃ h₃ => ?_
  refine consumes_pattern.bind fun names s₄ h₄ => (consumes_expectLine _).bind fun _ s₅ h₅ => ?_
  exact (hg.expr s₅ (by omega)).bind fun _ s₆ h₆ => ends_pure (by omega)

theorem consumes_whileLoop (hg : g.ConsumesBelow E s.left) : Consumes E (whileLoop g) s := by
  refine (consumes_expectWord _).bind fun span s₁ h₁ => advances_label.bind fun label s₂ h₂ => ?_
  refine (consumes_parenthesized (hg.mono (by omega))).bind fun condition s₃ h₃ => ?_
  exact (consumes_stmtBody hg (by omega)).bind fun _ s₄ h₄ => ends_pure (by omega)

theorem consumes_doLoop (hg : g.ConsumesBelow E s.left) : Consumes E (doLoop g) s := by
  refine (consumes_expectWord _).bind fun span s₁ h₁ => advances_label.bind fun label s₂ h₂ => ?_
  refine (consumes_stmtBody hg (by omega)).bind fun body s₃ h₃ => ?_
  refine advances_skipLineEnds.bind fun _ s₄ h₄ => (consumes_expectWord _).bind fun _ s₅ h₅ => ?_
  refine (consumes_parenthesized (hg.mono (by omega))).bind fun _ s₆ h₆ => ends_pure (by omega)

theorem advances_loopCount (hg : g.ConsumesBelow E s.left) : Advances E (loopCount g) s := by
  refine (ends_at? _).bind fun b s₁ h₁ => ?_
  obtain ⟨rfl, -⟩ := h₁
  split
  · exact (consumes_parenthesized hg).map fun _ _ h => Nat.le_of_lt h
  · exact ends_pure (Nat.le_refl _)

theorem consumes_countedLoop (hg : g.ConsumesBelow E s.left) : Consumes E (countedLoop g) s := by
  refine (consumes_expectWord _).bind fun span s₁ h₁ => advances_label.bind fun label s₂ h₂ => ?_
  refine (advances_loopCount (hg.mono (by omega))).bind fun count s₃ h₃ => ?_
  exact (consumes_stmtBody hg (by omega)).bind fun _ s₄ h₄ => ends_pure (by omega)

theorem consumes_forLoop (hg : g.ConsumesBelow E s.left) : Consumes E (forLoop g) s := by
  refine (consumes_expectWord _).bind fun span s₁ h₁ => advances_label.bind fun label s₂ h₂ => ?_
  refine (consumes_expect _).bind fun _ s₃ h₃ => consumes_pattern.bind fun names s₄ h₄ => ?_
  refine (consumes_expect _).bind fun _ s₅ h₅ => (hg.expr s₅ (by omega)).bind fun iterable s₆ h₆ => ?_
  refine (consumes_expect _).bind fun _ s₇ h₇ => ?_
  exact (consumes_stmtBody hg (by omega)).bind fun _ s₈ h₈ => ends_pure (by omega)

section

variable {k : Nat} (hadvance : Ends E advance s fun _ s' => s'.left + k ≤ s.left)

include hadvance

theorem ends_jump {make : Span → Option String → Stmt String} :
    Ends E (jump make) s fun _ s' => s'.left + k ≤ s.left := by
  refine hadvance.bind fun t s₁ h₁ => advances_label.bind fun _ s₂ h₂ => ?_
  exact ends_pure (by omega)

theorem ends_throwStmt (hg : g.ConsumesBelow E l) (hs : s.left < l + k) :
    Ends E (throwStmt g) s fun _ s' => s'.left + k ≤ s.left := by
  refine hadvance.bind fun t s₁ h₁ => (hg.expr s₁ (by omega)).bind fun _ s₂ h₂ => ?_
  exact ends_pure (by omega)

theorem ends_leave (hg : g.ConsumesBelow E l) (hs : s.left < l + k)
    {make : Span → Option (Expr String) → Stmt String} :
    Ends E (leave g make) s fun _ s' => s'.left + k ≤ s.left := by
  refine hadvance.bind fun t s₁ h₁ => ends_kind.bind fun _ s₂ h₂ => ?_
  obtain ⟨-, rfl⟩ := h₂
  split
  · exact ends_pure h₁
  · exact (hg.expr _ (by omega)).bind fun _ s₃ h₃ => ends_pure (by omega)

end

theorem consumes_exprStmt (hexpr : Consumes E g.expr s) : Consumes E (exprStmt g) s := by
  refine ends_here.bind fun span s₁ h₁ => ?_
  subst h₁
  exact hexpr.bind fun _ s₂ h₂ => ends_pure h₂

/-! ## Parameters -/

theorem advances_marker (ofClass : Bool) : Advances E (marker ofClass) s := by
  unfold marker
  split
  · refine (eats_eatWord _).bind_ite (fun s₁ h₁ => ends_pure (by omega)) fun s₁ h₁ => ?_
    refine (eats_eatWord _).bind_ite (fun s₂ h₂ => ends_pure (by omega)) fun s₂ h₂ => ?_
    exact ends_pure (by omega)
  · exact ends_pure (Nat.le_refl _)

theorem consumes_param (hg : g.ConsumesBelow E s.left) (ofClass : Bool) :
    Consumes E (param g ofClass) s := by
  refine ends_here.bind fun start s₁ h₁ => ?_
  subst h₁
  refine (advances_marker ofClass).bind fun marker s₂ h₂ => (eats_eatWord _).bind fun mutable s₃ h₃ => ?_
  refine (eats_eat _).bind fun variadic s₄ h₄ => consumes_declaredName.bind fun (n, span) s₅ h₅ => ?_
  dsimp only
  split
  · exact ends_fail
  · refine (eats_eat _).bind_ite (fun s₆ h₆ => ?_) fun s₆ h₆ => ?_
    · refine Ends.bind (Q := fun _ s' => s'.left < s₁.left) ?_ fun default s₇ h₇ => ends_pure h₇
      exact (hg.expr s₆ (by omega)).map fun _ s₇ h₇ => by omega
    · exact ends_pure (by omega)

theorem consumes_nextParam (hg : g.ConsumesBelow E s.left) (ofClass : Bool)
    (before : List (Param String (Expr String))) : Consumes E (nextParam g ofClass before) s := by
  unfold nextParam
  split
  · split
    · exact ends_fail
    · exact consumes_param hg ofClass
  · exact consumes_param hg ofClass

/-- Parameters are at least their closing parenthesis. -/
theorem consumes_paramList (hg : g.ConsumesBelow E l) (hs : s.left ≤ l) (ofClass : Bool) :
    Consumes E (paramList g ofClass) s := by
  refine advances_skipLineEnds.bind fun _ s₁ h₁ => ?_
  refine (eats_eat _).bind_ite (fun s₂ h₂ => ends_pure (by omega)) fun s₂ h₂ => ?_
  refine Ends.bind (Q := fun _ s' => s'.left < s.left)
    (ends_loop (I := fun s' => s'.left ≤ s.left) (fun params s₃ h₃ => ?_) (by omega))
    fun params s₃ h₃ => ?_
  · refine (consumes_nextParam (hg.mono (by omega)) ofClass params).bind fun p s₄ h₄ => ?_
    refine (eats_eatLine _).bind_ite (fun s₅ h₅ => ?_) fun s₅ h₅ => ?_
    · exact ends_pure ⟨by omega, by omega⟩
    · exact ends_pure (by omega)
  · refine advances_skipLineEnds.bind fun _ s₄ h₄ => (consumes_expect _).bind fun _ s₅ h₅ => ?_
    exact ends_pure (by omega)

theorem advances_params (hg : g.ConsumesBelow E s.left) (ofClass : Bool) :
    Advances E (params g ofClass) s := by
  refine (eats_eat _).bind_ite (fun s₁ h₁ => ?_) fun s₁ h₁ => ends_pure h₁
  exact (consumes_paramList hg (by omega) ofClass).imp fun _ s₂ h₂ => by omega

/-! ## Functions, classes, objects and enums -/

theorem advances_functionBody (hg : g.ConsumesBelow E s.left) : Advances E (functionBody g) s := by
  refine (ends_at? _).bind fun b s₁ h₁ => ?_
  obtain ⟨rfl, hbrace⟩ := h₁
  split
  next h => exact (consumes_block hg (hbrace h)).bind fun _ s₂ h₂ => ends_pure (Nat.le_of_lt h₂)
  · refine (ends_at? _).bind fun b s₂ h₂ => ?_
    obtain ⟨rfl, -⟩ := h₂
    split
    · refine (consumes_expectLine _).bind fun span s₃ h₃ => (hg.expr s₃ h₃).bind fun _ s₄ h₄ => ?_
      exact ends_pure (by omega)
    · exact ends_pure (Nat.le_refl _)

theorem consumes_function (hg : g.ConsumesBelow E s.left) : Consumes E (function g) s := by
  refine (consumes_expectWord _).bind fun span s₁ h₁ => (eats_eat _).bind fun linked s₂ h₂ => ?_
  refine consumes_declaredName.bind fun (n, _) s₃ h₃ => ?_
  refine (advances_params (hg.mono (by omega)) false).bind fun params s₄ h₄ => ?_
  refine (advances_functionBody (hg.mono (by omega))).bind fun body s₅ h₅ => ?_
  refine (ends_linkPath n).bind fun _ s₆ h₆ => ?_
  subst h₆
  exact ends_pure (by omega)

theorem advances_base (hg : g.ConsumesBelow E s.left) : Advances E (base g) s := by
  refine (eats_eat _).bind_ite (fun s₁ h₁ => ?_) fun s₁ h₁ => ends_pure h₁
  exact (hg.expr s₁ h₁).map fun _ s₂ h₂ => by omega

theorem advances_classBody (hg : g.ConsumesBelow E s.left) (name : String) :
    Advances E (classBody g name) s := by
  refine (eats_eatLine _).bind_ite (fun s₁ h₁ => ?_) fun s₁ h₁ => ends_pure h₁
  have hbody : Consumes E (withinClass name (untilBrace g.stmt)) s₁ :=
    Consumes.withinClass name fun s₂ h₂ => Consumes.untilBrace fun s₃ h₃ => hg.stmt s₃ (by omega)
  exact hbody.imp fun _ s₂ h₂ => by omega

theorem consumes_classDecl (hg : g.ConsumesBelow E s.left) : Consumes E (classDecl g) s := by
  refine (consumes_expectWord _).bind fun span s₁ h₁ => (eats_eat _).bind fun linked s₂ h₂ => ?_
  refine consumes_declaredName.bind fun (n, _) s₃ h₃ => ?_
  refine (advances_params (hg.mono (by omega)) true).bind fun params s₄ h₄ => ?_
  refine (advances_base (hg.mono (by omega))).bind fun base s₅ h₅ => ?_
  exact (advances_classBody (hg.mono (by omega)) n).bind fun _ s₆ h₆ => ends_pure (by omega)

theorem consumes_objectDecl (hg : g.ConsumesBelow E s.left) : Consumes E (objectDecl g) s := by
  refine (consumes_expectWord _).bind fun span s₁ h₁ => ?_
  refine consumes_declaredName.bind fun (n, _) s₂ h₂ => ?_
  refine (advances_base (hg.mono (by omega))).bind fun base s₃ h₃ => ?_
  exact (advances_classBody (hg.mono (by omega)) n).bind fun _ s₄ h₄ => ends_pure (by omega)

theorem consumes_enumEntry (hg : g.ConsumesBelow E s.left) (ordinal : Nat) :
    Consumes E (enumEntry g ordinal) s := by
  refine consumes_declaredName.bind fun (n, span) s₁ h₁ => ?_
  -- the comma behind the entry comes with arguments or without them
  have hend (args : List (Arg String (Expr String))) (s' : State String) (hs' : s'.left < s.left) : Ends E
      (do
        let _ ← eat .comma
        skipLineEnds
        return (⟨span, n, args, ordinal⟩ : EnumEntry String (Expr String))) s'
      fun _ s'' => s''.left < s.left := by
    refine (eats_eat _).bind fun _ s₂ h₂ => advances_skipLineEnds.bind fun _ s₃ h₃ => ?_
    exact ends_pure (by omega)
  refine (eats_eat _).bind_ite (fun s₂ h₂ => ?_) fun s₂ h₂ => hend [] s₂ (by omega)
  exact (consumes_callArgs hg (by omega)).bind fun args s₃ h₃ => hend args s₃ (by omega)

theorem consumes_enumEntries (hg : g.ConsumesBelow E l) (hs : s.left ≤ l) :
    Consumes E (enumEntries g) s := by
  refine Ends.bind (Q := fun _ s' => s'.left < s.left)
    (ends_loop (I := fun s' => s'.left ≤ s.left) (fun found s₁ h₁ => ?_) (Nat.le_refl _))
    fun found s₁ h₁ => ends_pure h₁
  refine (eats_eat _).bind_ite (fun s₂ h₂ => ends_pure (by omega)) fun s₂ h₂ => ?_
  exact (consumes_enumEntry (hg.mono (by omega)) _).bind fun _ s₃ h₃ => ends_pure ⟨by omega, by omega⟩

theorem consumes_enumDecl (hg : g.ConsumesBelow E s.left) : Consumes E (enumDecl g) s := by
  refine (consumes_expectWord _).bind fun span s₁ h₁ => ?_
  refine consumes_declaredName.bind fun (n, _) s₂ h₂ => ?_
  refine (advances_params (hg.mono (by omega)) true).bind fun params s₃ h₃ => ?_
  refine (consumes_expectLine _).bind fun _ s₄ h₄ => ?_
  exact (consumes_enumEntries hg (by omega)).bind fun _ s₅ h₅ => ends_pure (by omega)

end IslandScript.Parser
