import IslandScript.Command.Characters
import IslandScript.Proofs.Logic.Evaluator
import IslandScript.Proofs.Parser.Naming
import IslandScript.Proofs.Place.Session

/-!
# Parsing and what was interned before

The words of a text get the names that an interner has for them, or gives to them on the way. What is
parsed does not depend on the interner but for that (`parse_ignores_interned`): over the names of any two
interners a text is refused with the same error, or the two programs are the same once they are read back,
since both are then what is parsed over the words. As all that happens to the interner of a session is that
it grows, every line of a session is parsed as in any other.
-/

namespace IslandScript

namespace Interpreter

open Eval

variable {m m' : Interpreter}

/-- Every state is good, and its interner stays. -/
def keepsNames : StateDiscipline where
  Good _ := True
  Later m m' := m'.interner = m.interner
  Has _ _ := True
  later_refl _ := rfl
  later_trans h h' := h'.trans h
  has_later _ _ := trivial
  change_keeps _ hc := ⟨trivial, by cases hc <;> rfl⟩
  has_created _ := trivial
  has_wrapper _ _ := trivial
  objects_within {m} _ := m.objects_within_all
  tables_within {m} _ := m.tables_within_all
  native_within {_ _ _ _ v} _ _ _ _ := v.within_all
  enter_keeps _ _ := ⟨trivial, rfl⟩
  leave_keeps _ := ⟨trivial, rfl⟩

/-- Running a program interns nothing. -/
theorem interner_run (p : Program Name) (m : Interpreter) :
    (run p m).Leaves (·.interner = m.interner) := by
  have hkeeps : keepsNames.Keeps m _ (run p m) := Logic.run keepsNames.logic p (m := m) trivial
  exact hkeeps.mono (fun _ _ h => h.2.1) fun _ _ h => h.2.1

theorem interner_warn (ws : List ParseWarning) (m : Interpreter) :
    (ws.foldl (fun m w => m.warn w.toDiagnostic) m).interner = m.interner := by
  induction ws generalizing m with
  | nil => rfl
  | cons w ws ih => exact ih _

theorem interner_runParsed (p : InternedProgram) (m : Interpreter) :
    (runParsed p m).Leaves (·.interner = p.interner) := by
  refine leaves_bind (x := change _) (P := (·.interner = p.interner)) rfl fun _ m₀ hm₀ => ?_
  refine leaves_bind (x := change _) ((interner_warn p.warnings m₀).trans hm₀) fun _ m₁ hm₁ => ?_
  refine leaves_bind ((interner_run p.program m₁).mono (fun _ _ h => h.trans hm₁)
    fun _ _ h => h.trans hm₁) fun r m₂ hm₂ => ?_
  cases r <;> exact hm₂

variable [Text.CharNames]

/-- Running a source interns the words of it. -/
theorem grows_runSource (source : Source) (m : Interpreter) :
    (runSource source m).Leaves fun m' => m.interner.Grows m'.interner := by
  rw [runSource_apply]
  rcases hparse : m.interner.parse source.text with (e | _) | parsed
  · exact .refl
  · trivial
  · refine (interner_runParsed parsed m).mono ?_ ?_
    · intro _ m' h
      rw [h]
      exact Interner.grows_parse hparse
    · intro _ m' h
      rw [h]
      exact Interner.grows_parse hparse

theorem grows_importLink (name : String) (m : Interpreter) :
    (importLink name m).Leaves fun m' => m.interner.Grows m'.interner := by
  unfold importLink
  rw [bind_apply]
  dsimp only [Eval.read]
  rcases m.linker.importLink name with kind | ⟨_ | source, linker⟩
  · exact .refl
  · exact .refl
  · refine leaves_bind (x := change _) (P := fun m' => m.interner.Grows m'.interner) .refl ?_
    intro _ m₁ hm₁
    refine leaves_bind ((grows_runSource source m₁).mono (fun _ _ h => hm₁.trans h)
      fun _ _ h => hm₁.trans h) fun r m₂ hm₂ => ?_
    exact hm₂

/-- What an interpreter starts with is the prelude of the core link at most. -/
theorem grows_start (withCore : Bool) (m : Interpreter) :
    (start withCore [] m).Leaves fun m' => m.interner.Grows m'.interner := by
  cases withCore with
  | false => exact .refl
  | true =>
      refine leaves_bind (grows_importLink Core.name m) fun core m₁ hm₁ => ?_
      cases core <;> exact hm₁

end Interpreter

namespace Command

open Eval

variable [Text.CharNames] {sources : List Source} {m : Interpreter}

theorem grows_beginSession (withCore : Bool) (m : Interpreter) :
    (beginSession withCore m).Leaves fun m' => m.interner.Grows m'.interner := by
  refine leaves_bind (Interpreter.grows_start withCore m) fun r m₁ hm₁ => ?_
  cases r <;> exact hm₁

theorem grows_runLine (line : String) (m : Interpreter) :
    (runLine line m).Leaves fun m' => m.interner.Grows m'.interner := by
  have hrun := Interpreter.grows_runSource (lineSource line) m
  rw [runLine_eq]
  -- what is run does not matter any more, and need not be evaluated
  generalize Interpreter.runSource (lineSource line) = run at hrun ⊢
  refine leaves_bind hrun fun r m₁ hm₁ => ?_
  cases r <;> exact hm₁

/-- The interner of a session comes from a new one by interning. -/
theorem Session.interner (h : Session sources m) : m.interner.Reachable := by
  induction h with
  | start linker console withCore h =>
      exact (grows_beginSession withCore (.new linker console)).of_state? (by rw [h]; rfl)
  | line _ hline ih => exact ih.trans ((grows_runLine _ _).of_state? (by rw [hline]; rfl))

end Command

attribute [local instance] Command.charNames

end IslandScript
