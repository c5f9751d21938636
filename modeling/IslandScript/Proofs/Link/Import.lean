import Mathlib
import IslandScript.Command.Characters
import IslandScript.Proofs.Link.History
import IslandScript.Proofs.Logic.Request

/-!
# Imports that fail

To import a link is to register its natives and to count it as imported, and then to run its prelude.
Code has no way to change the linker, so what is registered and counted by then stays, however the
prelude ends. Only an import of a link that is not on offer leaves no trace.
-/

namespace IslandScript

open Eval

variable {m m' : Interpreter} {name : String} {d : Diagnostic} {link : Link}

/-! ## Code does not change the linker -/

/-- Every state is good, and keeps its linker. -/
def StateDiscipline.keepingLinker : StateDiscipline where
  Good _ := True
  Later m m' := m'.linker = m.linker
  Has _ _ := True
  later_refl _ := rfl
  later_trans h h' := h'.trans h
  has_later _ _ := trivial
  change_keeps _ hc := ⟨trivial, by cases hc <;> rfl⟩
  has_created _ := trivial
  has_wrapper _ _ := trivial
  objects_within {m} _ := m.objects_within_all
  tables_within {m} _ := m.tables_within_all
  native_within {_ _ _ _ v} _ _ _ _ := v.within_all
  enter_keeps _ _ := ⟨trivial, rfl⟩
  leave_keeps _ := ⟨trivial, rfl⟩

namespace Interpreter

theorem linker_run (p : Program Name) (m : Interpreter) :
    (Interpreter.run p m).Leaves (·.linker = m.linker) := by
  have hkeeps := Logic.run StateDiscipline.keepingLinker.logic p (m := m) trivial
  exact hkeeps.mono (fun _ _ h => h.2.1) fun _ _ h => h.2.1

theorem linker_warn (ws : List ParseWarning) (m : Interpreter) :
    (ws.foldl (fun m w => m.warn w.toDiagnostic) m).linker = m.linker := by
  induction ws generalizing m with
  | nil => rfl
  | cons w ws ih => exact ih _

/-- Whether a source is parsed or not, and however it ends, the linker is the same afterwards. -/
theorem linker_runSource [Text.CharNames] (source : Source) (m : Interpreter) :
    (Interpreter.runSource source m).Leaves (·.linker = m.linker) := by
  rw [runSource_apply]
  rcases m.interner.parse source.text with (e | _) | parsed
  · rfl
  · trivial
  · let warned := parsed.warnings.foldl (fun m w => m.warn w.toDiagnostic)
      { m with interner := parsed.interner }
    show ((Interpreter.run parsed.program >>= _) warned).Leaves _
    refine leaves_bind ((linker_run parsed.program warned).mono ?_ ?_) ?_
    · exact fun _ _ h => h.trans (linker_warn _ _)
    · exact fun _ _ h => h.trans (linker_warn _ _)
    · intro r m₁ h₁
      cases r <;> exact h₁

/-! ## The three ways of an import -/

variable [Text.CharNames]

theorem importLink_of_imported (h : name ∈ m.linker.imported) :
    importLink name m = .done (.ok ()) (m.warn (importedAgain name)) := by
  unfold importLink
  rw [bind_apply]
  dsimp only [Eval.read]
  rw [Linker.importLink_again h]
  rfl

theorem importLink_of_missing (h : name ∉ m.linker.imported) (hlink : m.linker.find? name = none) :
    importLink name m =
      .done (.error (EvalError.toDiagnostic ⟨.link (.missingLink name), Span.none⟩)) m := by
  unfold importLink
  rw [bind_apply]
  dsimp only [Eval.read]
  rw [Linker.importLink_missing h hlink]
  rfl

/-- The state in which the prelude of a link runs. -/
def registering (m : Interpreter) (name : String) (link : Link) : Interpreter :=
  { m with linker := { m.linker.register link with imported := m.linker.imported ++ [name] } }

theorem importLink_of_found (h : name ∉ m.linker.imported)
    (hlink : m.linker.find? name = some link) :
    importLink name m =
      (do return (← runSource link.prelude).map fun _ => ()) (m.registering name link) := by
  unfold importLink
  rw [bind_apply]
  dsimp only [Eval.read]
  rw [Linker.importLink_new h hlink]
  rfl

end Interpreter

/-! ## Imports that fail -/

/-- **A link whose prelude fails is imported.** An import fails for one of two reasons. If no link of
the name is on offer, nothing changes, and a further import fails as well. If the prelude of the link
fails, the link has been imported: its natives are registered, and wherever it still counts as
imported, a further import does not fail and does not run the prelude, but only warns that the link
has been imported before. -/
theorem failed_import_imports [Text.CharNames]
    (h : Interpreter.importLink name m = .done (.error d) m') :
    name ∉ m.linker.imported ∧
    ((m.linker.find? name = none ∧ m' = m ∧
        d = EvalError.toDiagnostic ⟨.link (.missingLink name), Span.none⟩ ∧
        ∀ later : Interpreter, later.linker = m.linker →
          Interpreter.importLink name later = .done (.error d) later) ∨
      ∃ link, m.linker.find? name = some link ∧
        Interpreter.runSource link.prelude (m.registering name link) = .done (.error d) m' ∧
        m'.linker = { m.linker.register link with imported := m.linker.imported ++ [name] } ∧
        ∀ later : Interpreter, m'.linker.imported ⊆ later.linker.imported →
          Interpreter.importLink name later =
            .done (.ok ()) (later.warn (Interpreter.importedAgain name))) := by
  have hnew : name ∉ m.linker.imported := fun hname => by
    rw [Interpreter.importLink_of_imported hname] at h
    cases h
  refine ⟨hnew, ?_⟩
  cases hlink : m.linker.find? name with
  | none =>
      rw [Interpreter.importLink_of_missing hnew hlink] at h
      cases h
      refine .inl ⟨rfl, rfl, rfl, fun later hlater => ?_⟩
      exact Interpreter.importLink_of_missing (hlater ▸ hnew) (hlater ▸ hlink)
  | some link =>
      rw [Interpreter.importLink_of_found hnew hlink] at h
      obtain ⟨r, m₁, hrun, hr⟩ := bind_eq_done.mp h
      obtain ⟨e, rfl⟩ : ∃ e, r = .error e := by
        cases r with
        | error e => exact ⟨e, rfl⟩
        | ok r => cases hr
      cases hr
      -- the prelude runs after the link has been registered, and cannot change the linker
      have hlinker : m'.linker = (m.registering name link).linker := by
        have hleaves := Interpreter.linker_runSource link.prelude (m.registering name link)
        rwa [hrun] at hleaves
      refine .inr ⟨link, rfl, hrun, hlinker, fun later hlater => ?_⟩
      refine Interpreter.importLink_of_imported (hlater ?_)
      rw [hlinker]
      exact List.mem_append_right _ (List.mem_singleton_self name)

/-- A link whose prelude reads a name that nothing defines. -/
def brokenLink : Link := ⟨"broken", ⟨"broken", "x"⟩, [], []⟩

/-- A new interpreter with that link on offer. -/
def offeringBroken : Interpreter := .new (Linker.new.add brokenLink).2 default

theorem importLink_broken [Text.CharNames] : ∃ d m',
    Interpreter.importLink "broken" offeringBroken = .done (.error d) m' ∧
      m'.linker.imported = ["broken"] := by
  have hparse : Interner.new.parse "x" =
      .ok ⟨⟨[.expr ⟨1, 1, 1⟩ (.name ⟨1, 1, 1⟩ ⟨5⟩)], []⟩, (Interner.new.intern "x").2⟩ := by cbv
  have hfound : offeringBroken.linker.find? "broken" = some brokenLink := rfl
  rw [Interpreter.importLink_of_found (by decide) hfound, bind_apply,
    Interpreter.runSource_of_parse hparse]
  exact ⟨_, _, rfl, rfl⟩

attribute [local instance] Command.charNames

/-- The link fails and has been imported. -/
theorem failed_import_imports_broken : ∃ d m' link,
    Interpreter.importLink "broken" offeringBroken = .done (.error d) m' ∧
    offeringBroken.linker.find? "broken" = some link ∧
    Interpreter.runSource link.prelude (offeringBroken.registering "broken" link) =
      .done (.error d) m' ∧
    Interpreter.importLink "broken" m' =
      .done (.ok ()) (m'.warn (Interpreter.importedAgain "broken")) := by
  obtain ⟨d, m', himport, -⟩ := importLink_broken
  obtain ⟨-, ⟨hnone, -⟩ | ⟨link, hlink, hrun, -, hlater⟩⟩ := failed_import_imports himport
  · cases hnone
  · exact ⟨d, m', link, himport, hlink, hrun, hlater m' (List.Subset.refl _)⟩

/-- So the links that are imported are others after the import that failed, and the next import says
that the link has been imported before. -/
theorem failed_import_not_undone : ∃ d m',
    Interpreter.importLink "broken" offeringBroken = .done (.error d) m' ∧
    m'.linker.imported ≠ offeringBroken.linker.imported ∧
    Interpreter.importLink "broken" m' =
      .done (.ok ()) (m'.warn (Interpreter.importedAgain "broken")) := by
  obtain ⟨d, m', himport, himported⟩ := importLink_broken
  refine ⟨d, m', himport, by rw [himported]; decide, ?_⟩
  exact Interpreter.importLink_of_imported (by rw [himported]; decide)

end IslandScript
