import IslandScript.Command.Characters
import IslandScript.Proofs.Link.Core
import IslandScript.Proofs.Scope.Borrow
import IslandScript.Proofs.Scope.Sound

/-!
# Reachable states

`Reachable` holds of every state an interpreter can come to: a new one, what is left of it after
links were imported, sources run and requests performed, in any order and however they ended, and
the states in between, while scopes are entered and elementary changes made. All of them are sound,
so in all of them every walk along scopes ends, and no assignment borrows a scope it holds.
-/

namespace IslandScript

open Eval

/-- The states an interpreter can come to. Links from elsewhere are taken to be faithful. -/
inductive Reachable [Text.CharNames] : Interpreter → Prop
  | new (console : Console) : Reachable (.new Linker.new console)
  /-- Names may be interned by others that share the interner. -/
  | intern {m : Interpreter} (interner : Interner) (h : Reachable m) :
      Reachable { m with interner := interner }
  | offer {m : Interpreter} {link : Link} (hlink : link.Faithful) (h : Reachable m) :
      Reachable { m with linker := (m.linker.add link).2 }
  | importLink {m m' : Interpreter} {name : String} (h : Reachable m)
      (hm' : (Interpreter.importLink name m).state? = some m') : Reachable m'
  | source {m m' : Interpreter} {source : Source} (h : Reachable m)
      (hm' : (Interpreter.runSource source m).state? = some m') : Reachable m'
  | request {m m' : Interpreter} {n : Nat} {r : Request} (h : Reachable m)
      (hr : r.Within m.env.Created) (hm' : (r.perform (evaluator n) m).state? = some m') :
      Reachable m'
  | enter {m : Interpreter} {f : Environment → Environment} (h : Reachable m)
      (he : Enters m.env.Created f) : Reachable (m.onEnv f)
  | change {m m' : Interpreter} (h : Reachable m) (hc : Change m.env.Created m m') : Reachable m'
  | leave {m : Interpreter} (h : Reachable m) : Reachable (m.onEnv .pop)
  | takeWarnings {m : Interpreter} (h : Reachable m) : Reachable m.takeWarnings.2
  | close {m : Interpreter} (h : Reachable m) : Reachable m.close

/-! ## Reachable states are sound -/

theorem Wrappers.get?_empty (p : Primitive) : Wrappers.empty.get? p = none := by
  unfold get? empty
  rw [Array.getElem?_replicate]
  split <;> rfl

/-- At first there is the global scope, inside no other and without names. -/
theorem Environment.get_new (s : ScopeId) : Environment.new.scopes.get s = Scope.root := by
  obtain ⟨_ | i⟩ := s <;> rfl

theorem Environment.Sound.new : Environment.new.Sound where
  ordered :=
    { parent := fun {s p} h => by
        rw [Environment.get_new] at h
        cases h
      base := fun {s b} h => by
        unfold Scopes.base? at h
        rw [Environment.get_new] at h
        cases h }
  active s hs := by
    rw [List.mem_singleton.mp hs]
    exact Nat.one_pos
  own {s n r} h := by
    unfold Scopes.own? at h
    rw [Environment.get_new] at h
    cases h

namespace Interpreter.Sound

variable {m : Interpreter}

theorem new (console : Console) : (Interpreter.new Linker.new console).Sound where
  env := .new
  function h := nomatch h
  cls h := nomatch h
  tables :=
    { item := fun h => nomatch h
      entry := fun h => nomatch h }
  wrapper {p s} h := by
    cases (Wrappers.get?_empty p).symm.trans h
  linker := .new

/-- Names and warnings have nothing to do with scopes. -/
theorem withNames (h : m.Sound) (interner : Interner) (warnings : List Diagnostic) :
    { m with interner := interner, warnings := warnings }.Sound :=
  ⟨h.env, h.function, h.cls, h.tables, h.wrapper, h.linker⟩

theorem withLinker (h : m.Sound) {linker : Linker} (hl : linker.Faithful) :
    { m with linker := linker }.Sound :=
  ⟨h.env, h.function, h.cls, h.tables, h.wrapper, hl⟩

theorem close (h : m.Sound) : m.close.Sound := by
  refine ⟨h.env, h.function, h.cls, h.tables, fun {p s} hw => ?_, h.linker.close⟩
  cases (Wrappers.get?_empty p).symm.trans hw

theorem warn (h : m.Sound) (ws : List ParseWarning) :
    (ws.foldl (fun m w => m.warn w.toDiagnostic) m).Sound := by
  induction ws generalizing m with
  | nil => exact h
  | cons w ws ih => exact ih (h.withNames _ _)

theorem runParsed (h : m.Sound) (parsed : InternedProgram) :
    (Interpreter.runParsed parsed m).Leaves Interpreter.Sound := by
  refine leaves_bind (x := Eval.change _) (h.withNames parsed.interner m.warnings) ?_
  intro _ m₁ h₁
  refine leaves_bind (x := Eval.change _) (h₁.warn parsed.warnings) ?_
  intro _ m₂ h₂
  refine leaves_bind (Request.sound bound (.program parsed.program) h₂ trivial) ?_
  intro r m₃ h₃
  cases r <;> exact h₃

/-- Running a source leaves a sound state sound. -/
theorem runSource [Text.CharNames] (h : m.Sound) (source : Source) :
    (Interpreter.runSource source m).Leaves Interpreter.Sound := by
  rw [Interpreter.runSource_apply]
  rcases m.interner.parse source.text with (e | _) | parsed
  · exact h
  · trivial
  · exact h.runParsed parsed

/-- Importing a link leaves a sound state sound. -/
theorem importLink [Text.CharNames] (h : m.Sound) (name : String) :
    (Interpreter.importLink name m).Leaves Interpreter.Sound := by
  unfold Interpreter.importLink
  -- The linker that was read is that of the state, so what it imports is faithful.
  rw [bind_apply]
  dsimp only [Eval.read]
  rcases hl : m.linker.importLink name with kind | ⟨_ | source, linker⟩
  · exact h
  · exact h.withNames _ _
  · refine leaves_bind (h.withLinker (h.linker.importLink hl)) ?_
    intro _ m₁ h₁
    exact leaves_bind (h₁.runSource source) fun _ _ h₂ => h₂

end Interpreter.Sound

theorem Reachable.sound [Text.CharNames] {m : Interpreter} (h : Reachable m) : m.Sound := by
  induction h with
  | new console => exact .new console
  | intern interner _ ih => exact ih.withNames _ _
  | offer hlink _ ih => exact ih.withLinker (ih.linker.add hlink)
  | importLink _ hm' ih => exact (ih.importLink _).of_state? hm'
  | source _ hm' ih => exact (ih.runSource _).of_state? hm'
  | request _ hr hm' ih => exact (Request.sound _ _ ih hr).of_state? hm'
  | enter _ he ih => exact ih.enter he
  | change _ hc ih => exact ih.change hc
  | leave _ ih => exact ih.leave
  | takeWarnings _ ih => exact ih.withNames _ _
  | close _ ih => exact ih.close

/-! ## Walks in reachable states -/

/-- **Scopes form no cycle.** In every reachable state, each scope was created after its parent and
after its base, so that there is no cycle along parents and bases. Walks that look names up or
assign to them end from every scope, and no assignment borrows a scope that it holds. -/
theorem reachable_scopes_acyclic [Text.CharNames] {m : Interpreter} (h : Reachable m) :
    m.env.scopes.Ordered ∧ (∀ s, ¬ m.env.scopes.Leads s s) ∧ m.env.scopes.WalksEnd := by
  have hordered : m.env.scopes.Ordered := h.sound.env.ordered
  exact ⟨hordered, Scopes.not_leads_self hordered, hordered.walksEnd⟩

/-- A class, a class whose instances have one of the first as their base, and an instance of it. -/
def instanceWithBase : Program Name :=
  [.cls Span.none ⟨Span.none, "A", false, ⟨5⟩, [], none, []⟩,
   .cls Span.none ⟨Span.none, "B", false, ⟨6⟩, [],
      some (.invoke Span.none (.name Span.none ⟨5⟩) []), []⟩,
   .expr Span.none (.invoke Span.none (.name Span.none ⟨6⟩) [])]

attribute [local instance] Command.charNames

/-- The instance of the second class is the last of five scopes, its base the one before. -/
theorem instanceWithBase_acyclic :
    ∃ m, (Interpreter.run instanceWithBase (.new Linker.new default)).state? = some m ∧
      m.env.scopes.size = 5 ∧ m.env.scopes.base? ⟨4⟩ = some ⟨3⟩ ∧
      m.env.scopes.Ordered ∧ (∀ s, ¬ m.env.scopes.Leads s s) ∧ m.env.scopes.WalksEnd :=
  ⟨_, rfl, rfl, rfl, reachable_scopes_acyclic
    (.request (r := .program instanceWithBase) (n := bound) (.new default) trivial rfl)⟩

end IslandScript
