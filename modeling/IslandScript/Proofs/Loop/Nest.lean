import IslandScript.Proofs.Loop.Pass
import IslandScript.Proofs.Signal.Barrier

/-!
# Breaks and continues in nests of loops

Loops stand in one another's passes, with any statements and expressions between them.
`Eval.Carries` says how a signal comes from a loop to the pass of the loop around it, and `Nest`
puts loops that are each in a pass around one another, down to the jump that the innermost pass
raises. The main statement is `loop_jumps_stop_at_label`: loops a jump is not meant for do nothing
more, the one it is meant for ends or goes on.
-/

namespace IslandScript

open Eval

/-! ## The way of a signal out of an evaluation -/

section Carries

variable {α β : Type} {y : Eval Unit} {m₀ m₁ : Interpreter}

/-- `x` from `m` comes to evaluate `y` from `m₀`, and should `y` raise `s` and leave `m₁` behind,
then `s` is not caught on its way out of `x`, or is raised again by what caught it, such as the last
part of a `try`; `m'` is left behind then. -/
inductive Eval.Carries (s : Signal) (y : Eval Unit) (m₀ m₁ : Interpreter) :
    {α : Type} → Eval α → Interpreter → Interpreter → Prop
  | here : Carries s y m₀ m₁ y m₀ m₁
  | first {α β : Type} {x : Eval α} {f : α → Eval β} {m m' : Interpreter}
      (h : Carries s y m₀ m₁ x m m') : Carries s y m₀ m₁ (x >>= f) m m'
  | later {α β : Type} {x : Eval α} {f : α → Eval β} {a : α} {m m₂ m' : Interpreter}
      (hx : x m = .done a m₂) (h : Carries s y m₀ m₁ (f a) m₂ m') :
      Carries s y m₀ m₁ (x >>= f) m m'
  | within {α : Type} {x : Eval α} {enter : Environment → Environment} {m m' : Interpreter}
      (h : Carries s y m₀ m₁ x (m.onEnv enter) m') :
      Carries s y m₀ m₁ (Eval.within enter x) m (m'.onEnv .pop)
  | again {α β : Type} {x : Eval α} {f : Except Signal α → Eval β} {m m₂ m' : Interpreter}
      (h : Carries s y m₀ m₁ x m m₂) (hf : f (.error s) m₂ = .raised s m') :
      Carries s y m₀ m₁ (attempt x >>= f) m m'

theorem Eval.Carries.raised {s : Signal} {x : Eval α} {m m' : Interpreter}
    (h : Carries s y m₀ m₁ x m m') (hy : y m₀ = .raised s m₁) : x m = .raised s m' := by
  induction h with
  | here => exact hy
  | first _ ih => exact bind_raised ih
  | later hx _ ih => exact (bind_done hx).trans ih
  | within _ ih => exact raised_within_iff.mpr ⟨_, ih, rfl⟩
  | @again _ _ x f m m₂ m' _ hf ih =>
      have hattempt : attempt x m = .done (.error s) m₂ := by
        unfold attempt
        rw [ih]
      exact (bind_done hattempt).trans hf

end Carries

/-! ## Nests -/

/-- A loop statement in one of its passes: how deep it is evaluated, where it started, how the loop
stands in the pass, where the pass began, and the state in which a jump leaves it. -/
structure OpenLoop where
  depth : Nat
  stmt : Stmt Name
  start : Interpreter
  loop : Loop
  now : Interpreter
  out : Interpreter
  inPass : Loop.InPass (evaluator depth) stmt start loop now

namespace OpenLoop

variable {l : OpenLoop} {s : Signal} {label : Option Name}

/-- What the loop statement comes to. -/
def outcome (l : OpenLoop) : Outcome Unit := (evaluator (l.depth + 1)).stmt l.stmt l.start

/-- The pass raises a signal. -/
def PassRaises (l : OpenLoop) (s : Signal) : Prop :=
  l.loop.pass (evaluator l.depth) l.now = .raised s l.out

/-- The pass of one loop comes to another, and lets a signal through that the other raises. -/
def Around (s : Signal) (outer inner : OpenLoop) : Prop :=
  Carries s ((evaluator (inner.depth + 1)).stmt inner.stmt) inner.start inner.out
    (outer.loop.pass (evaluator outer.depth)) outer.now outer.out

theorem outcome_eq (l : OpenLoop) : l.outcome = l.loop.run (evaluator l.depth) l.now :=
  (congrFun (Logic.atLevel_eq l.depth _) l.start).trans l.inPass.eq_run

/-- A jump that is not meant for the loop leaves it where it left the pass. -/
theorem outcome_jumpPast (hs : s = .breakLoop label ∨ s = .continueLoop label)
    (h : l.PassRaises s) (hlabel : ¬(label = none ∨ label = l.loop.label)) :
    l.outcome = .raised s l.out :=
  l.outcome_eq.trans (Loop.run_jumpPast hs h hlabel)

theorem Around.raised {outer inner : OpenLoop} (h : outer.Around s inner)
    (hinner : inner.outcome = .raised s inner.out) : outer.PassRaises s := by
  unfold Around at h
  unfold outcome at hinner
  exact Carries.raised h hinner

end OpenLoop

/-- A nest of loops, each in a pass and in the pass of the one before, down to a pass that raises a
signal. -/
inductive Nest (s : Signal) : OpenLoop → List OpenLoop → Prop
  | innermost {l : OpenLoop} (h : l.PassRaises s) : Nest s l []
  | around {outer inner : OpenLoop} {inside : List OpenLoop} (h : Nest s inner inside)
      (haround : outer.Around s inner) : Nest s outer (inner :: inside)

/-- Where no loop inside stops a jump, it comes to the outermost one. -/
theorem Nest.raised {s : Signal} {label : Option Name} {l : OpenLoop} {inside : List OpenLoop}
    (hs : s = .breakLoop label ∨ s = .continueLoop label) (h : Nest s l inside)
    (hinside : ∀ i ∈ inside, ¬(label = none ∨ label = i.loop.label)) :
    l.PassRaises s ∧ ∀ i ∈ inside, i.outcome = .raised s i.out := by
  induction h with
  | innermost hraises => exact ⟨hraises, List.forall_mem_nil _⟩
  | @around outer inner inside _ haround ih =>
      obtain ⟨hinner, hrest⟩ := List.forall_mem_cons.mp hinside
      obtain ⟨hraises, houtcomes⟩ := ih hrest
      have houtcome := OpenLoop.outcome_jumpPast hs hraises hinner
      exact ⟨haround.raised houtcome, List.forall_mem_cons.mpr ⟨houtcome, houtcomes⟩⟩

/-- **Labelled jumps stop at the right loop.** A jump is raised in the innermost pass of a nest of
loops, and no loop inside the outermost one has its label. Then all those inside raise it on from
the state in which it left their passes, without another pass or check; there are none if the jump
has no label. If it is meant for the outermost loop, a break ends that loop there, and a continue
lets it go on with its next check or item; if not, it leaves that loop as well. -/
theorem loop_jumps_stop_at_label {s : Signal} {label : Option Name} {outermost : OpenLoop}
    {inside : List OpenLoop} (hs : s = .breakLoop label ∨ s = .continueLoop label)
    (hnest : Nest s outermost inside)
    (hinside : ∀ l ∈ inside, ¬(label = none ∨ label = l.loop.label)) :
    (∀ l ∈ inside, l.outcome = .raised s l.out) ∧
    (label = none → inside = []) ∧
    (label = none ∨ label = outermost.loop.label →
      (s = .breakLoop label → outermost.outcome = .done () outermost.out) ∧
      (s = .continueLoop label →
        outermost.outcome = outermost.loop.goOn (evaluator outermost.depth) outermost.out)) ∧
    (¬(label = none ∨ label = outermost.loop.label) →
      outermost.outcome = .raised s outermost.out) := by
  obtain ⟨hraises, houtcomes⟩ := hnest.raised hs hinside
  refine ⟨houtcomes, ?_, ?_, OpenLoop.outcome_jumpPast hs hraises⟩
  · intro hnone
    refine List.eq_nil_iff_forall_not_mem.mpr fun l hl => ?_
    exact hinside l hl (.inl hnone)
  · intro hlabel
    refine ⟨?_, ?_⟩
    · rintro rfl
      exact outermost.outcome_eq.trans (Loop.run_break hraises hlabel)
    · rintro rfl
      exact outermost.outcome_eq.trans (Loop.run_continue hraises hlabel)

/-- A loop that breaks the one around it. -/
def breakingLoop : Stmt Name :=
  .loop Span.none none none (.breakLoop Span.none (some ⟨5⟩))

/-- A loop with a label around one without, from which a break to the label comes. -/
theorem break_ends_labelled_loop : ∃ outermost inner,
    Nest (.breakLoop (some ⟨5⟩)) outermost [inner] ∧
      outermost.stmt = .whileLoop Span.none (some ⟨5⟩) (.value Span.none (.bool true))
        (.block Span.none [breakingLoop]) ∧
      inner.outcome = .raised (.breakLoop (some ⟨5⟩)) inner.out ∧
      outermost.outcome = .done () outermost.out := by
  -- The break leaves two scopes of passes and that of the block.
  let m : Interpreter := .new .empty default
  let inner : OpenLoop :=
    { depth := 2
      stmt := breakingLoop
      start := (m.onEnv .pushChild).onEnv .pushChild
      loop := .counted 0 none none 0 (.breakLoop Span.none (some ⟨5⟩))
      now := (m.onEnv .pushChild).onEnv .pushChild
      out := (((m.onEnv .pushChild).onEnv .pushChild).onEnv .pushChild).onEnv .pop
      inPass := .first (.counted rfl rfl rfl) }
  let outermost : OpenLoop :=
    { depth := 4
      stmt := .whileLoop Span.none (some ⟨5⟩) (.value Span.none (.bool true))
        (.block Span.none [breakingLoop])
      start := m
      loop := .whileLoop 2 (some ⟨5⟩) (.value Span.none (.bool true))
        (.block Span.none [breakingLoop])
      now := m
      out := (inner.out.onEnv .pop).onEnv .pop
      inPass := .first (.whileLoop rfl rfl) }
  have hnest : Nest (.breakLoop (some ⟨5⟩)) outermost [inner] := by
    refine .around (.innermost rfl) ?_
    exact .within (.within (.first (f := fun _ => pure ()) .here))
  obtain ⟨hinner, -, houter, -⟩ := loop_jumps_stop_at_label (.inl rfl) hnest (by decide)
  exact ⟨outermost, inner, hnest, rfl, hinner inner List.mem_cons_self, (houter (.inr rfl)).1 rfl⟩

end IslandScript
