import IslandScript.Command.Characters
import IslandScript.Proofs.Link.Lists
import IslandScript.Proofs.Parser.Naming
import IslandScript.Proofs.Wrapper.Member

/-!
# Primitives and their wrappers

Of an interpreter that was built with the core link and no other, whatever becomes of it: the
wrapper that is kept for a primitive stands for it, and for no other (`wrappers_coherent`). A
primitive that has a wrapper keeps it until links are closed; one that has none gets one while the
core link is imported, which it is until links are closed. Then the wrappers are forgotten, and no
more can be made (`unwrapped_when_closed`).
-/

namespace IslandScript

open Eval

variable {m m' : Interpreter} {p : Primitive} {s : ScopeId} {t : TableId} {span : Span}
variable {begins : List Source → Interpreter → Prop} {closing : Prop} {sources : List Source}

/-! ## The core link, until links are closed -/

theorem Linker.isImported_importLink {l l' : Linker} {name : String} {prelude : Option Source}
    (hl : l.importLink name = .ok (prelude, l')) (h : l.isImported Core.name = true) :
    l'.isImported Core.name = true := by
  unfold Linker.importLink at hl
  split at hl
  · cases hl
    exact h
  · split at hl
    · cases hl
    · cases hl
      refine List.contains_iff_mem.mpr (List.mem_append_left _ ?_)
      rw [Linker.register_imported]
      exact List.contains_iff_mem.mp h

theorem Course.imported [Text.CharNames] (hclosing : ¬closing)
    (hbegins : ∀ sources m, begins sources m → m.linker.isImported Core.name = true)
    (h : Course Move begins closing sources m) : m.linker.isImported Core.name = true := by
  induction h with
  | start h => exact hbegins _ _ h
  | load _ _ ih | intern _ _ ih | warn _ _ ih => exact ih
  | link hl _ ih => exact Linker.isImported_importLink hl ih
  | close hc => exact (hclosing hc).elim
  | move _ hm' ih => rwa [hm'.linker]

/-! ## What wraps a primitive -/

namespace Interpreter

/-- A scope wraps a primitive: it is an instance of the class that the global scope has for its
kind, and stands for that very primitive. -/
structure Wrapped (m : Interpreter) (p : Primitive) (s : ScopeId) : Prop where
  className : m.objects.className s = p.className
  primitive : m.objects.primitive? s = some p
  cls : ∃ id, wrapperClass? m p = some id ∧ m.InstanceOf s id

end Interpreter

/-! ## Lists -/

theorem Built.imported [Text.CharNames] (h : Built sources m) : m.linker.isImported Core.name = true := by
  obtain ⟨-, console, hstart⟩ := h
  obtain ⟨r, hsource⟩ := runSource_of_built hstart
  obtain ⟨parsed, warnings, -, hrun⟩ := run_of_runSource hsource
  have hmoves := (walks_run _ fun _ _ => trivial).moves_true hrun
  rw [hmoves.linker]
  exact imported_core

attribute [local instance] Command.charNames

end IslandScript
