import IslandScript.Proofs.Wrapper.Start

/-!
# Wrappers are coherent

In all that becomes of an interpreter that was built with the core link and no other, what is kept
for a primitive wraps it; a primitive is wrapped while the core link is imported, by the instance
that is kept for it if there is one, and until links are closed by no other.
-/

namespace IslandScript

open Eval

variable {P : Binder Name → Prop} {m m' : Interpreter} {p : Primitive} {s : ScopeId}
variable {begins : List Source → Interpreter → Prop} {closing : Prop} {sources : List Source}

/-! ## What is kept -/

/-- An interpreter is ready, and what it keeps for a primitive wraps it. -/
structure Interpreter.Coherent (m : Interpreter) : Prop where
  ready : m.Ready
  whole : m.wrappers.Whole
  kept : ∀ p s, m.wrappers.Keeps p s → m.Wrapper p s

theorem Built.coherent [Text.CharNames] (h : Built sources m) : m.Coherent where
  ready := h.ready.1
  whole := h.ready.2 ▸ Wrappers.whole_empty
  kept _ _ hs := (Wrappers.not_keeps_empty (h.ready.2 ▸ hs)).elim

/-- A move keeps no wrapper, or one that was made where none was kept. -/
theorem Move.wrappers_cases (h : Move P m m') :
    m'.wrappers = m.wrappers ∨ ∃ p s, m.Wraps p s ∧ m' = m.keepWrapper p s := by
  cases h with
  | @wrapper p s h => exact .inr ⟨p, s, h, rfl⟩
  | _ => exact .inl rfl

namespace Interpreter.Coherent

theorem move (h : m.Coherent) (hm : Move P m m') : m'.Coherent := by
  have hready := h.ready.later hm.later (hm.linker ▸ h.ready.linker)
  rcases hm.wrappers_cases with hsame | ⟨q, t, hwraps, rfl⟩
  · exact ⟨hready, hsame ▸ h.whole, fun p s hs => (h.kept p s (hsame ▸ hs)).later hm.later⟩
  · refine ⟨hready, h.whole.insert q t, fun p s hs => ?_⟩
    rcases Wrappers.keeps_of_insert hs with ⟨rfl, rfl⟩ | hs
    · exact (hwraps.wrapper h.ready).later hm.later
    · exact (h.kept p s hs).later hm.later

/-- What is kept for a primitive is kept on. -/
theorem get?_move (h : m.Coherent) (hm : Move P m m') (hs : m.wrappers.get? p = some s) :
    m'.wrappers.get? p = some s := by
  rcases hm.wrappers_cases with hsame | ⟨q, t, hwraps, rfl⟩
  · rw [hsame, hs]
  · show (m.wrappers.insert q t).get? p = some s
    rw [h.whole.get?_insert, if_neg ?_, hs]
    rintro rfl
    cases hs.symm.trans (hwraps.get?_eq_none h.ready)

theorem moves (h : m.Coherent) (hm : Moves P m m') : m'.Coherent :=
  hm.keep (fun _ _ h hmove => h.move hmove) h

/-- Names, links and warnings may change. -/
theorem apart (h : m.Coherent) {i : Interner} {linker : Linker} (warnings : List Diagnostic)
    (hi : m.interner.Grows i) (hkeeps : m.linker.Keeps linker) (hsole : linker.Sole) :
    { m with interner := i, linker := linker, warnings := warnings }.Coherent := by
  have hlater : m.Later { m with interner := i, linker := linker, warnings := warnings } :=
    ⟨⟨.refl _, fun _ _ h => h, fun _ _ h => h⟩, hi, hkeeps, fun _ _ _ _ _ _ => rfl⟩
  exact ⟨h.ready.later hlater hsole, h.whole, fun p s hs => (h.kept p s hs).later hlater⟩

theorem close (h : m.Coherent) : m.close.Coherent := by
  have hlater : m.Later m.close :=
    ⟨⟨.refl _, fun _ _ h => h, fun _ _ h => h⟩, .refl, Linker.keeps_close _,
      fun _ _ _ _ _ _ => rfl⟩
  exact ⟨h.ready.later hlater h.ready.linker.close, Wrappers.whole_empty,
    fun p s hs => (Wrappers.not_keeps_empty hs).elim⟩

end Interpreter.Coherent

namespace Course

theorem coherent [Text.CharNames] (hbegins : ∀ sources m, begins sources m → m.Coherent)
    (h : Course Move begins closing sources m) : m.Coherent := by
  induction h with
  | start h => exact hbegins _ _ h
  | load _ _ ih => exact ih
  | intern hi _ ih => exact ih.apart _ hi (.refl _) ih.ready.linker
  | warn warnings _ ih => exact ih.apart warnings .refl (.refl _) ih.ready.linker
  | link hl _ ih => exact ih.apart _ .refl (Linker.keeps_importLink hl) (ih.ready.linker.importLink hl)
  | close _ _ ih => exact ih.close
  | move _ hm' ih => exact ih.move hm'

/-- Until links are closed, what is kept for a primitive is kept on. -/
theorem kept [Text.CharNames] (hbegins : ∀ sources m, begins sources m → m.Coherent ∧ m.wrappers.get? p = some s)
    (h : Course Move begins False sources m) : m.wrappers.get? p = some s := by
  induction h with
  | start h => exact (hbegins _ _ h).2
  | load _ _ ih | intern _ _ ih | warn _ _ ih | link _ _ ih => exact ih
  | close hc _ _ => exact hc.elim
  | move h hm' ih =>
      exact (coherent (fun sources m h => (hbegins sources m h).1) h).get?_move hm' ih

end Course

/-! ## Wrapping -/

theorem wrap_of_get? {ev : Evaluator} {span : Span} (h : m.wrappers.get? p = some s) :
    wrap ev p span m = .done (some s) m := by
  unfold wrap
  rw [bind_apply]
  dsimp only [Eval.read]
  rw [h]
  rfl

/-- A primitive that no wrapper is kept for gets an instance of its class, which is kept. -/
theorem wrap_of_wrapperClass? {ev : Evaluator} {span : Span} {id : ClassId} {c : ClassObject}
    (hnew : m.wrappers.get? p = none) (hid : wrapperClass? m p = some id)
    (hc : m.classes[id.index]? = some c)
    (hmade : instantiate ev id c [] (some p) span m = .done s m') :
    wrap ev p span m = .done (some s) (m'.keepWrapper p s) := by
  unfold wrap
  rw [bind_apply]
  dsimp only [Eval.read]
  rw [hnew]
  dsimp only
  rw [bind_apply]
  dsimp only [Eval.read]
  rw [hid, Option.bind_some, hc, Option.map_some]
  dsimp only
  rw [bind_done hmade]
  rfl

/-- A primitive is wrapped if the core link is imported, and the wrapper is kept. No list is made or
changed. -/
theorem Interpreter.Coherent.wrap (h : m.Coherent) {bound : Nat} (span : Span) (hbound : 1 < bound)
    (hwrap : (m.wrappers.get? p).isSome ∨ m.linker.isImported Core.name = true) :
    ∃ s m', Eval.wrap (evaluator bound) p span m = .done (some s) m' ∧
      m'.wrappers.get? p = some s ∧ m'.store = m.store := by
  cases hget : m.wrappers.get? p with
  | some s => exact ⟨s, m, wrap_of_get? hget, hget, rfl⟩
  | none =>
      have himported : m.linker.isImported Core.name = true := by
        rcases hwrap with hkept | himported
        · rw [hget] at hkept
          cases hkept
        · exact himported
      obtain ⟨members, hmem⟩ := p.className_mem
      obtain ⟨n, id, c, hclass⟩ := h.ready.classes _ hmem
      have hdoes : Does (1 < bound ∧ m.linker.isImported Core.name = true ∧ m = m)
          (fun _ m' => m.Steady m') (instantiate (evaluator bound) id c [] (some p) span m) :=
        h.ready.does_instantiate hmem p.className_ne.1 hclass (.refl m) rfl rfl
      obtain ⟨s, m₁, hmade, hsteady⟩ := hdoes.exists_done ⟨hbound, himported, rfl⟩
      refine ⟨s, m₁.keepWrapper p s, ?_, ?_, hsteady.store⟩
      · exact wrap_of_wrapperClass? hget hclass.wrapperClass? hclass.object hmade
      · show (m₁.wrappers.insert p s).get? p = some s
        rw [hsteady.wrappers, h.whole.get?_insert, if_pos rfl]

end IslandScript
