import IslandScript.Proofs.Logic.Basic

/-!
# Rules of every logic

What follows from the four rules of a logic: how values, signals, reads and changes are judged, and
repetition.
-/

namespace IslandScript

open Eval

variable {α β σ : Type}

/-! ## Evaluations as a monad -/

theorem Eval.map_id (x : Eval α) : id <$> x = x := by
  funext m
  show (x >>= fun a => Pure.pure a) m = x m
  rw [bind_apply]
  cases x m <;> rfl

theorem Eval.bind_then (x : Eval α) (f : α → Eval β) (g : β → Eval σ) :
    x >>= f >>= g = x >>= fun a => f a >>= g := by
  funext m
  rw [bind_apply, bind_apply, bind_apply]
  cases x m <;> rfl

instance : LawfulMonad Eval :=
  LawfulMonad.mk' Eval Eval.map_id (fun _ _ => rfl) Eval.bind_then

/-- A repetition is its first step and what the next state leads to. -/
theorem Eval.iterate_succ (step : σ → Eval (Option σ)) (n : Nat) (s : σ) :
    iterate step (n + 1) s = step s >>= fun
      | none => pure ()
      | some s => iterate step n s := by
  funext m
  rw [iterate, bind_apply]
  cases step s m with
  | done r m' => cases r <;> rfl
  | raised => rfl
  | unfinished => rfl

namespace Logic

variable {L : Logic} {m : Interpreter}

/-! ## Values and signals -/

theorem pure {a : α} {Q : α → Interpreter → Prop} (hm : L.Good m) (ha : Q a m) :
    L.Holds (Pure.pure a) m Q :=
  L.prim (fun _ _ => rfl) ⟨hm, L.later_refl m, ha⟩

theorem mono {x : Eval α} {P Q : α → Interpreter → Prop} (h : L.Holds x m P)
    (hPQ : ∀ a m', P a m' → Q a m') : L.Holds x m Q := by
  -- There is no rule of consequence: binding what is given once more does for one.
  rw [← bind_pure x]
  exact L.bind h fun a m' hm' _ ha => pure hm' (hPQ a m' ha)

theorem raise {s : Signal} {Q : α → Interpreter → Prop} (hm : L.Good m)
    (hs : s.Within (L.Has · m)) : L.Holds (Eval.raise s) m Q :=
  L.prim (fun _ _ => rfl) ⟨hm, L.later_refl m, hs⟩

theorem fail {kind : EvalErrorKind} {span : Span} {Q : α → Interpreter → Prop} (hm : L.Good m) :
    L.Holds (Eval.fail kind span) m Q :=
  raise hm trivial

theorem failShowing {v : Value} {kind : String → EvalErrorKind} {span : Span}
    {Q : α → Interpreter → Prop} (hm : L.Good m) : L.Holds (Eval.failShowing v kind span) m Q :=
  L.prim (fun _ _ => rfl) ⟨hm, L.later_refl m, trivial⟩

theorem unfinished {Q : α → Interpreter → Prop} : L.Holds Eval.unfinished m Q :=
  L.prim (fun _ _ => rfl) trivial

theorem resume {r : Except Signal α} {Q : α → Interpreter → Prop} (hm : L.Good m)
    (ha : ∀ a, r = .ok a → Q a m) (hs : ∀ s, r = .error s → s.Within (L.Has · m)) :
    L.Holds (Eval.resume r) m Q := by
  cases r with
  | ok a => exact pure hm (ha a rfl)
  | error s => exact raise hm (hs s rfl)

/-! ## Reads and changes -/

/-- A read that looks at no active scope but the current one gives what stands in the state. -/
theorem read {f : Interpreter → α} {Q : α → Interpreter → Prop}
    (hf : ∀ m outer, f (m.onTopOf outer) = f m) (hm : L.Good m) (hQ : Q (f m) m) :
    L.Holds (Eval.read f) m Q := by
  refine L.prim (fun m outer => ?_) ⟨hm, L.later_refl m, hQ⟩
  simp only [Eval.read, hf]
  rfl

theorem read_bind {f : Interpreter → α} {g : α → Eval β} {Q : β → Interpreter → Prop}
    (hf : ∀ m outer, f (m.onTopOf outer) = f m) (hm : L.Good m) (h : L.Holds (g (f m)) m Q) :
    L.Holds (Eval.read f >>= g) m Q := by
  refine L.bind (P := fun a m' => a = f m ∧ m' = m) (read hf hm ⟨rfl, rfl⟩) ?_
  rintro a m' _ _ ⟨rfl, rfl⟩
  exact h

/-- An elementary change that gives something. -/
theorem take {f : Interpreter → α × Interpreter} {Q : α → Interpreter → Prop}
    (hf : ∀ m outer, f (m.onTopOf outer) = ((f m).1, (f m).2.onTopOf outer)) (hm : L.Good m)
    (hc : Change (L.Has · m) m (f m).2) (hQ : Q (f m).1 (f m).2) : L.Holds (Eval.take f) m Q := by
  refine L.prim (fun m outer => ?_) ?_
  · simp only [Eval.take, hf]
    rfl
  · obtain ⟨hgood, hlater⟩ := L.change_keeps hm hc
    exact ⟨hgood, hlater, hQ⟩

theorem change {f : Interpreter → Interpreter} {Q : Unit → Interpreter → Prop}
    (hf : ∀ m outer, f (m.onTopOf outer) = (f m).onTopOf outer) (hm : L.Good m)
    (hc : Change (L.Has · m) m (f m)) (hQ : Q () (f m)) : L.Holds (Eval.change f) m Q := by
  refine L.prim (fun m outer => ?_) ?_
  · simp only [Eval.change, hf]
    rfl
  · obtain ⟨hgood, hlater⟩ := L.change_keeps hm hc
    exact ⟨hgood, hlater, hQ⟩

/-! ## Repetition -/

/-- A step that keeps to the discipline from every good state may be repeated. -/
theorem iterate {step : σ → Eval (Option σ)}
    (h : ∀ s m, L.Good m → L.Holds (step s) m fun _ _ => True) (n : Nat) (s : σ) (m : Interpreter)
    (hm : L.Good m) : L.Holds (Eval.iterate step n s) m fun _ _ => True := by
  induction n generalizing s m with
  | zero => exact L.prim (fun _ _ => rfl) trivial
  | succ n ih =>
      rw [iterate_succ]
      refine L.bind (h s m hm) ?_
      intro r m' hm' _ _
      cases r with
      | none => exact pure hm' trivial
      | some s' => exact ih s' m' hm'

end Logic
end IslandScript
