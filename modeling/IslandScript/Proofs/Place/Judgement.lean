import IslandScript.Proofs.Logic.Elementary
import IslandScript.Proofs.Syntax.Places

/-!
# Where evaluation fails

An interpreter keeps the code of functions and classes, and runs it when they are called, long after
the program that declared them. `Eval.Gives` speaks of evaluations that start where all code kept
stands at the places of a set: no matter how they end, the code kept still does, and an error that
leaves them, one of links apart, is at a place where errors may be. There is a rule for each way to
put evaluations together.
-/

namespace IslandScript

/-- The places where code may stand and those where errors may be, the former among the latter. -/
structure Places where
  code : Span → Prop
  fault : Span → Prop
  fault_of_code : ∀ s, code s → fault s

/-- An expression that stands where code may is where errors may be. -/
theorem Expr.fault_of_covers {P : Places} {e : Expr Name} (h : Covers P.code e.spans) :
    P.fault e.span :=
  P.fault_of_code _ (Expr.span_of_covers h)

/-- A statement that stands where code may is where errors may be. -/
theorem Stmt.fault_of_covers {P : Places} {s : Stmt Name} (h : Covers P.code s.spans) :
    P.fault s.span :=
  P.fault_of_code _ (Stmt.span_of_covers h)

/-- The functions and classes that are kept stand at places of a kind. -/
structure Interpreter.CodeIn (m : Interpreter) (C : Span → Prop) : Prop where
  functions : ∀ f ∈ m.functions, Covers C (Function.spans f.decl)
  classes : ∀ c ∈ m.classes, Covers C (Class.spans c.decl)

/-- An error is at a place of a kind, unless it is one of links. -/
def EvalError.FaultIn (e : EvalError) (F : Span → Prop) : Prop :=
  e.kind.isLink = false → F e.span

/-- If a signal is an error, it is at a place of a kind. -/
def Signal.FaultIn (F : Span → Prop) : Signal → Prop
  | failed e => e.FaultIn F
  | _ => True

namespace Eval

variable {α β σ : Type} {P : Places} {x : Eval α} {f : α → Eval β} {Q : α → Prop} {R : β → Prop}
variable {span : Span}

/-- From code at the places of `P`, an evaluation keeps the code there, gives what fulfils `Q`, and
fails at the places of `P`. -/
def Gives (P : Places) (x : Eval α) (Q : α → Prop) : Prop :=
  ∀ m, m.CodeIn P.code →
    (x m).Sat (fun a m' => m'.CodeIn P.code ∧ Q a) fun s m' => m'.CodeIn P.code ∧ s.FaultIn P.fault

/-- An evaluation of whose result nothing needs to be said. -/
abbrev Placed (P : Places) (x : Eval α) : Prop := Gives P x fun _ => True

/-! ## Composition -/

theorem Gives.bind (hx : Gives P x Q) (hf : ∀ a, Q a → Gives P (f a) R) : Gives P (x >>= f) R := by
  intro m hm
  rw [bind_apply]
  have hsat := hx m hm
  cases h : x m with
  | done a m' =>
      rw [h] at hsat
      exact hf a hsat.2 m' hsat.1
  | raised s m' =>
      rw [h] at hsat
      exact hsat
  | unfinished => trivial

theorem Placed.bind (hx : Placed P x) (hf : ∀ a, Gives P (f a) R) : Gives P (x >>= f) R :=
  Gives.bind hx fun a _ => hf a

theorem Gives.imp {Q' : α → Prop} (hx : Gives P x Q) (h : ∀ a, Q a → Q' a) : Gives P x Q' :=
  fun m hm => (hx m hm).mono (fun a _ ha => ⟨ha.1, h a ha.2⟩) fun _ _ hs => hs

theorem gives_pure {a : α} (h : Q a) : Gives P (pure a) Q := fun _ hm => ⟨hm, h⟩

theorem placed_pure (a : α) : Placed P (pure a) := gives_pure trivial

theorem gives_raise {s : Signal} (h : s.FaultIn P.fault) : Gives P (raise s) Q :=
  fun _ hm => ⟨hm, h⟩

theorem gives_fail {kind : EvalErrorKind} (h : P.fault span) : Gives P (fail kind span) Q :=
  gives_raise fun _ => h

theorem gives_failLink {kind : LinkErrorKind} : Gives P (fail (.link kind) span) Q :=
  gives_raise nofun

theorem gives_failShowing {v : Value} {kind : String → EvalErrorKind} (h : P.fault span) :
    Gives P (failShowing v kind span) Q :=
  fun _ hm => ⟨hm, fun _ => h⟩

theorem gives_unfinished : Gives P (unfinished : Eval α) Q := fun _ _ => trivial

theorem gives_read {g : Interpreter → α} (h : ∀ m, m.CodeIn P.code → Q (g m)) :
    Gives P (read g) Q :=
  fun m hm => ⟨hm, h m hm⟩

theorem placed_read (g : Interpreter → α) : Placed P (read g) := gives_read fun _ _ => trivial

theorem placed_change {g : Interpreter → Interpreter}
    (h : ∀ m, m.CodeIn P.code → (g m).CodeIn P.code) : Placed P (change g) :=
  fun m hm => ⟨h m hm, trivial⟩

theorem placed_take {g : Interpreter → α × Interpreter}
    (h : ∀ m, m.CodeIn P.code → (g m).2.CodeIn P.code) : Placed P (take g) :=
  fun m hm => ⟨h m hm, trivial⟩

/-- The signal that was caught, if any, is at a place where errors may be. -/
def Caught (P : Places) (r : Except Signal α) : Prop := ∀ s, r = .error s → s.FaultIn P.fault

theorem gives_attempt (hx : Placed P x) : Gives P x.attempt (Caught P) := by
  intro m hm
  have hsat := hx m hm
  unfold attempt
  cases h : x m with
  | done a m' =>
      rw [h] at hsat
      exact ⟨hsat.1, nofun⟩
  | raised s m' =>
      rw [h] at hsat
      refine ⟨hsat.1, ?_⟩
      rintro _ ⟨⟩
      exact hsat.2
  | unfinished => trivial

theorem placed_resume {r : Except Signal α} (h : Caught P r) : Placed P (resume r) := by
  cases r with
  | ok a => exact placed_pure a
  | error s => exact gives_raise (h s rfl)

/-- Scopes have nothing to do with code. -/
theorem placed_within (enter : Environment → Environment) (hx : Placed P x) :
    Placed P (within enter x) := by
  intro m hm
  have hsat := hx (m.onEnv enter) ⟨hm.functions, hm.classes⟩
  unfold within
  cases h : x (m.onEnv enter) with
  | done a m' =>
      rw [h] at hsat
      exact ⟨⟨hsat.1.functions, hsat.1.classes⟩, trivial⟩
  | raised s m' =>
      rw [h] at hsat
      exact ⟨⟨hsat.1.functions, hsat.1.classes⟩, hsat.2⟩
  | unfinished => trivial

theorem placed_iterate {step : σ → Eval (Option σ)} (h : ∀ s, Placed P (step s)) (bound : Nat)
    (s : σ) : Placed P (iterate step bound s) := by
  induction bound generalizing s with
  | zero => exact gives_unfinished
  | succ bound ih =>
      intro m hm
      have hsat := h s m hm
      unfold iterate
      cases hstep : step s m with
      | done next m' =>
          rw [hstep] at hsat
          cases next with
          | none => exact hsat
          | some s' => exact ih s' m' hsat.1
      | raised signal m' =>
          rw [hstep] at hsat
          exact hsat
      | unfinished => trivial

theorem placed_onEnv (g : Environment → Environment) : Placed P (change (·.onEnv g)) :=
  placed_change fun _ hm => ⟨hm.functions, hm.classes⟩

/-! ## Elementary evaluations -/

theorem placed_bindName (n : Name) (r : Reference) (h : P.fault span) :
    Placed P (Eval.bind n r span) := by
  intro m hm
  by_cases hname : m.text n = discarded
  · rw [bind_discarded hname]
    exact ⟨hm, trivial⟩
  · cases hown : m.env.own? n with
    | some _ =>
        rw [bind_bound hname (by simp [hown])]
        exact ⟨hm, fun _ => h⟩
    | none =>
        rw [bind_free hname hown]
        exact ⟨⟨hm.functions, hm.classes⟩, trivial⟩

theorem placed_spread (v : Value) (h : P.fault span) : Placed P (spread v span) := by
  intro m hm
  unfold spread
  split
  · exact ⟨hm, trivial⟩
  · exact gives_failShowing h m hm

theorem placed_bindEach (kind : BindingKind) (mutable : Bool) (ns : List Name) (vs : List Value)
    (h : P.fault span) : Placed P (bindEach kind mutable span ns vs) := by
  induction ns generalizing vs with
  | nil => exact placed_pure ()
  | cons n ns ih =>
      cases vs with
      | nil => exact placed_pure ()
      | cons v vs => exact Placed.bind (placed_bindName n _ h) fun _ => ih vs

theorem placed_bindPattern (p : Pattern Name) (v : Value) (kind : BindingKind) (mutable : Bool)
    (h : P.fault span) : Placed P (bindPattern p v kind mutable span) := by
  cases p with
  | name n => exact placed_bindName n _ h
  | items ns =>
      refine Placed.bind (placed_spread v h) fun items => ?_
      split
      · exact gives_fail h
      · exact placed_bindEach _ _ ns items h

theorem placed_bindParams (ps : List (Param Name (Expr Name))) (vs : List Value)
    (h : P.fault span) : Placed P (bindParams span ps vs) := by
  induction ps generalizing vs with
  | nil => exact placed_pure ()
  | cons p ps ih =>
      cases vs with
      | nil => exact placed_pure ()
      | cons v vs => exact Placed.bind (placed_bindName p.name _ h) fun _ => ih vs

/-- A native fails at the place of its call. -/
theorem placed_native (x : Native α) (h : P.fault span) : Placed P (native x span) := by
  intro m hm
  rw [native_apply]
  split
  · exact ⟨⟨hm.functions, hm.classes⟩, trivial⟩
  · exact ⟨⟨hm.functions, hm.classes⟩, fun _ => h⟩

theorem placed_callNative (f : NativeFunction) (path : String) (call : Call) (h : P.fault span) :
    Placed P (callNative f path call span) := by
  unfold callNative
  split
  · exact gives_failLink
  · exact placed_native _ h

theorem placed_newList (items : List Value) : Placed P (take (·.newList items)) :=
  placed_take fun _ hm => ⟨hm.functions, hm.classes⟩

/-- A function that is made is kept with its code. -/
theorem placed_makeFunction {decl : Function Name} (nativeId : Option NativeFunctionId)
    (h : Covers P.code (Function.spans decl)) : Placed P (makeFunction decl nativeId) := by
  refine placed_take fun m hm => ⟨fun f hf => ?_, hm.classes⟩
  rcases Array.mem_push.mp hf with hf | rfl
  · exact hm.functions f hf
  · exact h

/-- A class that is made is kept with its code. -/
theorem placed_makeClass {decl : Class Name} (h : Covers P.code (Class.spans decl)) :
    Placed P (makeClass decl) := by
  intro m hm
  have hmade (nativeId : Option NativeClassId) :
      (m.addClass ⟨m.text decl.name, decl, m.env.current, nativeId⟩).2.CodeIn P.code := by
    refine ⟨hm.functions, fun c hc => ?_⟩
    rcases Array.mem_push.mp hc with hc | rfl
    · exact hm.classes c hc
    · exact h
  unfold makeClass
  split
  · split
    next id _ => exact ⟨hmade (some id), trivial⟩
    · exact ⟨hm, nofun⟩
  · exact ⟨hmade none, trivial⟩

theorem placed_createInstance (c : ClassId) (base : Option ScopeId) (payload : Option Payload) :
    Placed P (createInstance c base payload) :=
  placed_take fun _ hm => ⟨hm.functions, hm.classes⟩

theorem placed_define (s : ScopeId) (n : Name) (v : Value) : Placed P (define s n v) :=
  placed_onEnv _

theorem placed_defineBase (s : ScopeId) (base : Option ScopeId) : Placed P (defineBase s base) := by
  cases base with
  | none => exact placed_pure ()
  | some b => exact placed_define _ _ _

theorem placed_memberParams (paramScope s : ScopeId) (ps : List (Param Name (Expr Name))) :
    Placed P (memberParams paramScope s ps) := by
  induction ps with
  | nil => exact placed_pure ()
  | cons p ps ih =>
      refine Placed.bind ?_ fun _ => ih
      unfold memberParam
      split
      · exact placed_pure ()
      · refine Placed.bind (placed_read _) fun r => ?_
        split
        · exact placed_onEnv _
        · exact placed_pure ()

theorem placed_nativePart (c : ClassObject) (s : ScopeId) (h : P.fault span) :
    Placed P (nativePart c s span) := by
  unfold nativePart
  split
  · exact placed_pure ()
  · refine Placed.bind (placed_read _) fun nc => ?_
    split
    · exact gives_failLink
    · exact Placed.bind (placed_native _ h) fun _ => placed_onEnv _

end Eval
end IslandScript
