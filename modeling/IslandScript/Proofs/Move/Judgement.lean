import IslandScript.Proofs.Logic.Elementary
import IslandScript.Proofs.Move.Deed

/-!
# Evaluations that go by moves

`Eval.Walks` says of an evaluation that it goes by deeds, and so by moves, however it ends, from any
state whose code binds names of a kind; `Eval.WalksTo` says it of an outcome at a state, with what
is known of the result and the state it is left in. There is a rule for each way to put evaluations
together.
-/

namespace IslandScript.Eval

variable {α β σ : Type} {P : Binder Name → Prop} {m m' : Interpreter} {x : Eval α} {f : α → Eval β}
variable {Q : α → Interpreter → Prop} {R : β → Interpreter → Prop} {span : Span}

/-- An outcome was come to by deeds, and what it gives fulfils a condition there. -/
def WalksTo (P : Binder Name → Prop) (m : Interpreter) (o : Outcome α)
    (Q : α → Interpreter → Prop) : Prop :=
  o.Sat (fun a m' => Deeds P m m' ∧ Q a m') fun _ m' => Deeds P m m'

/-- From a state an evaluation goes by deeds, and what it gives fulfils a condition. -/
abbrev WalksAt (P : Binder Name → Prop) (x : Eval α) (m : Interpreter)
    (Q : α → Interpreter → Prop) : Prop :=
  WalksTo P m (x m) Q

/-- Where the code binds names of a kind, an evaluation goes by deeds. -/
def Walks (P : Binder Name → Prop) (x : Eval α) : Prop :=
  ∀ m, m.Bears P → WalksAt P x m fun _ _ => True

/-! ## Composition -/

theorem WalksTo.imp {o : Outcome α} {Q' : α → Interpreter → Prop} (h : WalksTo P m o Q)
    (hQ : ∀ a m', Moves P m m' → Q a m' → Q' a m') : WalksTo P m o Q' :=
  Outcome.Sat.mono h (fun a m' h => ⟨h.1, hQ a m' h.1.moves h.2⟩) fun _ _ h => h

theorem WalksTo.walks {o : Outcome α} (h : WalksTo P m o Q) : WalksTo P m o fun _ _ => True :=
  h.imp fun _ _ _ _ => trivial

/-- An outcome that was come to from a state that was come to by deeds. -/
theorem WalksTo.behind {o : Outcome α} (h : WalksTo P m' o Q) (hm : Deeds P m m') :
    WalksTo P m o Q :=
  Outcome.Sat.mono h (fun _ _ h => ⟨hm.trans h.1, h.2⟩) fun _ _ h => hm.trans h

theorem WalksAt.bind (hm : m.Bears P) (hx : WalksAt P x m Q)
    (hf : ∀ a m', Moves P m m' → m'.Bears P → Q a m' → WalksAt P (f a) m' R) :
    WalksAt P (x >>= f) m R := by
  unfold WalksAt at hx ⊢
  rw [bind_apply]
  cases h : x m with
  | done a m' =>
      rw [h] at hx
      exact (hf a m' hx.1.moves (hx.1.moves.bears hm) hx.2).behind hx.1
  | raised s m' =>
      rw [h] at hx
      exact hx
  | unfinished => trivial

theorem Walks.moves {a : α} (h : Walks P x) (hm : m.Bears P) (hx : x m = .done a m') :
    Moves P m m' := by
  have hwalk : WalksTo P m (x m) fun _ _ => True := h m hm
  rw [hx] at hwalk
  exact hwalk.1.moves

/-- Whatever the code binds, it goes by moves. -/
theorem Walks.moves_true {a : α} (h : Walks (fun _ => True) x) (hx : x m = .done a m') :
    Moves (fun _ => True) m m' :=
  h.moves m.bears_true hx

theorem Walks.bind (hx : Walks P x) (hf : ∀ a, Walks P (f a)) : Walks P (x >>= f) :=
  fun m hm => WalksAt.bind hm (hx m hm) fun a m' _ hm' _ => hf a m' hm'

/-- What is read of a state can be told from it. -/
theorem WalksAt.read_bind {g : Interpreter → α} (h : WalksAt P (f (g m)) m R) :
    WalksAt P (read g >>= f) m R :=
  h

theorem walks_pure (a : α) : Walks P (pure a) := fun _ _ => ⟨.refl, trivial⟩

theorem walks_raise (s : Signal) : Walks P (raise s : Eval α) := fun _ _ => .refl

theorem walks_fail (kind : EvalErrorKind) (span : Span) : Walks P (fail kind span : Eval α) :=
  walks_raise _

theorem walks_failShowing (v : Value) (kind : String → EvalErrorKind) (span : Span) :
    Walks P (failShowing v kind span : Eval α) :=
  fun _ _ => .refl

theorem walks_unfinished : Walks P (unfinished : Eval α) := fun _ _ => trivial

theorem walks_read (g : Interpreter → α) : Walks P (read g) := fun _ _ => ⟨.refl, trivial⟩

/-- A change that is a deed. -/
theorem walks_change {g : Interpreter → Interpreter} (h : ∀ m, Deed P m (g m)) :
    Walks P (change g) :=
  fun m _ => ⟨.single (h m), trivial⟩

theorem walks_take {g : Interpreter → α × Interpreter} (h : ∀ m, Deed P m (g m).2) :
    Walks P (take g) :=
  fun m _ => ⟨.single (h m), trivial⟩

theorem walks_attempt (hx : Walks P x) : Walks P x.attempt := by
  intro m hm
  have hwalk : WalksTo P m (x m) fun _ _ => True := hx m hm
  show WalksTo P m (x.attempt m) _
  unfold attempt
  cases h : x m with
  | done a m' =>
      rw [h] at hwalk
      exact hwalk
  | raised s m' =>
      rw [h] at hwalk
      exact ⟨hwalk, trivial⟩
  | unfinished => trivial

theorem walks_resume (r : Except Signal α) : Walks P (resume r) := by
  cases r with
  | ok a => exact walks_pure a
  | error s => exact walks_raise s

/-- A scope that was entered by a deed is left by one. -/
theorem WalksAt.within {enter : Environment → Environment} (henter : Deed P m (m.onEnv enter))
    (hx : WalksAt P x (m.onEnv enter) Q) :
    WalksAt P (within enter x) m fun a m' => ∃ inner, Q a inner ∧ m' = inner.onEnv .pop := by
  unfold WalksAt at hx ⊢
  unfold Eval.within
  cases h : x (m.onEnv enter) with
  | done a m' =>
      rw [h] at hx
      exact ⟨.head henter (hx.1.tail .leave), m', hx.2, rfl⟩
  | raised s m' =>
      rw [h] at hx
      exact .head henter (Relation.ReflTransGen.tail hx .leave)
  | unfinished => trivial

theorem walks_within {enter : Environment → Environment}
    (henter : ∀ m, Deed P m (m.onEnv enter)) (hx : Walks P x) : Walks P (within enter x) :=
  fun m hm => (WalksAt.within (henter m) (hx _ ((henter m).move.bears hm))).walks

theorem walks_inChild (hx : Walks P x) : Walks P (inChild x) :=
  walks_within (fun m => .enterNew m.env.current) hx

theorem walks_iterate {step : σ → Eval (Option σ)} (h : ∀ s, Walks P (step s)) (bound : Nat)
    (s : σ) : Walks P (iterate step bound s) := by
  induction bound generalizing s with
  | zero => exact walks_unfinished
  | succ bound ih =>
      intro m hm
      have hwalk : WalksTo P m (step s m) fun _ _ => True := h s m hm
      show WalksTo P m (iterate step (bound + 1) s m) _
      unfold iterate
      cases hstep : step s m with
      | done next m' =>
          rw [hstep] at hwalk
          cases next with
          | none => exact hwalk
          | some s' => exact (ih s' m' (hwalk.1.moves.bears hm)).behind hwalk.1
      | raised signal m' =>
          rw [hstep] at hwalk
          exact hwalk
      | unfinished => trivial

/-! ## Elementary evaluations -/

/-- A name is bound in the current scope, the parameter of a lambda if that is no instance. -/
theorem walksAt_bindName {b : Binder Name} (hb : P b) (r : Reference)
    (hscope : b.kind = .lambdaParameter → (m.env.scopes.get m.env.current).frame = none) :
    WalksAt P (Eval.bind b.name r span) m fun _ _ => True := by
  show WalksTo P m (Eval.bind b.name r span m) _
  by_cases hname : m.text b.name = discarded
  · rw [bind_discarded hname]
    exact ⟨.refl, trivial⟩
  · cases hown : m.env.own? b.name with
    | some _ =>
        rw [bind_bound hname (by simp [hown])]
        exact .refl
    | none =>
        rw [bind_free hname hown]
        exact ⟨.single (.bind hb hname hown hscope), trivial⟩

theorem walks_bindName {b : Binder Name} (hb : P b) (hkind : b.kind ≠ .lambdaParameter)
    (r : Reference) : Walks P (Eval.bind b.name r span) :=
  fun _ _ => walksAt_bindName hb r fun h => absurd h hkind

theorem walks_spread (v : Value) : Walks P (spread v span) := by
  intro m hm
  show WalksTo P m (spread v span m) _
  unfold spread
  split
  · exact ⟨.refl, trivial⟩
  · exact .refl

theorem walks_bindEach (kind : BindingKind) (mutable : Bool) (ns : List Name) (vs : List Value)
    {origin : BinderKind} (h : ∀ n ∈ ns, P ⟨origin, n⟩) (horigin : origin ≠ .lambdaParameter) :
    Walks P (bindEach kind mutable span ns vs) := by
  induction ns generalizing vs with
  | nil => exact walks_pure ()
  | cons n ns ih =>
      obtain ⟨hn, hns⟩ := List.forall_mem_cons.mp h
      cases vs with
      | nil => exact walks_pure ()
      | cons v vs => exact Walks.bind (walks_bindName hn horigin _) fun _ => ih vs hns

theorem walks_bindPattern {p : Pattern Name} {origin : BinderKind} (v : Value) (kind : BindingKind)
    (mutable : Bool) (h : Bears P (p.binders origin)) (horigin : origin ≠ .lambdaParameter) :
    Walks P (bindPattern p v kind mutable span) := by
  rw [bears_pattern] at h
  cases p with
  | name n => exact walks_bindName (h n (List.mem_singleton_self n)) horigin _
  | items ns =>
      refine Walks.bind (walks_spread v) fun items => ?_
      split
      · exact walks_fail _ _
      · exact walks_bindEach _ _ ns items h horigin

theorem walks_native (x : Native α) : Walks P (native x span) := by
  intro m hm
  show WalksTo P m (native x span m) _
  rw [native_apply]
  split
  · exact ⟨.single (.store _), trivial⟩
  · exact .single (.store _)

theorem walks_callNative (f : NativeFunction) (path : String) (call : Call) :
    Walks P (callNative f path call span) := by
  unfold callNative
  split
  · exact walks_fail _ _
  · exact walks_native _

theorem walks_newList (items : List Value) : Walks P (take (·.newList items)) :=
  walks_take fun _ => .store _

theorem walks_makeFunction {decl : Function Name} (nativeId : Option NativeFunctionId)
    (h : Function.Bears P decl) : Walks P (makeFunction decl nativeId) :=
  walks_take fun _ => .function h

/-- A class that is made is found where it was put. -/
theorem walksAt_makeClass {kind : BinderKind} {decl : Class Name}
    (h : Bears P (Class.binders kind decl)) (m : Interpreter) :
    WalksAt P (makeClass decl) m fun id m' => ∃ c, m'.classes[id.index]? = some c := by
  have hmade (nativeId : Option NativeClassId) :
      Deeds P m (m.addClass ⟨m.text decl.name, decl, m.env.current, nativeId⟩).2 ∧
        ∃ c, (m.addClass ⟨m.text decl.name, decl, m.env.current, nativeId⟩).2.classes[
          m.classes.size]? = some c :=
    ⟨.single (.cls (.of_binders h) (Class.bears_paramNames h)), _, Array.getElem?_push_size⟩
  show WalksTo P m (makeClass decl m) _
  unfold makeClass
  split
  · split
    next id _ => exact hmade (some id)
    · exact .refl
  · exact hmade none

/-- An instance that is created is one of its class, and stands for what it was told to. -/
theorem walksAt_createInstance (c : ClassId) (base : Option ScopeId) (payload : Option Payload)
    (m : Interpreter) :
    WalksAt P (createInstance c base payload) m fun s m' =>
      (m'.env.scopes.get s).frame = some ⟨c, base, payload⟩ :=
  ⟨.single .inst, congrArg Scope.frame Scopes.get_push_size⟩

theorem walks_defineThis (s : ScopeId) : Walks P (define s Name.this (.inst s)) :=
  walks_change fun _ => .this s

/-- The member `base` is the instance that another was created with. -/
theorem walksAt_defineBase {s : ScopeId} {base : Option ScopeId} (h : m.HasBase s base) :
    WalksAt P (defineBase s base) m fun _ _ => True := by
  cases base with
  | none => exact ⟨.refl, trivial⟩
  | some b => exact ⟨.single (.base h), trivial⟩

theorem walks_defineLabel {n : Name} (hn : n ∈ [Name.name, Name.ordinal]) (s : ScopeId)
    (v : Value) : Walks P (define s n v) :=
  walks_change fun _ => .label hn

end IslandScript.Eval
