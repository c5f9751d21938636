import IslandScript.Proofs.Landing.Syntax
import IslandScript.Proofs.Logic.Framed
import IslandScript.Proofs.Scope.Evolution

/-!
# Evaluations and the scopes that were there

`Eval.Lands` says of an evaluation that of the scopes that were there when it began only the current
one may come to bind more names, and which names these may be: those that land there (`Landing`),
where a call counts for the names that the defaults of kept functions and classes declare. What
scopes that are made on the way come to bind is left open. There is a rule for each way to put
evaluations together.
-/

namespace IslandScript

open Eval

variable {m m' m₁ m₂ : Interpreter} {s t : ScopeId} {n : Name} {L L' : List (Landing Name)}

/-! ## States before and after -/

namespace Interpreter

/-- An elementary change, of whose scopes nothing is asked. -/
theorem Evolves.of_change (h : Change (fun _ => True) m m') : m.Evolves m' := .change h

/-- The default of a parameter of a function or class that is kept declares a name where it is
evaluated. -/
def Defers (m : Interpreter) (n : Name) : Prop :=
  (∃ f ∈ m.functions, .declared n ∈ Params.lands f.decl.params) ∨
    ∃ c ∈ m.classes, .declared n ∈ Params.lands c.decl.params

/-- A name is among those that land. -/
def Admits (m : Interpreter) (L : List (Landing Name)) (n : Name) : Prop :=
  .declared n ∈ L ∨ .call ∈ L ∧ m.Defers n

theorem Defers.evolves (h : m.Defers n) (hm : m.Evolves m') : m'.Defers n := by
  rcases h with ⟨f, hf, hn⟩ | ⟨c, hc, hn⟩
  · obtain ⟨i, hi⟩ := Array.mem_iff_getElem?.mp hf
    exact .inl ⟨f, Array.mem_iff_getElem?.mpr ⟨i, hm.functions i f hi⟩, hn⟩
  · obtain ⟨i, hi⟩ := Array.mem_iff_getElem?.mp hc
    exact .inr ⟨c, Array.mem_iff_getElem?.mpr ⟨i, hm.classes i c hi⟩, hn⟩

theorem Admits.evolves (h : m.Admits L n) (hm : m.Evolves m') : m'.Admits L n :=
  h.imp_right fun h => ⟨h.1, h.2.evolves hm⟩

theorem Admits.mono (h : m.Admits L n) (hL : L ⊆ L') : m.Admits L' n :=
  h.imp (fun h => hL h) fun h => ⟨hL h.1, h.2⟩

/-- What becomes of a state, of whose scopes only `s` comes to bind more names, which land there. -/
structure Lands (m : Interpreter) (s : ScopeId) (L : List (Landing Name)) (m' : Interpreter) :
    Prop where
  evolves : m.Evolves m'
  stack : m'.env.stack = m.env.stack
  bound : ∀ t n, t.index < m.env.scopes.size → (m'.env.scopes.own? t n).isSome →
    (m.env.scopes.own? t n).isSome ∨ t = s ∧ m'.Admits L n

namespace Lands

theorem refl (m : Interpreter) : m.Lands s L m := ⟨.refl m, rfl, fun _ _ _ h => .inl h⟩

/-- The scope that comes to bind more names then is the one before, or a new one. -/
theorem trans (h : m.Lands s L m₁) (h' : m₁.Lands t L' m₂)
    (ht : t.index < m.env.scopes.size → t = s ∧ L' ⊆ L) : m.Lands s L m₂ where
  evolves := h.evolves.trans h'.evolves
  stack := h'.stack.trans h.stack
  bound u n hu hown := by
    have hu₁ := Nat.lt_of_lt_of_le hu h.evolves.scopes.size_le
    rcases h'.bound u n hu₁ hown with hown | ⟨rfl, hadmits⟩
    · exact (h.bound u n hu hown).imp_right fun h => ⟨h.1, h.2.evolves h'.evolves⟩
    · obtain ⟨rfl, hL⟩ := ht hu
      exact .inr ⟨rfl, hadmits.mono hL⟩

theorem current (h : m.Lands s L m') : m'.env.current = m.env.current :=
  Environment.current_of_stack h.stack

/-- A change that leaves all scopes and the stack as they are. -/
theorem of_scopes_eq (hm : m.Evolves m') (hstack : m'.env.stack = m.env.stack)
    (hscopes : m'.env.scopes = m.env.scopes) : m.Lands s L m' :=
  ⟨hm, hstack, fun _ _ _ h => .inl (hscopes ▸ h)⟩

/-- Inside a scope that was entered, which is left again. -/
theorem within {enter : Environment → Environment} (he : IslandScript.Enters (fun _ => True) enter)
    (h : (m.onEnv enter).Lands t L' m') (ht : t.index < m.env.scopes.size → t = s ∧ L' ⊆ L) :
    m.Lands s L (m'.onEnv .pop) where
  evolves := ((Evolves.enter he m).trans h.evolves).trans (.leave m')
  stack := Environment.stack_pop (h.stack.trans (Environment.stack_enter he m.env))
  bound u n hu hown := by
    have hentered := (Evolves.enter he m).scopes
    have hpopped : (m'.onEnv .pop).env.scopes = m'.env.scopes := Environment.scopes_pop m'.env
    rw [hpopped] at hown
    rcases h.bound u n (Nat.lt_of_lt_of_le hu hentered.size_le) hown with hown | ⟨rfl, hadmits⟩
    · refine .inl ?_
      cases he with
      | child | childOf =>
          exact (congrArg Option.isSome (Scopes.own?_push_of_lt hu)).symm.trans hown
      | scope => exact hown
    · obtain ⟨rfl, hL⟩ := ht hu
      exact .inr ⟨rfl, (hadmits.mono hL).evolves (.leave m')⟩

end Lands
end Interpreter

/-! ## Outcomes and evaluations -/

namespace Eval

variable {α β σ : Type} {x : Eval α} {f : α → Eval β} {Q : α → Interpreter → Prop}
variable {R : β → Interpreter → Prop} {o : Outcome α} {span : Span}

/-- An outcome leaves a state in which `s` has come to bind more names, and what it gives fulfils a
condition there. -/
def LandsTo (m : Interpreter) (s : ScopeId) (L : List (Landing Name)) (o : Outcome α)
    (Q : α → Interpreter → Prop) : Prop :=
  o.Sat (fun a m' => m.Lands s L m' ∧ Q a m') fun _ m' => m.Lands s L m'

/-- From every state, an evaluation lets no scope that is there come to bind more names but the
current one, and that only names that land there. -/
def Lands (L : List (Landing Name)) (x : Eval α) : Prop :=
  ∀ m, LandsTo m m.env.current L (x m) fun _ _ => True

/-! ## Composition -/

theorem LandsTo.imp {Q' : α → Interpreter → Prop} (h : LandsTo m s L o Q)
    (hQ : ∀ a m', m.Lands s L m' → Q a m' → Q' a m') : LandsTo m s L o Q' :=
  Outcome.Sat.mono h (fun a m' h => ⟨h.1, hQ a m' h.1 h.2⟩) fun _ _ h => h

/-- An outcome from a state that was come to. -/
theorem LandsTo.behind (h : LandsTo m₁ t L' o Q) (hm : m.Lands s L m₁)
    (ht : t.index < m.env.scopes.size → t = s ∧ L' ⊆ L) : LandsTo m s L o Q :=
  Outcome.Sat.mono h (fun _ _ h => ⟨hm.trans h.1 ht, h.2⟩) fun _ _ h => hm.trans h ht

theorem LandsTo.bind (hx : LandsTo m s L (x m₁) Q)
    (hf : ∀ a m', m.Lands s L m' → Q a m' → LandsTo m s L (f a m') R) :
    LandsTo m s L ((x >>= f) m₁) R := by
  rw [bind_apply]
  cases h : x m₁ with
  | done a m' =>
      rw [h] at hx
      exact hf a m' hx.1 hx.2
  | raised signal m' =>
      rw [h] at hx
      exact hx
  | unfinished => trivial

/-- What is read of a state can be told from it. -/
theorem LandsTo.read_bind {g : Interpreter → α} (h : LandsTo m s L (f (g m₁) m₁) R) :
    LandsTo m s L ((read g >>= f) m₁) R :=
  h

/-- An evaluation that goes on where another began and came to. -/
theorem Lands.after (hx : Lands L' x) (hm : m.Lands m.env.current L m₁) (hL : L' ⊆ L) :
    LandsTo m m.env.current L (x m₁) fun _ _ => True :=
  (hx m₁).behind hm fun _ => ⟨hm.current, hL⟩

theorem Lands.mono (hx : Lands L' x) (hL : L' ⊆ L) : Lands L x :=
  fun m => hx.after (.refl m) hL

theorem Lands.left (hx : Lands L x) : Lands (L ++ L') x := hx.mono (List.subset_append_left _ _)

theorem Lands.right (hx : Lands L' x) : Lands (L ++ L') x := hx.mono (List.subset_append_right _ _)

theorem Lands.bind (hx : Lands L x) (hf : ∀ a, Lands L (f a)) : Lands L (x >>= f) :=
  fun m => (hx m).bind fun a _ hm' _ => (hf a).after hm' (List.Subset.refl L)

theorem lands_pure (a : α) : Lands L (pure a) := fun m => ⟨.refl m, trivial⟩

theorem lands_raise (signal : Signal) : Lands L (raise signal : Eval α) := fun m => .refl m

theorem lands_fail (kind : EvalErrorKind) : Lands L (fail kind span : Eval α) :=
  lands_raise _

theorem lands_failShowing (v : Value) (kind : String → EvalErrorKind) :
    Lands L (failShowing v kind span : Eval α) :=
  fun m => .refl m

theorem lands_unfinished : Lands L (unfinished : Eval α) := fun _ => trivial

theorem lands_read (g : Interpreter → α) : Lands L (read g) := fun m => ⟨.refl m, trivial⟩

theorem lands_take {g : Interpreter → α × Interpreter}
    (h : ∀ m : Interpreter, m.Lands m.env.current L (g m).2) : Lands L (take g) :=
  fun m => ⟨h m, trivial⟩

theorem lands_attempt (hx : Lands L x) : Lands L x.attempt := by
  intro m
  have hlands : LandsTo m _ L (x m) _ := hx m
  unfold attempt
  cases h : x m with
  | done a m' =>
      rw [h] at hlands
      exact hlands
  | raised signal m' =>
      rw [h] at hlands
      exact ⟨hlands, trivial⟩
  | unfinished => trivial

theorem lands_resume (r : Except Signal α) : Lands L (resume r) := by
  cases r with
  | ok a => exact lands_pure a
  | error signal => exact lands_raise signal

/-- What is evaluated in a scope that is entered. -/
theorem LandsTo.within {enter : Environment → Environment}
    (he : IslandScript.Enters (fun _ => True) enter)
    (hx : LandsTo (m.onEnv enter) t L' (x (m.onEnv enter)) Q)
    (ht : t.index < m.env.scopes.size → t = s ∧ L' ⊆ L) :
    LandsTo m s L (Eval.within enter x m) fun a m' =>
      ∃ inner, (m.onEnv enter).Lands t L' inner ∧ Q a inner ∧ m' = inner.onEnv .pop := by
  unfold Eval.within
  cases h : x (m.onEnv enter) with
  | done a m' =>
      rw [h] at hx
      exact ⟨hx.1.within he ht, m', hx.1, hx.2, rfl⟩
  | raised signal m' =>
      rw [h] at hx
      exact Interpreter.Lands.within he hx ht
  | unfinished => trivial

/-- In a new scope, whatever is declared lands there. -/
theorem lands_inChildOf (parent : ScopeId) (hx : Lands L' x) :
    Lands L (inChildOf parent x) := by
  intro m
  refine LandsTo.imp (LandsTo.within (.childOf trivial) (hx _) ?_)
    fun _ _ _ _ => trivial
  exact fun hlt => (Nat.lt_irrefl _ hlt).elim

theorem lands_inChild (hx : Lands L' x) : Lands L (inChild x) :=
  fun m => lands_inChildOf m.env.current hx m

theorem lands_iterate {step : σ → Eval (Option σ)} (h : ∀ a, Lands L (step a)) (bound : Nat)
    (a : σ) : Lands L (iterate step bound a) := by
  induction bound generalizing a with
  | zero => exact lands_unfinished
  | succ bound ih =>
      rw [iterate_succ]
      refine Lands.bind (h a) fun next => ?_
      cases next with
      | none => exact lands_pure ()
      | some a' => exact ih a'

/-! ## Elementary evaluations -/

/-- A name that is bound in the current scope lands there. -/
theorem lands_bindName (n : Name) (r : Reference) : Lands [.declared n] (Eval.bind n r span) := by
  intro m
  by_cases hname : m.text n = discarded
  · rw [bind_discarded hname]
    exact ⟨.refl m, trivial⟩
  · cases hown : m.env.own? n with
    | some _ =>
        rw [bind_bound hname (by simp [hown])]
        exact Interpreter.Lands.refl m
    | none =>
        rw [bind_free hname hown]
        refine ⟨⟨.of_change (.bind hname hown r.value.within_all), rfl, ?_⟩, trivial⟩
        intro t k _ hk
        obtain ⟨r', hr'⟩ := Option.isSome_iff_exists.mp hk
        rcases Environment.own?_bindIn_cases hr' with ⟨rfl, rfl, -⟩ | hown
        · exact .inr ⟨rfl, .inl List.mem_cons_self⟩
        · exact .inl (hown ▸ rfl)

theorem lands_spread (v : Value) : Lands L (spread v span) := by
  intro m
  unfold spread
  split
  · exact ⟨.refl m, trivial⟩
  · exact Interpreter.Lands.refl m

theorem lands_bindEach (kind : BindingKind) (mutable : Bool) (ns : List Name) (vs : List Value) :
    Lands (ns.map .declared) (bindEach kind mutable span ns vs) := by
  induction ns generalizing vs with
  | nil => exact lands_pure ()
  | cons n ns ih =>
      cases vs with
      | nil => exact lands_pure ()
      | cons v vs =>
          refine Lands.bind ((lands_bindName n _).mono ?_) fun _ => (ih vs).mono ?_
          · exact List.cons_subset_cons _ (List.nil_subset _)
          · exact List.subset_cons_self _ _

theorem lands_bindPattern (span : Span) (p : Pattern Name) (v : Value) (kind : BindingKind)
    (mutable : Bool) :
    Lands (p.names.map .declared) (bindPattern p v kind mutable span) := by
  cases p with
  | name n => exact lands_bindName n _
  | items ns =>
      refine Lands.bind (lands_spread v) fun items => ?_
      split
      · exact lands_fail _
      · exact lands_bindEach kind mutable ns items

theorem lands_bindParams (span : Span) (ps : List (Param Name (Expr Name))) (vs : List Value) :
    Lands (ps.map fun p => .declared p.name) (bindParams span ps vs) := by
  induction ps generalizing vs with
  | nil => exact lands_pure ()
  | cons p ps ih =>
      cases vs with
      | nil => exact lands_pure ()
      | cons v vs =>
          refine Lands.bind ((lands_bindName p.name _).mono ?_) fun _ => (ih vs).mono ?_
          · exact List.cons_subset_cons _ (List.nil_subset _)
          · exact List.subset_cons_self _ _

theorem lands_native (x : Native α) : Lands L (native x span) := by
  intro m
  have hstore (st : Store) : m.Lands m.env.current L { m with store := st } :=
    .of_scopes_eq ⟨.refl _, fun _ _ h => h, fun _ _ h => h⟩ rfl rfl
  rw [native_apply]
  split
  · exact ⟨hstore _, trivial⟩
  · exact hstore _

theorem lands_callNative (f : NativeFunction) (path : String) (call : Call) :
    Lands L (callNative f path call span) := by
  unfold callNative
  split
  · exact lands_fail _
  · exact lands_native _

theorem lands_newList (items : List Value) : Lands L (take (·.newList items)) :=
  lands_take fun _ => .of_scopes_eq ⟨.refl _, fun _ _ h => h, fun _ _ h => h⟩ rfl rfl

theorem lands_makeFunction (decl : Function Name) (nativeId : Option NativeFunctionId) :
    Lands L (makeFunction decl nativeId) :=
  lands_take fun _ => .of_scopes_eq (.of_change .function) rfl rfl

theorem lands_makeClass (decl : Class Name) : Lands L (makeClass decl) := by
  intro m
  have hmade (nativeId : Option NativeClassId) : m.Lands m.env.current L
      (m.addClass ⟨m.text decl.name, decl, m.env.current, nativeId⟩).2 :=
    .of_scopes_eq (.of_change .cls) rfl rfl
  unfold makeClass
  split
  · split
    · exact ⟨hmade _, trivial⟩
    · exact Interpreter.Lands.refl m
  · exact ⟨hmade _, trivial⟩

/-- The scope of an instance is a new one, which binds nothing yet. -/
theorem landsTo_createInstance (c : ClassId) (base : Option ScopeId) (payload : Option Payload)
    (m : Interpreter) :
    LandsTo m s L (createInstance c base payload m) fun made m' =>
      m.env.scopes.size ≤ made.index ∧ made.index < m'.env.scopes.size ∧
        ∀ n, m'.env.scopes.own? made n = none := by
  refine ⟨⟨⟨.push _ _, fun _ _ h => h, fun _ _ h => h⟩, rfl, ?_⟩, Nat.le_refl _,
    Nat.lt_of_lt_of_eq (Nat.lt_succ_self _) (Array.size_push _).symm,
    fun n => congrArg (·.own? n) Scopes.get_push_size⟩
  intro t n ht hown
  refine .inl ?_
  rw [← Scopes.own?_push_of_lt ht]
  exact hown

/-- A member lands in its instance. -/
theorem lands_onEnv_define (m : Interpreter) (s : ScopeId) (n : Name) (r : Reference) :
    m.Lands s [.declared n] (m.onEnv (·.define s n r)) where
  evolves := .of_change (.define trivial r.value.within_all)
  stack := by
    simp only [Interpreter.onEnv, Environment.define]
    split <;> rfl
  bound t k _ hk := by
    obtain ⟨r', hr'⟩ := Option.isSome_iff_exists.mp hk
    rcases Environment.own?_define_cases hr' with ⟨rfl, rfl, -⟩ | hown
    · exact .inr ⟨rfl, .inl List.mem_cons_self⟩
    · exact .inl (hown ▸ rfl)

/-- The native state of an instance binds nothing. -/
theorem lands_withPayload (m : Interpreter) (t : ScopeId) (p : Payload) :
    m.Lands s L (m.onEnv fun env =>
      { env with scopes := env.scopes.update t (·.withPayload p) }) where
  evolves := .onEnv (.update _ (·.withPayload _) (.withPayload _ _))
  stack := rfl
  bound u k _ hk := by
    obtain ⟨r, hr⟩ := Option.isSome_iff_exists.mp hk
    rcases Scopes.own?_update_cases hr with ⟨rfl, hown⟩ | hown
    · exact .inl (Option.isSome_iff_exists.mpr ⟨r, hown⟩)
    · exact .inl (hown ▸ rfl)

end Eval
end IslandScript
