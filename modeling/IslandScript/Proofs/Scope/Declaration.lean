import Mathlib
import IslandScript.Command.Characters
import IslandScript.Proofs.Scope.Reachable

/-!
# Declarations that fail

Whether a value can be spread, and whether it has enough items, is known before anything is bound.
Whether a name is free is only asked when its turn comes. So a declaration that fails binds nothing,
unless it fails at a name of a list: then the names before that one stay bound to their items.
-/

namespace IslandScript

open Eval

variable {m m' : Interpreter} {kind : BindingKind} {mutable : Bool} {span : Span} {s : Signal}
  {n k : Name} {ns before : List Name} {v : Value} {vs : List Value}

/-! ## Binding several names -/

/-- Binds names to values in the current scope, in order. -/
def Environment.bindAll (kind : BindingKind) (mutable : Bool) :
    List (Name × Value) → Environment → Environment
  | [], env => env
  | (n, v) :: rest, env => bindAll kind mutable rest (env.bindIn env.current n ⟨kind, mutable, v⟩)

theorem Environment.Created.bindIn {env : Environment} {t : ScopeId} (h : env.Created t)
    (s : ScopeId) (n : Name) (r : Reference) : (env.bindIn s n r).Created t :=
  Nat.lt_of_lt_of_eq h (Scopes.size_update _).symm

theorem Environment.stack_bindAll (left : List (Name × Value)) (env : Environment) :
    (env.bindAll kind mutable left).stack = env.stack := by
  induction left generalizing env with
  | nil => rfl
  | cons b left ih => exact ih _

/-- The bindings of the current scope afterwards: the last one that was added comes first. -/
theorem Environment.bindings_bindAll (left : List (Name × Value)) {env : Environment}
    (hcur : env.Created env.current) :
    ((env.bindAll kind mutable left).scopes.get env.current).bindings =
      (left.map fun b => (b.1, ⟨kind, mutable, b.2⟩)).reverse ++
        (env.scopes.get env.current).bindings := by
  induction left generalizing env with
  | nil => rfl
  | cons b left ih =>
      have hget : ((env.bindIn env.current b.1 ⟨kind, mutable, b.2⟩).scopes.get env.current) =
          (env.scopes.get env.current).bind b.1 ⟨kind, mutable, b.2⟩ :=
        Scopes.get_update_self hcur _
      have hrest := ih (hcur.bindIn env.current b.1 ⟨kind, mutable, b.2⟩)
      rw [show (env.bindIn env.current b.1 ⟨kind, mutable, b.2⟩).current = env.current from rfl,
        hget] at hrest
      simpa [bindAll, Scope.bind] using hrest

/-! ## Names that clash -/

namespace Interpreter

/-- The first name of a list that cannot be bound: the scope binds it, or it came before. -/
structure FirstClash (m : Interpreter) (before : List Name) (n : Name) : Prop where
  named : m.text n ≠ discarded
  clash : (m.env.own? n).isSome ∨ n ∈ before
  /-- The names before it can be bound. -/
  free : ∀ k ∈ before, m.text k ≠ discarded → m.env.own? k = none
  distinct : before.Pairwise fun k l => m.text k ≠ discarded → k ≠ l

/-- The names that are not discarded, with their items. -/
def named (m : Interpreter) (ns : List Name) (items : List Value) : List (Name × Value) :=
  (ns.zip items).filter fun b => m.text b.1 ≠ discarded

theorem named_cons_discarded (h : m.text n = discarded) :
    m.named (n :: ns) (v :: vs) = m.named ns vs := by
  simp [named, h]

theorem named_cons_of_ne (h : m.text n ≠ discarded) :
    m.named (n :: ns) (v :: vs) = (n, v) :: m.named ns vs := by
  simp [named, h]

theorem own?_onEnv_bindIn (hcur : m.env.Created m.env.current) (n k : Name) (r : Reference) :
    (m.onEnv fun env => env.bindIn env.current n r).env.own? k =
      if k = n then some r else m.env.own? k := by
  show ((m.env.scopes.update m.env.current (·.bind n r)).get m.env.current).own? k = _
  rw [Scopes.get_update_self hcur]
  split
  next h => rw [h, Scope.own?_bind_self]
  next h => exact Scope.own?_bind_of_ne h

namespace FirstClash

theorem nil_iff : m.FirstClash [] n ↔ m.text n ≠ discarded ∧ (m.env.own? n).isSome := by
  constructor
  · intro h
    exact ⟨h.named, by simpa using h.clash⟩
  · rintro ⟨hn, hown⟩
    exact ⟨hn, .inl hown, by simp, .nil⟩

/-- A discarded name clashes with none. -/
theorem cons_discarded_iff (hk : m.text k = discarded) :
    m.FirstClash (k :: before) n ↔ m.FirstClash before n := by
  constructor
  · rintro ⟨hn, hclash, hfree, hdistinct⟩
    refine ⟨hn, hclash.imp_right fun hmem => ?_, fun l hl => hfree l (.tail _ hl),
      hdistinct.of_cons⟩
    rcases List.mem_cons.mp hmem with rfl | hmem
    · exact absurd hk hn
    · exact hmem
  · rintro ⟨hn, hclash, hfree, hdistinct⟩
    refine ⟨hn, hclash.imp_right (.tail _), ?_, .cons (fun _ _ h => absurd hk h) hdistinct⟩
    rintro l (_ | ⟨_, hl⟩) hl'
    · exact absurd hk hl'
    · exact hfree l hl hl'

/-- Names clash after a free one if they do once that one is bound. -/
theorem cons_iff (hk : m.text k ≠ discarded) (hfree : m.env.own? k = none)
    (hcur : m.env.Created m.env.current) (r : Reference) :
    m.FirstClash (k :: before) n ↔
      (m.onEnv fun env => env.bindIn env.current k r).FirstClash before n := by
  have hown := own?_onEnv_bindIn hcur k (r := r)
  constructor
  · rintro ⟨hn, hclash, hbefore, hdistinct⟩
    obtain ⟨hne, hdistinct⟩ := List.pairwise_cons.mp hdistinct
    refine ⟨hn, ?_, fun l hl hl' => ?_, hdistinct⟩
    · rw [hown]
      rcases hclash with hclash | hmem
      · refine .inl ?_
        split
        · rfl
        · exact hclash
      · exact (List.mem_cons.mp hmem).imp_left fun heq => by simp [heq]
    · rw [hown, if_neg (hne l hl hk).symm]
      exact hbefore l (.tail _ hl) hl'
  · rintro ⟨hn, hclash, hbefore, hdistinct⟩
    -- a name before the clash is free once `k` is bound, so it is another one
    have hne : ∀ l ∈ before, m.text l ≠ discarded → l ≠ k ∧ m.env.own? l = none := by
      intro l hl hl'
      have hnone := hbefore l hl hl'
      rw [hown] at hnone
      split at hnone
      · cases hnone
      next hne => exact ⟨hne, hnone⟩
    refine ⟨hn, ?_, ?_, .cons (fun l hl _ heq => ?_) hdistinct⟩
    · rw [hown] at hclash
      rcases hclash with hclash | hmem
      · split at hclash
        next heq => exact .inr (heq ▸ List.mem_cons_self)
        · exact .inl hclash
      · exact .inr (.tail _ hmem)
    · rintro l (_ | ⟨_, hl⟩) hl'
      · exact hfree
      · exact (hne l hl hl').2
    · subst heq
      exact (hne k hl hk).1 rfl

end FirstClash

end Interpreter

/-! ## Binding one by one -/

/-- A place in a list is at its head or in the rest. -/
theorem exists_split_cons {α : Type} {P : List α → α → List α → Prop} {a : α} {l : List α} :
    (∃ before b after, a :: l = before ++ b :: after ∧ P before b after) ↔
      P [] a l ∨ ∃ before b after, l = before ++ b :: after ∧ P (a :: before) b after := by
  constructor
  · rintro ⟨_ | ⟨c, before⟩, b, after, heq, h⟩
    · cases heq
      exact .inl h
    · cases heq
      exact .inr ⟨before, b, after, rfl, h⟩
  · rintro (h | ⟨before, b, after, rfl, h⟩)
    · exact ⟨[], a, l, rfl, h⟩
    · exact ⟨a :: before, b, after, rfl, h⟩

namespace Eval

theorem bindName_eq_raised {r : Reference} :
    bind n r span m = .raised s m' ↔
      m.FirstClash [] n ∧ s = .failed ⟨.redefinedName (m.text n), span⟩ ∧ m' = m := by
  rw [Interpreter.FirstClash.nil_iff]
  by_cases hd : m.text n = discarded
  · simp [bind_discarded hd, hd]
  · cases hown : m.env.own? n with
    | none => simp [bind_free hd hown, hd]
    | some r => simp [bind_bound hd (by rw [hown]; rfl), hd, eq_comm]

/-- Names that get an item each fail to be bound at the first that clashes; those before it stay. -/
theorem bindEach_eq_raised (hcur : m.env.Created m.env.current) (hlen : ns.length ≤ vs.length) :
    bindEach kind mutable span ns vs m = .raised s m' ↔
      ∃ before n after, ns = before ++ n :: after ∧ m.FirstClash before n ∧
        s = .failed ⟨.redefinedName (m.text n), span⟩ ∧
        m' = m.onEnv (·.bindAll kind mutable (m.named before vs)) := by
  induction ns generalizing m vs with
  | nil => simp [bindEach, pure, Pure.pure]
  | cons k ns ih =>
      obtain _ | ⟨v, vs⟩ := vs
      · cases hlen
      have hlen' : ns.length ≤ vs.length := Nat.le_of_succ_le_succ hlen
      rw [exists_split_cons, bindEach]
      -- the first name is discarded, clashes itself, or is bound and seen by those behind it
      by_cases hk : m.text k = discarded
      · have hfirst : ¬m.FirstClash [] k := fun h => h.named hk
        simp only [bind_done (bind_discarded hk), ih hcur hlen', hfirst, false_and, false_or,
          Interpreter.FirstClash.cons_discarded_iff hk, Interpreter.named_cons_discarded hk]
      cases hown : m.env.own? k with
      | some r =>
          have hbound : (m.env.own? k).isSome := by rw [hown]; rfl
          have hfirst : m.FirstClash [] k := Interpreter.FirstClash.nil_iff.mpr ⟨hk, hbound⟩
          have hlater : ∀ before l, ¬m.FirstClash (k :: before) l := fun before l h => by
            cases hown.symm.trans (h.free k List.mem_cons_self hk)
          rw [bind_raised (bind_bound hk hbound)]
          simp only [hfirst, hlater, true_and, false_and, and_false, exists_false, or_false]
          constructor
          · rintro ⟨⟩
            exact ⟨rfl, rfl⟩
          · rintro ⟨rfl, rfl⟩
            rfl
      | none =>
          have hfirst : ¬m.FirstClash [] k := fun h => by
            simpa [hown] using (Interpreter.FirstClash.nil_iff.mp h).2
          rw [bind_done (bind_free hk hown), ih (hcur.bindIn _ k _) hlen']
          simp only [hfirst, false_and, false_or, Interpreter.named_cons_of_ne hk,
            Interpreter.FirstClash.cons_iff hk hown hcur ⟨kind, mutable, v⟩]
          rfl

end Eval

/-! ## Declarations -/

/-- Why a pattern cannot be bound to a value, and the names that are bound before this shows. -/
inductive Interpreter.FailsToBind (m : Interpreter) :
    Pattern Name → Value → EvalErrorKind → List (Name × Value) → Prop
  | taken {n : Name} {v : Value} (h : m.FirstClash [] n) :
      FailsToBind m (.name n) v (.redefinedName (m.text n)) []
  | notSpreadable {ns : List Name} {v : Value} (h : v.spread? m.store.tables = none) :
      FailsToBind m (.items ns) v (.notSpreadable (m.display v)) []
  | tooFew {ns : List Name} {v : Value} {items : List Value}
      (hitems : v.spread? m.store.tables = some items) (hlen : items.length < ns.length) :
      FailsToBind m (.items ns) v (.destructureCount ns.length items.length) []
  | clash {before after : List Name} {n : Name} {v : Value} {items : List Value}
      (hitems : v.spread? m.store.tables = some items)
      (hlen : (before ++ n :: after).length ≤ items.length) (h : m.FirstClash before n) :
      FailsToBind m (.items (before ++ n :: after)) v (.redefinedName (m.text n))
        (m.named before items)

/-- Only values that can be spread and have enough items are bound to the names of a list. -/
theorem Eval.bindPattern_items :
    bindPattern (.items ns) v kind mutable span m =
      match v.spread? m.store.tables with
      | none => .raised (.failed ⟨.notSpreadable (m.display v), span⟩) m
      | some items =>
        if items.length < ns.length then
          .raised (.failed ⟨.destructureCount ns.length items.length, span⟩) m
        else bindEach kind mutable span ns items m := by
  rw [bindPattern]
  cases hitems : v.spread? m.store.tables with
  | none =>
      have hspread : spread v span m =
          .raised (.failed ⟨.notSpreadable (m.display v), span⟩) m := by
        simp [spread, hitems, failShowing]
      rw [bind_raised hspread]
  | some items =>
      have hspread : spread v span m = .done items m := by simp [spread, hitems]
      rw [bind_done hspread]
      by_cases hlen : items.length < ns.length
      · simp only [if_pos hlen]
        rfl
      · simp only [if_neg hlen]

/-- Binding a pattern fails for one of these reasons, and changes nothing else. -/
theorem Eval.bindPattern_eq_raised {p : Pattern Name} (hcur : m.env.Created m.env.current) :
    bindPattern p v kind mutable span m = .raised s m' ↔
      ∃ e left, m.FailsToBind p v e left ∧ s = .failed ⟨e, span⟩ ∧
        m' = m.onEnv (·.bindAll kind mutable left) := by
  constructor
  · intro hfail
    cases p with
    | name n =>
        obtain ⟨h, rfl, rfl⟩ := bindName_eq_raised.mp hfail
        exact ⟨_, [], .taken h, rfl, rfl⟩
    | items ns =>
        rw [bindPattern_items] at hfail
        split at hfail
        next hitems =>
          cases hfail
          exact ⟨_, [], .notSpreadable hitems, rfl, rfl⟩
        next items hitems =>
          split at hfail
          next hlen =>
            cases hfail
            exact ⟨_, [], .tooFew hitems hlen, rfl, rfl⟩
          next hlen =>
            have hlen := Nat.not_lt.mp hlen
            obtain ⟨before, n, after, rfl, h, rfl, rfl⟩ := (bindEach_eq_raised hcur hlen).mp hfail
            exact ⟨_, _, .clash hitems hlen h, rfl, rfl⟩
  · rintro ⟨e, left, h, rfl, rfl⟩
    cases h with
    | taken h => exact bindName_eq_raised.mpr ⟨h, rfl, rfl⟩
    | notSpreadable hitems =>
        rw [bindPattern_items, hitems]
        rfl
    | tooFew hitems hlen =>
        simp only [bindPattern_items, hitems, if_pos hlen]
        rfl
    | clash hitems hlen h =>
        simp only [bindPattern_items, hitems, if_neg (Nat.not_lt.mpr hlen)]
        exact (bindEach_eq_raised hcur hlen).mpr ⟨_, _, _, rfl, h, rfl, rfl⟩

/-- **What a declaration that fails binds.** Suppose that the value of a declaration is evaluated and
the declaration fails nevertheless. If the value cannot be spread or has too few items, or the one name
that is declared is bound already, nothing is bound. If a name of a list is bound already, or is
repeated in it, then the names before it have been bound to their items, and stay bound. -/
theorem failed_declaration_binds [Text.CharNames] {m₁ m₂ : Interpreter} {i : Nat} {p : Pattern Name}
    {value : Expr Name} (hm : Reachable m) (hvalue : (evaluator i).expr value m = .done v m₁)
    (hfail : (evaluator (i + 1)).stmt (.declare span kind mutable p value) m = .raised s m₂) :
    ∃ e left, m₁.FailsToBind p v e left ∧ s = .failed ⟨e, span⟩ ∧
      m₂ = m₁.onEnv (·.bindAll kind mutable left) ∧ m₂.env.current = m₁.env.current ∧
      (m₂.env.scopes.get m₂.env.current).bindings =
        (left.map fun b => (b.1, ⟨kind, mutable, b.2⟩)).reverse ++
          (m₁.env.scopes.get m₁.env.current).bindings := by
  have hm₁ : Reachable m₁ :=
    hm.request (n := i) (r := .expr value) trivial (by rw [Request.perform, hvalue]; rfl)
  have hcur : m₁.env.Created m₁.env.current := hm₁.sound.env.current
  change atLevel i (stmtStep (evaluator i) (.declare span kind mutable p value)) m = _ at hfail
  -- past the initializer, only the binding can have failed
  rw [Logic.atLevel_eq, stmtStep, bind_done hvalue] at hfail
  obtain ⟨e, left, hfails, rfl, rfl⟩ := (bindPattern_eq_raised hcur).mp hfail
  have hsame : (m₁.onEnv (·.bindAll kind mutable left)).env.current = m₁.env.current :=
    Environment.current_of_stack (Environment.stack_bindAll left m₁.env)
  refine ⟨e, left, hfails, rfl, rfl, hsame, ?_⟩
  rw [hsame]
  exact Environment.bindings_bindAll left hcur

/-- What is parsed from `let (a, a) = "xy"`. -/
def repeatedName {ν : Type} (a : ν) : Stmt ν :=
  .declare ⟨1, 1, 3⟩ .constant false (.items [a, a]) (.value ⟨1, 14, 4⟩ (.string "xy"))

/-- A new interpreter, with the names of the declaration. -/
def knowingRepeatedName : Interpreter :=
  { Interpreter.new Linker.new default with interner := (Interner.new.intern "a").2 }

attribute [local instance] Command.charNames

/-- The second `a` clashes with the first, which stays bound. -/
theorem failed_declaration_binds_repeated : ∃ m₂ left,
    (evaluator 2).stmt (repeatedName ⟨5⟩) knowingRepeatedName =
      .raised (.failed ⟨.redefinedName "a", ⟨1, 1, 3⟩⟩) m₂ ∧
    knowingRepeatedName.FailsToBind (.items [⟨5⟩, ⟨5⟩]) (.string "xy") (.redefinedName "a") left ∧
    (m₂.env.scopes.get m₂.env.current).bindings =
      (left.map fun b => (b.1, ⟨.constant, false, b.2⟩)).reverse ++
        (knowingRepeatedName.env.scopes.get knowingRepeatedName.env.current).bindings ∧
    (m₂.env.scopes.get m₂.env.current).bindings = [(⟨5⟩, ⟨.constant, false, .string "x"⟩)] := by
  obtain ⟨m₂, hfail, hbound⟩ : ∃ m₂, (evaluator 2).stmt (repeatedName ⟨5⟩) knowingRepeatedName =
      .raised (.failed ⟨.redefinedName "a", ⟨1, 1, 3⟩⟩) m₂ ∧
      (m₂.env.scopes.get m₂.env.current).bindings = [(⟨5⟩, ⟨.constant, false, .string "x"⟩)] :=
    ⟨_, rfl, rfl⟩
  obtain ⟨e, left, hfails, he, -, -, hbindings⟩ :=
    failed_declaration_binds (.intern _ (.new default)) (i := 1) rfl hfail
  cases he
  exact ⟨m₂, left, hfail, hfails, hbindings, hbound⟩

/-- So the bindings of the scope are others than before the declaration, though it failed. -/
theorem failed_declaration_not_undone :
    Interner.new.parse "let (a, a) = \"xy\"" =
      .ok ⟨⟨[repeatedName ⟨5⟩], []⟩, (Interner.new.intern "a").2⟩ ∧
    ∃ m₁ m₂ s, Reachable knowingRepeatedName ∧
      (evaluator 1).expr (.value ⟨1, 14, 4⟩ (.string "xy")) knowingRepeatedName =
        .done (.string "xy") m₁ ∧
      (evaluator 2).stmt (repeatedName ⟨5⟩) knowingRepeatedName = .raised s m₂ ∧
      (m₂.env.scopes.get m₂.env.current).bindings ≠
        (m₁.env.scopes.get m₁.env.current).bindings :=
  ⟨by cbv, _, _, _, .intern _ (.new default), rfl, rfl, by decide⟩

end IslandScript
