import IslandScript.Proofs.Argument.Delivery
import IslandScript.Proofs.Landing.Judgement

/-!
# What calls land

The first half of the way through the evaluator: arguments, calls, instances and members. Arguments
and defaults are evaluated in the scope of the caller, and there land; all that a function or an
instantiation binds lands in scopes that are made for it.
-/

namespace IslandScript

open Eval

theorem args_lands {ν : Type} (as : List (Arg ν (Expr ν))) :
    Args.lands as = as.flatMap (·.expr.lands) := by
  induction as with
  | nil => rfl
  | cons a as ih => rw [Args.lands, ih, List.flatMap_cons]

theorem Interpreter.defers_of_function {m : Interpreter} {i : Nat} {f : FunctionObject} {n : Name}
    (hf : m.functions[i]? = some f) (hn : .declared n ∈ Params.lands f.decl.params) : m.Defers n :=
  .inl ⟨f, Array.mem_of_getElem? hf, hn⟩

theorem Interpreter.defers_of_class {m : Interpreter} {i : Nat} {c : ClassObject} {n : Name}
    (hc : m.classes[i]? = some c) (hn : .declared n ∈ Params.lands c.decl.params) : m.Defers n :=
  .inr ⟨c, Array.mem_of_getElem? hc, hn⟩

/-- Where a call lands, its defaults do. -/
theorem Interpreter.Lands.of_defaults {m m' : Interpreter} {s : ScopeId} {L : List (Landing Name)}
    {ps : List (Param Name (Expr Name))} (h : m.Lands s (L ++ Params.lands ps) m')
    (hps : ∀ n, .declared n ∈ Params.lands ps → m.Defers n) : m.Lands s (.call :: L) m' where
  evolves := h.evolves
  stack := h.stack
  bound t n ht hown := by
    refine (h.bound t n ht hown).imp_right fun ⟨hts, hadmits⟩ => ⟨hts, ?_⟩
    rcases hadmits with hn | ⟨-, hdefers⟩
    · rcases List.mem_append.mp hn with hn | hn
      · exact .inl (List.mem_cons_of_mem _ hn)
      · exact .inr ⟨List.mem_cons_self, (hps n hn).evolves h.evolves⟩
    · exact .inr ⟨List.mem_cons_self, hdefers⟩

namespace Eval

/-- An evaluator whose evaluations land what the trees say. -/
structure LandsTrees (ev : Evaluator) : Prop where
  expr : ∀ e, Lands e.lands (ev.expr e)
  stmt : ∀ s, Lands s.lands (ev.stmt s)

variable {ev : Evaluator} {m : Interpreter} {L : List (Landing Name)} {span : Span}

/-! ## Arguments -/

theorem lands_exprs (hev : LandsTrees ev) (es : List (Expr Name)) :
    Lands (Exprs.lands es) (exprs ev es) := by
  induction es with
  | nil => exact lands_pure []
  | cons e es ih =>
      refine Lands.bind (hev.expr e).left fun v => ?_
      exact Lands.bind ih.right fun vs => lands_pure _

theorem lands_itemsOf (marked : Bool) (v : Value) : Lands L (itemsOf marked v span) := by
  unfold itemsOf
  split
  · exact lands_spread v
  · exact lands_pure _

theorem lands_spreadArgs (hev : LandsTrees ev) (args : List (Arg Name (Expr Name))) :
    Lands (Args.lands args) (spreadArgs ev args) := by
  induction args with
  | nil => exact lands_pure []
  | cons a args ih =>
      refine Lands.bind (hev.expr a.expr).left fun v => ?_
      refine Lands.bind (lands_itemsOf _ v) fun items => ?_
      exact Lands.bind ih.right fun vs => lands_pure _

theorem lands_restArgs (hev : LandsTrees ev) (items : List (Bool × Expr Name))
    (h : ∀ item ∈ items, item.2.lands ⊆ L) : Lands L (restArgs ev items) := by
  induction items with
  | nil => exact lands_pure []
  | cons item items ih =>
      obtain ⟨hitem, hitems⟩ := List.forall_mem_cons.mp h
      refine Lands.bind ((hev.expr item.2).mono hitem) fun v => ?_
      refine Lands.bind (lands_itemsOf _ v) fun vs => ?_
      exact Lands.bind (ih hitems) fun rest => lands_pure _

theorem lands_resolvedArgs (hev : LandsTrees ev) (entries : List (Resolved (Expr Name)))
    (h : ∀ e ∈ entries.flatMap Resolved.exprs, e.lands ⊆ L) :
    Lands L (resolvedArgs ev entries) := by
  induction entries with
  | nil => exact lands_pure []
  | cons entry entries ih =>
      rw [List.flatMap_cons] at h
      obtain ⟨hentry, hentries⟩ := List.forall_mem_append.mp h
      cases entry with
      | single e =>
          refine Lands.bind ((hev.expr e).mono (hentry e (List.mem_singleton_self e))) fun v => ?_
          exact Lands.bind (ih hentries) fun vs => lands_pure _
      | rest items =>
          have hitems : ∀ item ∈ items, item.2.lands ⊆ L := fun item hi =>
            hentry _ (List.mem_map_of_mem hi)
          refine Lands.bind (lands_restArgs hev items hitems) fun values => ?_
          refine Lands.bind (lands_newList values) fun v => ?_
          exact Lands.bind (ih hentries) fun vs => lands_pure _

/-- The expressions that are evaluated for a call are arguments or defaults. -/
theorem lands_arguments (hev : LandsTrees ev) (params : List (Param Name (Expr Name)))
    (name : String) (args : List (Arg Name (Expr Name))) :
    Lands (Args.lands args ++ Params.lands params) (arguments ev params name args span) := by
  unfold arguments
  split
  · exact lands_fail _
  next entries hresolve =>
    obtain ⟨defaults, hperm, hdefaults⟩ := Arguments.exprs_of_resolve hresolve
    refine lands_resolvedArgs hev entries fun e he => ?_
    rcases List.mem_append.mp (hperm.mem_iff.mp he) with hkept | hdefault
    · obtain ⟨a, ha, rfl⟩ := List.mem_map.mp hkept
      refine List.Subset.trans ?_ (List.subset_append_left _ _)
      rw [args_lands]
      exact fun l hl => List.mem_flatMap.mpr ⟨a, Arguments.mem_of_mem_kept ha, hl⟩
    · obtain ⟨p, hp, hd⟩ := hdefaults e hdefault
      refine List.Subset.trans ?_ (List.subset_append_right _ _)
      intro l hl
      refine List.mem_flatMap.mpr ⟨p, hp, ?_⟩
      rw [hd, Expr?.lands]
      exact hl

/-- The arguments of a call of what is kept. -/
theorem landsTo_arguments (hev : LandsTrees ev) {params : List (Param Name (Expr Name))}
    (name : String) (args : List (Arg Name (Expr Name))) (span : Span)
    (hparams : ∀ n, .declared n ∈ Params.lands params → m.Defers n) :
    LandsTo m m.env.current (.call :: Args.lands args) (arguments ev params name args span m)
      fun _ _ => True :=
  Outcome.Sat.mono (lands_arguments hev params name args m)
    (fun _ _ h => ⟨h.1.of_defaults hparams, trivial⟩) fun _ _ h => h.of_defaults hparams

/-! ## Functions -/

theorem lands_bodyValue (r : Except Signal Unit) : Lands L (bodyValue span r) := by
  unfold bodyValue
  split
  · exact lands_pure _
  · exact lands_pure _
  · exact lands_fail _
  · exact lands_fail _
  · exact lands_raise _

theorem lands_runBody (hev : LandsTrees ev) (body : Option (Stmt Name)) :
    Lands (body.elim [] Stmt.lands) (runBody ev body) := by
  cases body with
  | none => exact lands_pure _
  | some body => exact Lands.bind (lands_attempt (hev.stmt body)) fun r => lands_bodyValue r

/-- The parameters and the body land in the scope of the call. -/
theorem lands_callDeclared (hev : LandsTrees ev) (f : FunctionObject) (args : List Value) :
    Lands L (callDeclared ev f args span) := by
  have hparams := lands_bindParams span f.decl.params args
  exact lands_inChildOf f.scope (hparams.left.bind fun _ => (lands_runBody hev f.decl.body).right)

theorem lands_callFunction (hev : LandsTrees ev) (f : FunctionObject) (receiver : Option ScopeId)
    (args : List Value) : Lands L (callFunction ev f receiver args span) := by
  unfold callFunction
  split
  · exact lands_callDeclared hev f args
  · refine Lands.bind (lands_read _) fun nf => ?_
    split
    · exact lands_callNative _ _ _
    · exact lands_fail _

/-! ## Instances -/

theorem lands_expr? (hev : LandsTrees ev) (e? : Option (Expr Name)) :
    Lands (Expr?.lands e?) (expr? ev e?) := by
  cases e? with
  | none => exact lands_pure _
  | some e => exact hev.expr e

theorem lands_baseInstance (hev : LandsTrees ev) (base : Option (Expr Name)) :
    Lands (Expr?.lands base) (baseInstance ev base) := by
  cases base with
  | none => exact lands_pure _
  | some e =>
      refine Lands.bind (hev.expr e) fun v => ?_
      split
      · exact lands_pure _
      · exact lands_pure _
      · exact lands_failShowing _ _

theorem landsTo_memberParam (paramScope s : ScopeId) {p : Param Name (Expr Name)}
    (hp : p.marker.isSome) (m : Interpreter) :
    LandsTo m s [.declared p.name] (memberParam paramScope s p m) fun _ _ => True := by
  obtain ⟨kind, hmarker⟩ := Option.isSome_iff_exists.mp hp
  unfold memberParam
  rw [hmarker]
  refine LandsTo.read_bind ?_
  cases m.env.scopes.own? paramScope p.name with
  | some r => exact ⟨lands_onEnv_define m s p.name _, trivial⟩
  | none => exact ⟨.refl m, trivial⟩

theorem landsTo_memberParams (paramScope s : ScopeId) (ps : List (Param Name (Expr Name)))
    (m : Interpreter) :
    LandsTo m s ((ps.filter (·.marker.isSome)).map (.declared ·.name))
      (memberParams paramScope s ps m) fun _ _ => True := by
  induction ps generalizing m with
  | nil => exact ⟨.refl m, trivial⟩
  | cons p ps ih =>
      unfold memberParams
      cases hmarker : p.marker with
      | none =>
          unfold memberParam
          rw [List.filter_cons_of_neg (by simp [hmarker]), hmarker]
          exact ih m
      | some kind =>
          rw [List.filter_cons_of_pos (by simp [hmarker]), List.map_cons]
          have hfirst := landsTo_memberParam paramScope s (Option.isSome_of_eq_some hmarker) m
          refine LandsTo.bind (hfirst.behind (.refl m) fun _ => ⟨rfl, ?_⟩) fun _ m' hm' _ => ?_
          · exact List.cons_subset_cons _ (List.nil_subset _)
          · exact (ih m').behind hm' fun _ => ⟨rfl, List.subset_cons_self _ _⟩

theorem lands_nativePart (c : ClassObject) (s : ScopeId) (span : Span) :
    Lands L (nativePart c s span) := by
  unfold nativePart
  split
  · exact lands_pure _
  · refine Lands.bind (lands_read _) fun nc => ?_
    split
    · exact lands_fail _
    · refine Lands.bind (lands_native _) fun state m => ?_
      exact ⟨lands_withPayload m s (.native state), trivial⟩

theorem lands_runInitializers (hev : LandsTrees ev) (init : List (Stmt Name)) :
    Lands (init.flatMap Stmt.lands) (runInitializers ev init) := by
  induction init with
  | nil => exact lands_pure ()
  | cons s init ih =>
      rw [List.flatMap_cons]
      refine Lands.bind (lands_attempt (hev.stmt s).left) fun r => ?_
      split
      · exact ih.right
      · exact lands_fail _
      · exact lands_fail _
      · exact lands_fail _
      · exact lands_raise _

/-- What fills an instance lands in it. -/
theorem landsTo_fillInstance (hev : LandsTrees ev) (c : ClassObject) (paramScope s : ScopeId)
    (span : Span) (m : Interpreter) :
    LandsTo m s (Class.lands c.decl) (fillInstance ev c paramScope s span m) fun _ _ => True := by
  have hbody : LandsTo (m.onEnv (·.push s)) s (Class.lands c.decl) ((do
      memberParams paramScope s c.decl.params
      nativePart c s span
      runInitializers ev c.decl.init : Eval Unit) (m.onEnv (·.push s))) fun _ _ => True := by
    have hparams := landsTo_memberParams paramScope s c.decl.params (m.onEnv (·.push s))
    refine LandsTo.bind (hparams.behind (.refl _) fun _ =>
      ⟨rfl, List.subset_append_left _ _⟩) fun _ m₁ hm₁ _ => ?_
    have hnative := lands_nativePart (L := Class.lands c.decl) c s span
    refine LandsTo.bind (hnative.after hm₁ (List.Subset.refl _)) fun _ m₂ hm₂ _ => ?_
    exact (lands_runInitializers hev c.decl.init).after hm₂ (List.subset_append_right _ _)
  exact (LandsTo.within (.scope trivial) hbody fun _ =>
    ⟨rfl, List.Subset.refl _⟩).imp fun _ _ _ _ => trivial

/-- A scope was made since a state, and binds nothing but what lands in an instance of a class, and
`this` and `base`. -/
structure NewInstance (m : Interpreter) (decl : Class Name) (s : ScopeId) (m' : Interpreter) :
    Prop where
  new : m.env.scopes.size ≤ s.index
  created : s.index < m'.env.scopes.size
  own : ∀ n, (m'.env.scopes.own? s n).isSome →
    n ∈ [Name.this, Name.base] ∨ m'.Admits (Class.lands decl) n

theorem NewInstance.since {decl : Class Name} {s : ScopeId} {m₀ m' : Interpreter}
    (h : NewInstance m decl s m') (hm : m₀.env.scopes.size ≤ m.env.scopes.size) :
    NewInstance m₀ decl s m' :=
  ⟨Nat.le_trans hm h.new, h.created, h.own⟩

theorem NewInstance.pop {decl : Class Name} {s : ScopeId} {m' : Interpreter}
    (h : NewInstance m decl s m') : NewInstance m decl s (m'.onEnv .pop) where
  new := h.new
  created := Nat.lt_of_lt_of_le h.created (Interpreter.Evolves.leave m').scopes.size_le
  own n hn := by
    have hscopes : (m'.onEnv .pop).env.scopes = m'.env.scopes := Environment.scopes_pop m'.env
    rw [hscopes] at hn
    exact (h.own n hn).imp_right fun h => h.evolves (.leave m')

theorem NewInstance.define {decl : Class Name} {s : ScopeId} {m' : Interpreter} {n : Name}
    (h : NewInstance m decl s m') (hn : n ∈ [Name.this, Name.base]) (r : Reference) :
    NewInstance m decl s (m'.onEnv (·.define s n r)) := by
  have hlands := lands_onEnv_define m' s n r
  refine ⟨h.new, Nat.lt_of_lt_of_le h.created hlands.evolves.scopes.size_le, fun k hk => ?_⟩
  obtain ⟨r', hr'⟩ := Option.isSome_iff_exists.mp hk
  rcases Environment.own?_define_cases hr' with ⟨-, rfl, -⟩ | hown
  · exact .inl hn
  · have hk := h.own k (Option.isSome_iff_exists.mpr ⟨r', hown⟩)
    exact hk.imp_right fun h => h.evolves hlands.evolves

/-- An instance is a new scope, and what else is bound on the way is bound in the current one. -/
theorem landsTo_construct (hev : LandsTrees ev) (id : ClassId) (c : ClassObject) (args : List Value)
    (primitive : Option Primitive) (span : Span) (m : Interpreter) :
    ∃ L, LandsTo m m.env.current L (construct ev id c args primitive span m)
      fun made m' => NewInstance m c.decl made.1 m' := by
  have hparams := lands_bindParams span c.decl.params args
  have hbase := lands_baseInstance hev c.decl.base
  refine ⟨c.decl.params.map (.declared ·.name) ++ Expr?.lands c.decl.base, ?_⟩
  refine (hparams.left m).bind fun _ m₁ hm₁ _ => LandsTo.read_bind ?_
  refine (hbase.after hm₁ (List.subset_append_right _ _)).bind
    fun base m₂ hm₂ _ => LandsTo.read_bind ?_
  -- From here on only the scope of the instance comes to bind more names.
  refine ((landsTo_createInstance id base _ m₂).behind hm₂ fun _ =>
    ⟨rfl, List.Subset.refl _⟩).bind fun s m₃ hm₃ ⟨hs, hlt, hown⟩ => ?_
  have hnew : m.env.scopes.size ≤ s.index := Nat.le_trans hm₂.evolves.scopes.size_le hs
  have hfill := landsTo_fillInstance hev c m₁.env.current s span m₃
  -- The instance binds what its filling landed there, for before it bound nothing.
  have hfilled : LandsTo m₃ s (Class.lands c.decl)
      (fillInstance ev c m₁.env.current s span m₃) fun _ m₄ => NewInstance m c.decl s m₄ := by
    refine hfill.imp fun _ m₄ hm₄ _ => ⟨hnew, ?_, fun n hn => .inr ?_⟩
    · exact Nat.lt_of_lt_of_le hlt hm₄.evolves.scopes.size_le
    · rcases hm₄.bound s n hlt hn with hbefore | ⟨-, hadmits⟩
      · rw [hown n] at hbefore
        cases hbefore
      · exact hadmits
  exact (hfilled.behind hm₃ fun hlt => absurd hlt (Nat.not_lt_of_le hnew)).bind
    fun _ m₄ hm₄ hinst => ⟨hm₄, hinst⟩

theorem landsTo_instantiate (hev : LandsTrees ev) (id : ClassId) (c : ClassObject)
    (args : List Value) (primitive : Option Primitive) (m : Interpreter) :
    LandsTo m m.env.current L (instantiate ev id c args primitive span m)
      fun s m' => NewInstance m c.decl s m' := by
  obtain ⟨L', hconstruct⟩ := landsTo_construct hev id c args primitive span
    (m.onEnv (·.pushChildOf c.scope))
  have hmade := LandsTo.within (s := m.env.current) (L := L)
    (.childOf trivial) hconstruct fun hlt => (Nat.lt_irrefl _ hlt).elim
  refine hmade.bind fun made m₁ hm₁ ⟨inner, _, hinner, hpop⟩ => ?_
  have hinst : NewInstance m c.decl made.1 m₁ := by
    subst hpop
    exact hinner.pop.since (Scopes.Evolves.push m.env.scopes (.inside c.scope)).size_le
  have hdefine {m' : Interpreter} (hm' : m.Lands m.env.current L m') (n : Name) (r : Reference) :
      m.Lands m.env.current L (m'.onEnv (·.define made.1 n r)) :=
    hm'.trans (lands_onEnv_define m' made.1 n r) fun hlt => absurd hlt (Nat.not_lt_of_le hinst.new)
  refine LandsTo.bind (Q := fun _ m' => NewInstance m c.decl made.1 m')
    ⟨hdefine hm₁ _ _, hinst.define List.mem_cons_self _⟩ fun _ m₂ hm₂ hinst₂ => ?_
  refine LandsTo.bind (Q := fun _ m' => NewInstance m c.decl made.1 m') ?_
    fun _ m₃ hm₃ hinst₃ => ⟨hm₃, hinst₃⟩
  cases made.2 with
  | none => exact ⟨hm₂, hinst₂⟩
  | some b =>
      exact ⟨hdefine hm₂ _ _, hinst₂.define (List.mem_cons_of_mem _ List.mem_cons_self) _⟩

/-- What a call of a class lands, its arguments and defaults do. -/
theorem landsTo_invokeClass (hev : LandsTrees ev) (id : ClassId)
    (args : List (Arg Name (Expr Name))) (span : Span) (m : Interpreter) :
    LandsTo m m.env.current (.call :: Args.lands args) (invokeClass ev id args span m)
      fun s m' => ∃ c, m.classes[id.index]? = some c ∧ NewInstance m c.decl s m' := by
  refine LandsTo.read_bind ?_
  cases hc : m.classes[id.index]? with
  | none => trivial
  | some c =>
      refine (landsTo_arguments hev c.name args span fun n =>
        Interpreter.defers_of_class hc).bind fun values m₁ hm₁ _ => ?_
      refine ((landsTo_instantiate hev id c values none m₁).behind hm₁ fun _ =>
        ⟨hm₁.current, List.Subset.refl _⟩).imp fun s _ _ hs => ?_
      exact ⟨c, rfl, hs.since hm₁.evolves.scopes.size_le⟩

theorem lands_invokeClass (hev : LandsTrees ev) (id : ClassId)
    (args : List (Arg Name (Expr Name))) :
    Lands (.call :: Args.lands args) (invokeClass ev id args span) :=
  fun m => (landsTo_invokeClass hev id args span m).imp fun _ _ _ _ => trivial

/-! ## Classes, objects and enums -/

theorem lands_declareClass (decl : Class Name) :
    Lands [.declared decl.name] (declareClass decl span) :=
  Lands.bind (lands_makeClass decl) fun _ => lands_bindName decl.name _

theorem lands_declareObject (hev : LandsTrees ev) (decl : Class Name) :
    Lands [.call, .declared decl.name] (declareObject ev decl span) := by
  refine Lands.bind (lands_makeClass decl) fun c => Lands.bind ?_ fun s => ?_
  · exact (lands_invokeClass hev c []).mono (List.cons_subset_cons _ (List.nil_subset _))
  · exact (lands_bindName decl.name _).mono (List.subset_cons_self _ _)

/-- The entries are made where the enum is declared, and are members of a new instance. -/
theorem landsTo_enumEntries (hev : LandsTrees ev) (c : ClassId) {s : ScopeId}
    (entries : List (EnumEntry Name (Expr Name))) {m₁ : Interpreter}
    (hL : .call ∈ L) (hentries : Entries.lands entries ⊆ L) (hm₁ : m.Lands m.env.current L m₁)
    (hs : m.env.scopes.size ≤ s.index) :
    LandsTo m m.env.current L (enumEntries ev c s entries m₁) fun _ _ => True := by
  induction entries generalizing m₁ with
  | nil => exact ⟨hm₁, trivial⟩
  | cons entry entries ih =>
      obtain ⟨hargs, hrest⟩ := List.append_subset.mp hentries
      have hdefine {m' : Interpreter} {t : ScopeId} (hm' : m.Lands m.env.current L m')
          (ht : m.env.scopes.size ≤ t.index) (n : Name) (v : Value) :
          LandsTo m m.env.current L (define t n v m') fun _ _ => True :=
        ⟨hm'.trans (lands_onEnv_define m' t n (.constant v)) fun hlt =>
          absurd hlt (Nat.not_lt_of_le ht), trivial⟩
      have hcall := (landsTo_invokeClass hev c entry.args entry.span m₁).behind hm₁ fun _ =>
        ⟨hm₁.current, List.cons_subset.mpr ⟨hL, hargs⟩⟩
      refine hcall.bind fun made m₂ hm₂ ⟨_, _, hinst⟩ => LandsTo.read_bind ?_
      have hmade := (hinst.since hm₁.evolves.scopes.size_le).new
      refine LandsTo.bind (hdefine hm₂ hmade Name.name _) fun _ m₃ hm₃ _ => ?_
      refine LandsTo.bind (hdefine hm₃ hmade Name.ordinal _) fun _ m₄ hm₄ _ =>
        LandsTo.read_bind ?_
      split
      · exact hm₄
      · exact LandsTo.bind (hdefine hm₄ hs entry.name _) fun _ m₅ hm₅ _ => ih hrest hm₅

theorem lands_declareEnum (hev : LandsTrees ev) (decl : Enum Name) :
    Lands ([.call, .declared decl.cls.name] ++ Entries.lands decl.entries)
      (declareEnum ev decl span) := by
  intro m
  refine (lands_makeClass decl.cls m).bind fun c m₁ hm₁ _ => ?_
  refine ((landsTo_createInstance c none none m₁).behind hm₁ fun _ =>
    ⟨hm₁.current, List.Subset.refl _⟩).bind fun s m₂ hm₂ ⟨hs, _⟩ => ?_
  have hentries : Entries.lands decl.entries ⊆
      [.call, .declared decl.cls.name] ++ Entries.lands decl.entries :=
    List.subset_append_right _ _
  have hnew : m.env.scopes.size ≤ s.index := Nat.le_trans hm₁.evolves.scopes.size_le hs
  refine (landsTo_enumEntries hev c decl.entries List.mem_cons_self hentries hm₂ hnew).bind
    fun _ m₃ hm₃ _ => ?_
  refine (lands_bindName decl.cls.name _).after hm₃ ?_
  exact List.cons_subset.mpr ⟨List.mem_cons_of_mem _ List.mem_cons_self, List.nil_subset _⟩

/-! ## Members -/

theorem lands_wrap (hev : LandsTrees ev) (p : Primitive) : Lands L (wrap ev p span) := by
  refine Lands.bind (lands_read _) fun kept => ?_
  split
  · exact lands_pure _
  · refine Lands.bind (lands_read _) fun found => ?_
    split
    · exact lands_pure _
    next id c =>
      have hmade : Lands L (instantiate ev id c [] (some p) span) :=
        fun m => (landsTo_instantiate hev id c [] (some p) m).imp fun _ _ _ _ => trivial
      refine Lands.bind hmade fun s m => ?_
      exact ⟨.of_scopes_eq (.of_change (.wrapper trivial)) rfl rfl, trivial⟩

theorem lands_instanceOf (hev : LandsTrees ev) (v : Value) : Lands L (instanceOf ev v span) := by
  unfold instanceOf
  split
  · exact lands_pure _
  · split
    · exact lands_wrap hev _
    · exact lands_pure _

theorem lands_memberOf (hev : LandsTrees ev) (target : Value) (n : Name) :
    Lands L (memberOf ev target n span) := by
  refine Lands.bind (lands_instanceOf hev target) fun s => Lands.bind (lands_read _) fun v => ?_
  split
  · exact lands_pure _
  · exact Lands.bind (lands_read _) fun text => lands_failShowing _ _

end Eval
end IslandScript
