import IslandScript.Proofs.Argument.Delivery
import IslandScript.Proofs.Logic.Framed
import IslandScript.Proofs.Move.Judgement

/-!
# Calls go by moves

The first half of the way through the evaluator: arguments, calls, instances and members. Instances
are where more has to be known than that code binds what it may: the scope of the parameters is no
instance, the new scope is one of its class, and its members are those that the initializers link.
-/

namespace IslandScript.Eval

variable {P : Binder Name → Prop} {ev : Evaluator} {m m' : Interpreter} {span : Span}

/-- An evaluator that goes by moves where the trees that it evaluates bind names of a kind, leaves
the stack as it was, and links the functions that are declared so. -/
structure EvaluatesByMoves (P : Binder Name → Prop) (ev : Evaluator) : Prop where
  expr : ∀ e, Bears P e.binders → Walks P (ev.expr e)
  stmt : ∀ s, Bears P s.binders → Walks P (ev.stmt s)
  framed : Logic.framed.Evaluates ev
  bounded : ∃ n, ev = evaluator n
  links : ∀ span decl n m m', m.env.current.index < m.env.scopes.size → decl.linked →
    decl.name = some n → m.text n ≠ discarded → ev.stmt (.function span decl) m = .done () m' →
      m'.Links m.env.current decl n

/-- An evaluation that leaves the stack as it was, and goes by moves, does both. -/
theorem WalksAt.framed {α : Type} {x : Eval α} {Q Q' : α → Interpreter → Prop}
    (h : WalksAt P x m Q) (hframed : Logic.framed.Holds x m Q') :
    WalksAt P x m fun a m' => Q a m' ∧ m'.env.stack = m.env.stack := by
  have hstack := Framed.stack_eq hframed
  unfold WalksAt at h ⊢
  cases hx : x m with
  | done a m' =>
      rw [hx] at h hstack
      exact ⟨h.1, h.2, hstack⟩
  | raised s m' =>
      rw [hx] at h
      exact h
  | unfinished => trivial

/-! ## Arguments -/

theorem walks_exprs (hev : EvaluatesByMoves P ev) (es : List (Expr Name))
    (h : Bears P (Exprs.binders es)) : Walks P (exprs ev es) := by
  induction es with
  | nil => exact walks_pure []
  | cons e es ih =>
      obtain ⟨he, hes⟩ := bears_append.mp h
      refine Walks.bind (hev.expr e he) fun v => ?_
      exact Walks.bind (ih hes) fun vs => walks_pure _

theorem walks_itemsOf (marked : Bool) (v : Value) : Walks P (itemsOf marked v span) := by
  unfold itemsOf
  split
  · exact walks_spread v
  · exact walks_pure _

theorem walks_spreadArgs (hev : EvaluatesByMoves P ev) (args : List (Arg Name (Expr Name)))
    (h : Bears P (Args.binders args)) : Walks P (spreadArgs ev args) := by
  induction args with
  | nil => exact walks_pure []
  | cons a args ih =>
      obtain ⟨he, hargs⟩ := List.forall_mem_cons.mp (bears_args.mp h)
      refine Walks.bind (hev.expr a.expr he) fun v => ?_
      refine Walks.bind (walks_itemsOf _ v) fun items => ?_
      exact Walks.bind (ih (bears_args.mpr hargs)) fun vs => walks_pure _

theorem walks_restArgs (hev : EvaluatesByMoves P ev) (items : List (Bool × Expr Name))
    (h : ∀ item ∈ items, Bears P item.2.binders) : Walks P (restArgs ev items) := by
  induction items with
  | nil => exact walks_pure []
  | cons item items ih =>
      obtain ⟨he, hitems⟩ := List.forall_mem_cons.mp h
      refine Walks.bind (hev.expr item.2 he) fun v => ?_
      refine Walks.bind (walks_itemsOf _ v) fun vs => ?_
      exact Walks.bind (ih hitems) fun rest => walks_pure _

theorem walks_resolvedArgs (hev : EvaluatesByMoves P ev) (entries : List (Resolved (Expr Name)))
    (h : ∀ e ∈ entries.flatMap Resolved.exprs, Bears P e.binders) :
    Walks P (resolvedArgs ev entries) := by
  induction entries with
  | nil => exact walks_pure []
  | cons entry entries ih =>
      rw [List.flatMap_cons] at h
      obtain ⟨hentry, hentries⟩ := List.forall_mem_append.mp h
      cases entry with
      | single e =>
          refine Walks.bind (hev.expr e (hentry e (List.mem_singleton_self e))) fun v => ?_
          exact Walks.bind (ih hentries) fun vs => walks_pure _
      | rest items =>
          have hitems : ∀ item ∈ items, Bears P item.2.binders := fun item hi =>
            hentry _ (List.mem_map_of_mem hi)
          refine Walks.bind (walks_restArgs hev items hitems) fun values => ?_
          refine Walks.bind (walks_newList values) fun v => ?_
          exact Walks.bind (ih hentries) fun vs => walks_pure _

/-- The expressions that are evaluated for a call are of its arguments or of the parameters. -/
theorem walks_arguments (hev : EvaluatesByMoves P ev) {params : List (Param Name (Expr Name))}
    {args : List (Arg Name (Expr Name))} (name : String) (hparams : ParamsBear P params)
    (hargs : Bears P (Args.binders args)) : Walks P (arguments ev params name args span) := by
  unfold arguments
  split
  · exact walks_fail _ _
  next entries hresolve =>
    obtain ⟨defaults, hperm, hdefaults⟩ := Arguments.exprs_of_resolve hresolve
    refine walks_resolvedArgs hev entries fun e he => ?_
    rcases List.mem_append.mp (hperm.mem_iff.mp he) with hkept | hdefault
    · obtain ⟨a, ha, rfl⟩ := List.mem_map.mp hkept
      exact bears_args.mp hargs a (Arguments.mem_of_mem_kept ha)
    · obtain ⟨p, hp, hd⟩ := hdefaults e hdefault
      exact bears_expr?.mp (hparams p hp).2 e hd

/-! ## Functions -/

/-- Parameters are bound in a scope that is no instance. -/
theorem walksAt_bindParams {ps : List (Param Name (Expr Name))} (vs : List Value)
    (h : ParamsBear P ps) (hm : m.Bears P) (hlt : m.env.current.index < m.env.scopes.size)
    (hframe : (m.env.scopes.get m.env.current).frame = none) :
    WalksAt P (bindParams span ps vs) m fun _ _ => True := by
  induction ps generalizing vs m with
  | nil => exact ⟨.refl, trivial⟩
  | cons p ps ih =>
      obtain ⟨⟨⟨kind, hp⟩, -⟩, hps⟩ := List.forall_mem_cons.mp h
      cases vs with
      | nil => exact ⟨.refl, trivial⟩
      | cons v vs =>
          refine WalksAt.bind hm (WalksAt.framed (walksAt_bindName hp _ fun _ => hframe)
            (Logic.bindName trivial v.within_all)) fun _ m' hmoves hm' hstack => ?_
          have hcurrent := Environment.current_of_stack hstack.2
          have hevolves := hmoves.evolves
          refine ih vs hps hm' ?_ ?_
          · rw [hcurrent]
            exact Nat.lt_of_lt_of_le hlt hevolves.scopes.size_le
          · rw [hcurrent]
            exact hevolves.frame_none hlt hframe

/-- The scope that a call makes is there, and is no instance. -/
theorem current_onEnv_pushChildOf (m : Interpreter) (s : ScopeId) :
    (m.onEnv (·.pushChildOf s)).env.current.index < (m.onEnv (·.pushChildOf s)).env.scopes.size ∧
      ((m.onEnv (·.pushChildOf s)).env.scopes.get (m.onEnv (·.pushChildOf s)).env.current).frame =
        none :=
  ⟨Nat.lt_of_lt_of_eq (Nat.lt_succ_self _) (Array.size_push _).symm,
    congrArg Scope.frame Scopes.get_push_size⟩

theorem walks_bodyValue (r : Except Signal Unit) : Walks P (bodyValue span r) := by
  unfold bodyValue
  split
  · exact walks_pure _
  · exact walks_pure _
  · exact walks_fail _ _
  · exact walks_fail _ _
  · exact walks_raise _

theorem walks_runBody (hev : EvaluatesByMoves P ev) {body : Option (Stmt Name)}
    (h : Bears P (Stmt?.binders body)) : Walks P (runBody ev body) := by
  cases body with
  | none => exact walks_pure _
  | some s => exact Walks.bind (walks_attempt (hev.stmt s h)) fun r => walks_bodyValue r

theorem walks_callFunction (hev : EvaluatesByMoves P ev) {f : FunctionObject}
    (hf : Function.Bears P f.decl) (receiver : Option ScopeId) (args : List Value) :
    Walks P (callFunction ev f receiver args span) := by
  unfold callFunction
  split
  · intro m hm
    have henter : Deed P m (m.onEnv (·.pushChildOf f.scope)) := .enterNew f.scope
    obtain ⟨hlt, hframe⟩ := current_onEnv_pushChildOf m f.scope
    have hm' := henter.move.bears hm
    have hbody : WalksAt P (do
        bindParams span f.decl.params args
        runBody ev f.decl.body) (m.onEnv (·.pushChildOf f.scope)) fun _ _ => True :=
      WalksAt.bind hm' (walksAt_bindParams args hf.params hm' hlt hframe)
        fun _ m' _ hm' _ => walks_runBody hev hf.body m' hm'
    exact (WalksAt.within henter hbody).walks
  · refine Walks.bind (walks_read _) fun nf => ?_
    split
    · exact walks_callNative _ _ _
    · exact walks_fail _ _

/-! ## Instances -/

theorem walks_baseInstance (hev : EvaluatesByMoves P ev) {base : Option (Expr Name)}
    (h : Bears P (Expr?.binders base)) : Walks P (baseInstance ev base) := by
  cases base with
  | none => exact walks_pure _
  | some e =>
      refine Walks.bind (hev.expr e h) fun v => ?_
      split
      · exact walks_pure _
      · exact walks_pure _
      · exact walks_failShowing _ _ _

/-- The parameters that are members come from a scope that is no instance. -/
theorem walksAt_memberParams {paramScope : ScopeId} (s : ScopeId)
    (ps : List (Param Name (Expr Name))) (m : Interpreter) (hm : m.Bears P)
    (hps : ∃ c ∈ m.classes, ps ⊆ c.decl.params) (hlt : paramScope.index < m.env.scopes.size)
    (hframe : (m.env.scopes.get paramScope).frame = none) :
    WalksAt P (memberParams paramScope s ps) m fun _ _ => True := by
  induction ps generalizing m with
  | nil => exact ⟨.refl, trivial⟩
  | cons p ps ih =>
      obtain ⟨c, hc, hsubset⟩ := hps
      have htakes : m.Takes p.name := ⟨c, hc, p, hsubset List.mem_cons_self, rfl⟩
      refine WalksAt.bind (Q := fun _ _ => True) hm ?_ fun _ m' hmoves hm' _ => ?_
      · unfold memberParam
        split
        · exact ⟨.refl, trivial⟩
        · refine WalksAt.read_bind ?_
          split
          next r hr => exact ⟨.single (.param hframe hr htakes), trivial⟩
          · exact ⟨.refl, trivial⟩
      · have hevolves := hmoves.evolves
        obtain ⟨i, hi⟩ := Array.mem_iff_getElem?.mp hc
        have hc' := Array.mem_of_getElem? (hevolves.classes i c hi)
        exact ih m' hm' ⟨c, hc', fun _ hp => hsubset (List.mem_cons_of_mem _ hp)⟩
          (Nat.lt_of_lt_of_le hlt hevolves.scopes.size_le) (hevolves.frame_none hlt hframe)

/-- The native state goes to an instance of a native class. -/
theorem walksAt_nativePart {c : ClassObject} {id : ClassId} {s : ScopeId} (hm : m.Bears P)
    (hs : m.InstanceOf s id) (hc : m.classes[id.index]? = some c) :
    WalksAt P (nativePart c s span) m fun _ _ => True := by
  unfold nativePart
  split
  · exact ⟨.refl, trivial⟩
  next nativeId hnative =>
    refine WalksAt.read_bind ?_
    split
    · exact .refl
    · refine WalksAt.bind hm (walks_native _ m hm) fun state m' hmoves _ _ => ?_
      refine ⟨.single (.state (hmoves.evolves.instanceOf hs)
        (hmoves.evolves.classes _ _ hc) ?_), trivial⟩
      rw [hnative]
      exact nofun

/-- The initializers of an instance give it the members that they link. -/
theorem walksAt_runInitializers (hev : EvaluatesByMoves P ev) (init : List (Stmt Name))
    (h : Bears P (Stmts.binders init)) (m : Interpreter) (hm : m.Bears P)
    (hlt : m.env.current.index < m.env.scopes.size) :
    WalksAt P (runInitializers ev init) m fun _ m' => m'.LinksAll m.env.current init := by
  induction init generalizing m with
  | nil => exact ⟨.refl, fun _ _ _ hmem => (List.not_mem_nil hmem).elim⟩
  | cons s init ih =>
      obtain ⟨hs, hinit⟩ := bears_append.mp h
      have hstmt := WalksAt.framed (hev.stmt s hs m hm) (hev.framed.stmt s m trivial)
      unfold WalksAt at hstmt ⊢
      rw [runInitializers, bind_apply]
      unfold attempt
      cases hdone : ev.stmt s m with
      | done _ m₁ =>
          rw [hdone] at hstmt
          obtain ⟨hmoves, -, hstack⟩ := hstmt
          have hcurrent := Environment.current_of_stack hstack
          have hlt₁ : m₁.env.current.index < m₁.env.scopes.size :=
            Nat.lt_of_lt_of_le (hcurrent ▸ hlt) hmoves.moves.evolves.scopes.size_le
          refine WalksTo.behind (WalksTo.imp (ih hinit m₁ (hmoves.moves.bears hm) hlt₁) ?_) hmoves
          intro _ m' hmoves' hlinks span decl n hmem hlinked hname htext
          rcases List.mem_cons.mp hmem with rfl | hmem
          · have htext' : m.text n ≠ discarded := (hmoves.moves.trans hmoves').text ▸ htext
            exact hmoves'.links (hev.links span decl n m m₁ hlt hlinked hname htext' hdone)
          · exact hcurrent ▸ hlinks span decl n hmem hlinked hname htext
      | raised signal m₁ =>
          rw [hdone] at hstmt
          cases signal <;> exact hstmt
      | unfinished => trivial

/-- An instance is filled in its own scope. -/
theorem walksAt_fillInstance (hev : EvaluatesByMoves P ev) {id : ClassId} {c : ClassObject}
    {paramScope s : ScopeId} (hbears : Class.Bears P c.decl) (hm : m.Bears P)
    (hc : m.classes[id.index]? = some c) (hs : m.InstanceOf s id)
    (hlt : paramScope.index < m.env.scopes.size)
    (hframe : (m.env.scopes.get paramScope).frame = none) :
    WalksAt P (fillInstance ev c paramScope s span) m fun _ m' => m'.LinksAll s c.decl.init := by
  have henter : Deed P m (m.onEnv (·.push s)) := .enter s
  have hbody : WalksAt P (do
      memberParams paramScope s c.decl.params
      nativePart c s span
      runInitializers ev c.decl.init) (m.onEnv (·.push s))
        fun _ m' => m'.LinksAll s c.decl.init := by
    have hm' := henter.move.bears hm
    have hps : ∃ c' ∈ m.classes, c.decl.params ⊆ c'.decl.params :=
      ⟨c, Array.mem_of_getElem? hc, List.Subset.refl _⟩
    refine WalksAt.bind hm' (WalksAt.framed
      (walksAt_memberParams s c.decl.params _ hm' hps hlt hframe)
      (Logic.memberParams c.decl.params _ trivial trivial)) fun _ m₁ hmoves₁ hm₁ hstack₁ => ?_
    refine WalksAt.bind hm₁ (WalksAt.framed (walksAt_nativePart hm₁ (hmoves₁.evolves.instanceOf hs)
      (hmoves₁.evolves.classes _ _ hc)) (Logic.nativePart trivial trivial))
      fun _ m₂ hmoves₂ hm₂ hstack₂ => ?_
    have hcurrent : m₂.env.current = s :=
      Environment.current_of_stack (hstack₂.2.trans hstack₁.2)
    have hlt₂ := (((hmoves₁.trans hmoves₂).evolves).instanceOf hs).index_lt
    have hinit := walksAt_runInitializers hev c.decl.init hbears.init m₂ hm₂ (hcurrent.symm ▸ hlt₂)
    rwa [hcurrent] at hinit
  refine WalksTo.imp (WalksAt.within henter hbody) ?_
  rintro _ _ - ⟨inner, hinner, rfl⟩
  exact Moves.linksAll (P := P) (.single .leave) hinner

theorem walksAt_construct (hev : EvaluatesByMoves P ev) {id : ClassId} {c : ClassObject}
    (args : List Value) (primitive : Option Primitive) (hbears : Class.Bears P c.decl)
    (hm : m.Bears P) (hc : m.classes[id.index]? = some c)
    (hlt : m.env.current.index < m.env.scopes.size)
    (hframe : (m.env.scopes.get m.env.current).frame = none) :
    WalksAt P (construct ev id c args primitive span) m
      fun made m' => m'.Made made.1 id c primitive ∧ m'.HasBase made.1 made.2 := by
  refine WalksAt.bind hm (WalksAt.framed (walksAt_bindParams args hbears.params hm hlt hframe)
    (Logic.bindParams c.decl.params args m trivial fun v _ => v.within_all))
    fun _ m₁ hmoves₁ hm₁ hstack => WalksAt.read_bind ?_
  rw [Environment.current_of_stack hstack.2]
  refine WalksAt.bind hm₁ (walks_baseInstance hev hbears.base m₁ hm₁)
    fun base m₂ hmoves₂ hm₂ _ => WalksAt.read_bind ?_
  refine WalksAt.bind hm₂ (walksAt_createInstance _ _ _ m₂) fun s m₃ hmoves₃ hm₃ hs => ?_
  have hevolves := ((hmoves₁.trans hmoves₂).trans hmoves₃).evolves
  have hinst : m₃.InstanceOf s id := congrArg (Option.map Frame.cls) hs
  have hc₃ := hevolves.classes _ _ hc
  refine WalksAt.bind hm₃ (walksAt_fillInstance hev hbears hm₃ hc₃ hinst
    (Nat.lt_of_lt_of_le hlt hevolves.scopes.size_le) (hevolves.frame_none hlt hframe))
    fun _ m₄ hmoves₄ _ hlinks => ⟨.refl, ⟨hmoves₄.evolves.classes _ _ hc₃,
      hmoves₄.evolves.instanceOf hinst, hlinks, fun hnative p hp => ?_⟩,
      hmoves₄.evolves.hasBase (congrArg (Option.map Frame.base) hs)⟩
  unfold Objects.payload?
  rw [show m₄.objects.scopes = m₄.env.scopes from rfl, hmoves₄.frame hinst hc₃ hnative, hs, hp]
  rfl

/-- An instance is made in a new scope, one of its class with the base that it was created with. -/
theorem walksAt_inChildOf_construct (hev : EvaluatesByMoves P ev) {id : ClassId} {c : ClassObject}
    (args : List Value) (primitive : Option Primitive) (hbears : Class.Bears P c.decl)
    (hm : m.Bears P) (hc : m.classes[id.index]? = some c) :
    WalksAt P (inChildOf c.scope (construct ev id c args primitive span)) m
      fun made m' => m'.Made made.1 id c primitive ∧ m'.HasBase made.1 made.2 := by
  have henter : Deed P m (m.onEnv (·.pushChildOf c.scope)) := .enterNew c.scope
  obtain ⟨hlt, hframe⟩ := current_onEnv_pushChildOf m c.scope
  refine WalksTo.imp (WalksAt.within henter (walksAt_construct hev args primitive hbears
    (henter.move.bears hm) hc hlt hframe)) ?_
  rintro made _ - ⟨inner, ⟨hinner, hbase⟩, rfl⟩
  exact ⟨Moves.made (P := P) (.single .leave) hinner,
    (Interpreter.Evolves.leave inner).hasBase hbase⟩

/-- An instance that is made is one of its class, and stays what it was made as. -/
theorem walksAt_instantiate (hev : EvaluatesByMoves P ev) {id : ClassId} {c : ClassObject}
    (args : List Value) (primitive : Option Primitive) (hbears : Class.Bears P c.decl)
    (hm : m.Bears P) (hc : m.classes[id.index]? = some c) :
    WalksAt P (instantiate ev id c args primitive span) m fun s m' => m'.Made s id c primitive := by
  refine WalksAt.bind hm (walksAt_inChildOf_construct hev args primitive hbears hm hc)
    fun made m₁ _ hm₁ ⟨hmade₁, hbase₁⟩ => ?_
  refine WalksAt.bind hm₁ (walks_defineThis made.1 m₁ hm₁) fun _ m₂ hmoves₂ hm₂ _ => ?_
  refine WalksAt.bind hm₂ (walksAt_defineBase (hmoves₂.evolves.hasBase hbase₁))
    fun _ m₃ hmoves₃ _ _ => ?_
  exact ⟨.refl, (hmoves₂.trans hmoves₃).made hmade₁⟩

/-- A class that is called gives an instance of it. -/
theorem walksAt_invokeClass (hev : EvaluatesByMoves P ev) (id : ClassId)
    {args : List (Arg Name (Expr Name))} (hargs : Bears P (Args.binders args)) (hm : m.Bears P) :
    WalksAt P (invokeClass ev id args span) m fun s m' => m'.InstanceOf s id := by
  refine WalksAt.read_bind ?_
  split
  · trivial
  next c hc =>
    have hbears := hm.classes c (Array.mem_of_getElem? hc)
    refine WalksAt.bind hm (walks_arguments hev c.name hbears.params hargs m hm)
      fun values m₁ hmoves₁ hm₁ _ => ?_
    exact WalksTo.imp (walksAt_instantiate hev values none hbears hm₁
      (hmoves₁.evolves.classes _ _ hc)) fun s m' _ hmade => hmade.inst

theorem walks_invokeClass (hev : EvaluatesByMoves P ev) (id : ClassId)
    {args : List (Arg Name (Expr Name))} (hargs : Bears P (Args.binders args)) :
    Walks P (invokeClass ev id args span) :=
  fun _ hm => WalksTo.walks (walksAt_invokeClass hev id hargs hm)

/-! ## Classes, objects and enums -/

theorem walks_declareClass {decl : Class Name} (h : Bears P (Class.binders .cls decl)) :
    Walks P (declareClass decl span) :=
  Walks.bind (fun m _ => WalksTo.walks (walksAt_makeClass h m)) fun _ =>
    walks_bindName (Class.bears_name h) nofun _

theorem walks_declareObject (hev : EvaluatesByMoves P ev) {decl : Class Name}
    (h : Bears P (Class.binders .object decl)) : Walks P (declareObject ev decl span) :=
  Walks.bind (fun m _ => WalksTo.walks (walksAt_makeClass h m)) fun c =>
    Walks.bind (walks_invokeClass hev c bears_nil) fun _ =>
      walks_bindName (Class.bears_name h) nofun _

/-- The entries of an enum are instances of its class, and members of an instance of it. -/
theorem walksAt_enumEntries (hev : EvaluatesByMoves P ev) (c : ClassId) (s : ScopeId)
    (entries : List (EnumEntry Name (Expr Name))) (h : Bears P (Entries.binders entries))
    (m : Interpreter) (hm : m.Bears P) (hs : m.InstanceOf s c) :
    WalksAt P (enumEntries ev c s entries) m fun _ _ => True := by
  induction entries generalizing m with
  | nil => exact ⟨.refl, trivial⟩
  | cons entry entries ih =>
      obtain ⟨⟨hname, hargs⟩, hentries⟩ := List.forall_mem_cons.mp (bears_entries.mp h)
      refine WalksAt.bind hm (walksAt_invokeClass hev c hargs hm)
        fun made m₁ hmoves₁ hm₁ hmade => WalksAt.read_bind ?_
      refine WalksAt.bind hm₁ (walks_defineLabel (by decide) made _ m₁ hm₁)
        fun _ m₂ hmoves₂ hm₂ _ => ?_
      refine WalksAt.bind hm₂ (walks_defineLabel (by decide) made _ m₂ hm₂)
        fun _ m₃ hmoves₃ hm₃ _ => WalksAt.read_bind ?_
      have hevolves := (hmoves₂.trans hmoves₃).evolves
      have hs₃ := hevolves.instanceOf (hmoves₁.evolves.instanceOf hs)
      have hentry : Deed P m₃ (m₃.onEnv (·.define s entry.name (.constant (.inst made)))) :=
        .entry hname hs₃ (hevolves.instanceOf hmade)
      split
      · exact Relation.ReflTransGen.refl
      · refine WalksAt.bind (Q := fun _ m' => m'.InstanceOf s c) hm₃
          ⟨.single hentry, hentry.move.evolves.instanceOf hs₃⟩ fun _ m₄ _ hm₄ hs₄ => ?_
        exact ih (bears_entries.mpr hentries) m₄ hm₄ hs₄

theorem walks_declareEnum (hev : EvaluatesByMoves P ev) {decl : Enum Name}
    (hcls : Bears P (Class.binders .enum decl.cls))
    (hentries : Bears P (Entries.binders decl.entries)) :
    Walks P (declareEnum ev decl span) := by
  intro m hm
  refine WalksAt.bind hm (walksAt_makeClass hcls m) fun c m₁ _ hm₁ _ => ?_
  refine WalksAt.bind hm₁ (walksAt_createInstance c none none m₁) fun s m₂ _ hm₂ hs => ?_
  have hinst : m₂.InstanceOf s c := congrArg (Option.map Frame.cls) hs
  refine WalksAt.bind hm₂ (walksAt_enumEntries hev c s decl.entries hentries m₂ hm₂ hinst)
    fun _ m₃ _ hm₃ _ => ?_
  exact walks_bindName (Class.bears_name hcls) nofun _ m₃ hm₃

/-! ## Members -/

/-- An instance that is kept for a primitive was made for it. -/
theorem walks_wrap (hev : EvaluatesByMoves P ev) (p : Primitive) : Walks P (wrap ev p span) := by
  intro m hm
  refine WalksAt.read_bind ?_
  split
  · exact ⟨.refl, trivial⟩
  next hnew =>
    refine WalksAt.read_bind ?_
    split
    · exact ⟨.refl, trivial⟩
    next id c hfound =>
      obtain ⟨id', hid, hfound⟩ := Option.bind_eq_some_iff.mp hfound
      obtain ⟨c', hc, hpair⟩ := Option.map_eq_some_iff.mp hfound
      cases hpair
      have hbears := hm.classes c (Array.mem_of_getElem? hc)
      have hmade : WalksTo P m (instantiate ev id c [] (some p) span m)
          fun s m' => m'.Made s id c (some p) := walksAt_instantiate hev [] (some p) hbears hm hc
      obtain ⟨bound, rfl⟩ := hev.bounded
      show WalksTo P m ((instantiate _ id c [] (some p) span >>= _) m) _
      rw [bind_apply]
      cases hrun : instantiate (evaluator bound) id c [] (some p) span m with
      | done s m₁ =>
          rw [hrun] at hmade
          obtain ⟨hmoves, hmade⟩ := hmade
          have hwraps : m₁.Wraps p s := .made hmoves.moves.evolves hmoves.moves.interner
            hmoves.moves.linker hnew hid hc hmade hrun
          exact ⟨hmoves.tail (.wrapper hwraps), trivial⟩
      | raised signal m₁ =>
          rw [hrun] at hmade
          exact hmade
      | unfinished => trivial

theorem walks_instanceOf (hev : EvaluatesByMoves P ev) (v : Value) :
    Walks P (instanceOf ev v span) := by
  unfold instanceOf
  split
  · exact walks_pure _
  · split
    · exact walks_wrap hev _
    · exact walks_pure _

theorem walks_memberOf (hev : EvaluatesByMoves P ev) (target : Value) (n : Name) :
    Walks P (memberOf ev target n span) := by
  refine Walks.bind (walks_instanceOf hev target) fun s => Walks.bind (walks_read _) fun v => ?_
  split
  · exact walks_pure _
  · exact Walks.bind (walks_read _) fun text => walks_failShowing _ _ _

end IslandScript.Eval
