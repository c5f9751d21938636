import IslandScript.Eval.Member
import IslandScript.Proofs.Argument.Delivery
import IslandScript.Proofs.Place.Judgement

/-!
# Where calls fail

The first half of the way through the evaluator: arguments, calls, instances and members. A call
fails at its own place, or where the code of what it calls does. A native knows no place, so its
errors are where it was called.
-/

namespace IslandScript.Eval

/-- An evaluator that fails where the trees do that it evaluates. -/
structure EvaluatesPlaced (P : Places) (ev : Evaluator) : Prop where
  expr : ∀ e, Covers P.code e.spans → Placed P (ev.expr e)
  stmt : ∀ s, Covers P.code s.spans → Placed P (ev.stmt s)

variable {P : Places} {ev : Evaluator} {span : Span}

/-! ## Arguments -/

theorem placed_exprs (hev : EvaluatesPlaced P ev) (es : List (Expr Name))
    (h : Covers P.code (Exprs.spans es)) : Placed P (exprs ev es) := by
  induction es with
  | nil => exact placed_pure []
  | cons e es ih =>
      obtain ⟨he, hes⟩ := covers_append.mp h
      refine Placed.bind (hev.expr e he) fun v => ?_
      exact Placed.bind (ih hes) fun vs => placed_pure _

theorem placed_itemsOf (marked : Bool) (v : Value) (h : P.fault span) :
    Placed P (itemsOf marked v span) := by
  unfold itemsOf
  split
  · exact placed_spread v h
  · exact placed_pure _

theorem placed_spreadArgs (hev : EvaluatesPlaced P ev) (args : List (Arg Name (Expr Name)))
    (h : Covers P.code (Args.spans args)) : Placed P (spreadArgs ev args) := by
  induction args with
  | nil => exact placed_pure []
  | cons a args ih =>
      obtain ⟨⟨ha, he⟩, hargs⟩ := List.forall_mem_cons.mp (covers_args.mp h)
      refine Placed.bind (hev.expr a.expr he) fun v => ?_
      refine Placed.bind (placed_itemsOf _ v (P.fault_of_code _ ha)) fun items => ?_
      exact Placed.bind (ih (covers_args.mpr hargs)) fun vs => placed_pure _

theorem placed_restArgs (hev : EvaluatesPlaced P ev) (items : List (Bool × Expr Name))
    (h : ∀ item ∈ items, Covers P.code item.2.spans) : Placed P (restArgs ev items) := by
  induction items with
  | nil => exact placed_pure []
  | cons item items ih =>
      obtain ⟨he, hitems⟩ := List.forall_mem_cons.mp h
      refine Placed.bind (hev.expr item.2 he) fun v => ?_
      have hspan := Expr.fault_of_covers he
      refine Placed.bind (placed_itemsOf _ v hspan) fun vs => ?_
      exact Placed.bind (ih hitems) fun rest => placed_pure _

theorem placed_resolvedArgs (hev : EvaluatesPlaced P ev) (entries : List (Resolved (Expr Name)))
    (h : ∀ e ∈ entries.flatMap Resolved.exprs, Covers P.code e.spans) :
    Placed P (resolvedArgs ev entries) := by
  induction entries with
  | nil => exact placed_pure []
  | cons entry entries ih =>
      rw [List.flatMap_cons] at h
      obtain ⟨hentry, hentries⟩ := List.forall_mem_append.mp h
      cases entry with
      | single e =>
          refine Placed.bind (hev.expr e (hentry e (List.mem_singleton_self e))) fun v => ?_
          exact Placed.bind (ih hentries) fun vs => placed_pure _
      | rest items =>
          have hitems : ∀ item ∈ items, Covers P.code item.2.spans := fun item hi =>
            hentry _ (List.mem_map_of_mem hi)
          refine Placed.bind (placed_restArgs hev items hitems) fun values => ?_
          refine Placed.bind (placed_newList values) fun v => ?_
          exact Placed.bind (ih hentries) fun vs => placed_pure _

/-- The expressions that are evaluated for a call are of its arguments or of the parameters. -/
theorem placed_arguments (hev : EvaluatesPlaced P ev) {params : List (Param Name (Expr Name))}
    {args : List (Arg Name (Expr Name))} (name : String)
    (hparams : Covers P.code (Params.spans params)) (hargs : Covers P.code (Args.spans args))
    (h : P.fault span) : Placed P (arguments ev params name args span) := by
  unfold arguments
  split
  · exact gives_fail h
  next entries hresolve =>
    obtain ⟨defaults, hperm, hdefaults⟩ := Arguments.exprs_of_resolve hresolve
    refine placed_resolvedArgs hev entries fun e he => ?_
    rcases List.mem_append.mp (hperm.mem_iff.mp he) with hkept | hdefault
    · obtain ⟨a, ha, rfl⟩ := List.mem_map.mp hkept
      exact (covers_args.mp hargs a (Arguments.mem_of_mem_kept ha)).2
    · obtain ⟨p, hp, hd⟩ := hdefaults e hdefault
      exact covers_expr?.mp (covers_params.mp hparams p hp) e hd

/-! ## Functions -/

/-- A function that is found among those kept has its code at places of code. -/
theorem gives_readFunction (id : FunctionId) :
    Gives P (read (·.functions[id.index]?)) fun f? =>
      ∀ f, f? = some f → Covers P.code (Function.spans f.decl) :=
  gives_read fun _ hm f hf => hm.functions f (Array.mem_of_getElem? hf)

theorem placed_bodyValue {r : Except Signal Unit} (hr : Caught P r) (h : P.fault span) :
    Placed P (bodyValue span r) := by
  unfold bodyValue
  split
  · exact placed_pure _
  · exact placed_pure _
  · exact gives_fail h
  · exact gives_fail h
  · exact gives_raise (hr _ rfl)

theorem placed_runBody (hev : EvaluatesPlaced P ev) {body : Option (Stmt Name)}
    (h : Covers P.code (Stmt?.spans body)) : Placed P (runBody ev body) := by
  cases body with
  | none => exact placed_pure _
  | some s =>
      refine Gives.bind (gives_attempt (hev.stmt s h)) fun r hr => ?_
      exact placed_bodyValue hr (Stmt.fault_of_covers h)

theorem placed_callFunction (hev : EvaluatesPlaced P ev) {f : FunctionObject}
    (hf : Covers P.code (Function.spans f.decl)) (receiver : Option ScopeId) (args : List Value)
    (h : P.fault span) : Placed P (callFunction ev f receiver args span) := by
  unfold callFunction
  split
  · refine placed_within _ (Placed.bind (placed_bindParams _ _ h) fun _ => ?_)
    exact placed_runBody hev (covers_function.mp hf).2.2
  · refine Placed.bind (placed_read _) fun nf => ?_
    split
    · exact placed_callNative _ _ _ h
    · exact gives_failLink

/-! ## Classes -/

theorem placed_baseInstance (hev : EvaluatesPlaced P ev) {base : Option (Expr Name)}
    (h : Covers P.code (Expr?.spans base)) : Placed P (baseInstance ev base) := by
  cases base with
  | none => exact placed_pure _
  | some e =>
      refine Placed.bind (hev.expr e h) fun v => ?_
      split
      · exact placed_pure _
      · exact placed_pure _
      · exact gives_failShowing (Expr.fault_of_covers h)

theorem placed_runInitializers (hev : EvaluatesPlaced P ev) (init : List (Stmt Name))
    (h : Covers P.code (Stmts.spans init)) : Placed P (runInitializers ev init) := by
  induction init with
  | nil => exact placed_pure _
  | cons s init ih =>
      obtain ⟨hs, hinit⟩ := covers_append.mp h
      have hspan := Stmt.fault_of_covers hs
      refine Gives.bind (gives_attempt (hev.stmt s hs)) fun r hr => ?_
      split
      · exact ih hinit
      · exact gives_fail hspan
      · exact gives_fail hspan
      · exact gives_fail hspan
      · exact gives_raise (hr _ rfl)

theorem placed_construct (hev : EvaluatesPlaced P ev) (id : ClassId) {c : ClassObject}
    (hc : Covers P.code (Class.spans c.decl)) (args : List Value) (primitive : Option Primitive)
    (h : P.fault span) : Placed P (construct ev id c args primitive span) := by
  obtain ⟨-, -, hbase, hinit⟩ := covers_class.mp hc
  refine Placed.bind (placed_bindParams _ _ h) fun _ => ?_
  refine Placed.bind (placed_read _) fun paramScope => ?_
  refine Placed.bind (placed_baseInstance hev hbase) fun base => ?_
  refine Placed.bind (placed_read _) fun inherited => ?_
  refine Placed.bind (placed_createInstance _ _ _) fun s => ?_
  refine Placed.bind (placed_within _ ?_) fun _ => placed_pure _
  refine Placed.bind (placed_memberParams _ _ _) fun _ => ?_
  refine Placed.bind (placed_nativePart _ _ h) fun _ => ?_
  exact placed_runInitializers hev _ hinit

theorem placed_instantiate (hev : EvaluatesPlaced P ev) (id : ClassId) {c : ClassObject}
    (hc : Covers P.code (Class.spans c.decl)) (args : List Value) (primitive : Option Primitive)
    (h : P.fault span) : Placed P (instantiate ev id c args primitive span) := by
  refine Placed.bind (placed_within _ (placed_construct hev id hc args primitive h)) fun made => ?_
  refine Placed.bind (placed_define _ _ _) fun _ => ?_
  exact Placed.bind (placed_defineBase _ _) fun _ => placed_pure _

/-- A class that is found among those kept has its code at places of code. -/
theorem gives_readClass (id : ClassId) :
    Gives P (read (·.classes[id.index]?)) fun c? =>
      ∀ c, c? = some c → Covers P.code (Class.spans c.decl) :=
  gives_read fun _ hm c hc => hm.classes c (Array.mem_of_getElem? hc)

theorem placed_invokeClass (hev : EvaluatesPlaced P ev) (id : ClassId)
    {args : List (Arg Name (Expr Name))} (hargs : Covers P.code (Args.spans args))
    (h : P.fault span) : Placed P (invokeClass ev id args span) := by
  refine Gives.bind (gives_readClass id) fun c? hc => ?_
  split
  · exact gives_unfinished
  next c =>
    have hc := hc c rfl
    refine Placed.bind (placed_arguments hev c.name (covers_class.mp hc).2.1 hargs h) fun vs => ?_
    exact placed_instantiate hev id hc vs none h

theorem placed_declareClass {decl : Class Name} (hdecl : Covers P.code (Class.spans decl))
    (h : P.fault span) : Placed P (declareClass decl span) :=
  Placed.bind (placed_makeClass hdecl) fun _ => placed_bindName _ _ h

theorem placed_declareObject (hev : EvaluatesPlaced P ev) {decl : Class Name}
    (hdecl : Covers P.code (Class.spans decl)) (h : P.fault span) :
    Placed P (declareObject ev decl span) := by
  refine Placed.bind (placed_makeClass hdecl) fun c => ?_
  refine Placed.bind (placed_invokeClass hev c covers_nil h) fun s => ?_
  exact placed_bindName _ _ h

theorem placed_enumEntries (hev : EvaluatesPlaced P ev) (c : ClassId) (s : ScopeId)
    (entries : List (EnumEntry Name (Expr Name))) (h : Covers P.code (Entries.spans entries)) :
    Placed P (enumEntries ev c s entries) := by
  induction entries with
  | nil => exact placed_pure _
  | cons entry entries ih =>
      obtain ⟨⟨hspan, hargs⟩, hentries⟩ := List.forall_mem_cons.mp (covers_entries.mp h)
      have hspan := P.fault_of_code _ hspan
      refine Placed.bind (placed_invokeClass hev c hargs hspan) fun made => ?_
      refine Placed.bind (placed_read _) fun text => ?_
      refine Placed.bind (placed_define _ _ _) fun _ => ?_
      refine Placed.bind (placed_define _ _ _) fun _ => ?_
      refine Placed.bind (placed_read _) fun r => ?_
      split
      · exact gives_fail hspan
      · exact Placed.bind (placed_define _ _ _) fun _ => ih (covers_entries.mpr hentries)

theorem placed_declareEnum (hev : EvaluatesPlaced P ev) {decl : Enum Name}
    (hcls : Covers P.code (Class.spans decl.cls)) (hentries : Covers P.code (Entries.spans decl.entries))
    (h : P.fault span) : Placed P (declareEnum ev decl span) := by
  refine Placed.bind (placed_makeClass hcls) fun c => ?_
  refine Placed.bind (placed_createInstance _ _ _) fun s => ?_
  refine Placed.bind (placed_enumEntries hev c s _ hentries) fun _ => ?_
  exact placed_bindName _ _ h

/-! ## Members -/

theorem placed_wrap (hev : EvaluatesPlaced P ev) (p : Primitive) (h : P.fault span) :
    Placed P (wrap ev p span) := by
  refine Placed.bind (placed_read _) fun s => ?_
  split
  · exact placed_pure _
  · have hfound : Gives P
        (read fun m => (wrapperClass? m p).bind fun id => (m.classes[id.index]?).map (id, ·))
        fun found => ∀ id c, found = some (id, c) → Covers P.code (Class.spans c.decl) := by
      refine gives_read fun m hm id c hfound => ?_
      obtain ⟨id', -, hc⟩ := Option.bind_eq_some_iff.mp hfound
      obtain ⟨c', hc', ⟨⟩⟩ := Option.map_eq_some_iff.mp hc
      exact hm.classes c (Array.mem_of_getElem? hc')
    refine Gives.bind hfound fun found hfound => ?_
    split
    · exact placed_pure _
    next id c =>
      refine Placed.bind (placed_instantiate hev id (hfound id c rfl) [] _ h) fun s => ?_
      refine Placed.bind (placed_change fun _ hm => ⟨hm.functions, hm.classes⟩) fun _ => ?_
      exact placed_pure _

theorem placed_memberOf (hev : EvaluatesPlaced P ev) (target : Value) (n : Name)
    (h : P.fault span) : Placed P (memberOf ev target n span) := by
  have hinstance : Placed P (instanceOf ev target span) := by
    unfold instanceOf
    split
    · exact placed_pure _
    · split
      · exact placed_wrap hev _ h
      · exact placed_pure _
  refine Placed.bind hinstance fun s => Placed.bind (placed_read _) fun v? => ?_
  split
  · exact placed_pure _
  · exact Placed.bind (placed_read _) fun _ => gives_failShowing h

end IslandScript.Eval
