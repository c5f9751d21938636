import IslandScript.Command.Characters
import IslandScript.Proofs.Landing.Evaluator
import IslandScript.Proofs.Move.Evaluator
import IslandScript.Proofs.Parser.Declarations.Program
import IslandScript.Proofs.Syntax.Names

/-!
# Entries of enums

An entry of an enum is an instance of the enum's class, made by a call like any other. Only then it
is given its name and its place as members, where it does not have members of these names already.
What it may have by then is what lands in an instance (`Class.lands`): a parameter with a marker
that is called `name` or `ordinal` takes the place of the member, and nothing else does.
-/

namespace IslandScript

open Eval

variable {m m' : Interpreter} {c : ClassId} {s e : ScopeId} {decl : Class Name}
variable {entry : EnumEntry Name (Expr Name)} {ev : Evaluator}

namespace Interpreter

/-- An instance is given the name and the place of an entry as members. -/
def identify (m : Interpreter) (e : ScopeId) (entry : EnumEntry Name (Expr Name)) : Interpreter :=
  (m.onEnv (·.define e Name.name (.constant (.string (m.text entry.name))))).onEnv
    (·.define e Name.ordinal (.constant (.ofSize entry.ordinal)))

/-- An instance has the name and the place of an entry as members, unless these names land in the
instances of its class. -/
structure Identified (m : Interpreter) (decl : Class Name) (entry : EnumEntry Name (Expr Name))
    (e : ScopeId) : Prop where
  name : ¬m.Admits (Class.lands decl) Name.name →
    m.env.scopes.own? e Name.name = some (.constant (.string (m.text entry.name)))
  ordinal : ¬m.Admits (Class.lands decl) Name.ordinal →
    m.env.scopes.own? e Name.ordinal = some (.constant (.ofSize entry.ordinal))

/-- A member of an instance is an entry of an enum: an instance of the enum's class with a name and
a place of its own. -/
structure HasEntry (m : Interpreter) (decl : Class Name) (c : ClassId) (s : ScopeId)
    (entry : EnumEntry Name (Expr Name)) (e : ScopeId) : Prop where
  inst : m.InstanceOf e c
  identified : m.Identified decl entry e
  member : m.env.scopes.own? s entry.name = some (.constant (.inst e))

theorem moves_identify {P : Binder Name → Prop} (m : Interpreter) (e : ScopeId)
    (entry : EnumEntry Name (Expr Name)) : Moves P m (m.identify e entry) :=
  .head (.fixed (by decide)) (.single (.fixed (by decide)))

end Interpreter

/-! ## One entry -/

/-- A name that does not land in an instance is free in a new one. -/
theorem Eval.NewInstance.own?_eq_none {n : Name} (h : NewInstance m decl e m')
    (hn : n ∉ [Name.this, Name.base]) (hadmits : ¬m'.Admits (Class.lands decl) n) :
    m'.env.scopes.own? e n = none := by
  cases hown : m'.env.scopes.own? e n with
  | none => rfl
  | some r => exact ((h.own n (Option.isSome_iff_exists.mpr ⟨r, hown⟩)).elim hn hadmits).elim

/-- Where its name and its place are free, an instance is given both. -/
theorem Eval.NewInstance.identified (h : NewInstance m decl e m')
    (entry : EnumEntry Name (Expr Name)) : (m'.identify e entry).Identified decl entry e := by
  let named := m'.onEnv (·.define e Name.name (.constant (.string (m'.text entry.name))))
  have hnamed : Moves (fun _ => True) m' named := .single (.fixed (by decide))
  have hplaced : Moves (fun _ => True) named (m'.identify e entry) := .single (.fixed (by decide))
  refine ⟨fun hadmits => ?_, fun hadmits => ?_⟩
  · have hfree := h.own?_eq_none (by decide) fun h' =>
      hadmits (h'.evolves (hnamed.trans hplaced).evolves)
    exact hplaced.evolves.own_constant (Environment.own?_define_self h.created hfree)
  · have hfree := h.own?_eq_none (n := Name.ordinal) (by decide) fun h' =>
      hadmits (h'.evolves (hnamed.trans hplaced).evolves)
    -- The name, which was defined before, is another member.
    have hfree' : named.env.scopes.own? e Name.ordinal = none := by
      cases hown : named.env.scopes.own? e Name.ordinal with
      | none => rfl
      | some r =>
          rcases Environment.own?_define_cases hown with ⟨-, hname, -⟩ | hown
          · cases hname
          · exact absurd (hfree.symm.trans hown) nofun
    have hcreated := Nat.lt_of_lt_of_le h.created hnamed.evolves.scopes.size_le
    exact Environment.own?_define_self hcreated hfree'

theorem Interpreter.Identified.moves {P : Binder Name → Prop} (h : m.Identified decl entry e)
    (hm : Moves P m m') : m'.Identified decl entry e where
  name hadmits := by
    rw [hm.text]
    exact hm.evolves.own_constant (h.name fun h' => hadmits (h'.evolves hm.evolves))
  ordinal hadmits := hm.evolves.own_constant (h.ordinal fun h' => hadmits (h'.evolves hm.evolves))

theorem Interpreter.HasEntry.moves {P : Binder Name → Prop} (h : m.HasEntry decl c s entry e)
    (hm : Moves P m m') : m'.HasEntry decl c s entry e :=
  ⟨hm.evolves.instanceOf h.inst, h.identified.moves hm, hm.evolves.own_constant h.member⟩

namespace Eval

/-- An instance that is made by a call of a class is new, and one of the class. -/
theorem done_invokeClass {k : Nat} {args : List (Arg Name (Expr Name))} {span : Span}
    (h : invokeClass (evaluator k) c args span m = .done e m') :
    Moves (fun _ => True) m m' ∧ m'.InstanceOf e c ∧
      ∃ cls, m.classes[c.index]? = some cls ∧ NewInstance m cls.decl e m' := by
  have hwalk : WalksAt (fun _ => True) (invokeClass (evaluator k) c args span) m
      fun e m' => m'.InstanceOf e c :=
    walksAt_invokeClass (evaluatesByMoves _ k) c (fun _ _ => trivial) m.bears_true
  have hlands := landsTo_invokeClass (landsTrees k) c args span m
  unfold WalksAt at hwalk
  rw [h] at hwalk hlands
  exact ⟨Deeds.moves hwalk.1, hwalk.2, hlands.2⟩

/-- An entry is made, given its name and its place, and put under its name, in this order. -/
theorem enumEntries_cons {entries : List (EnumEntry Name (Expr Name))}
    (h : invokeClass ev c entry.args entry.span m = .done e m') :
    enumEntries ev c s (entry :: entries) m =
      if ((m'.identify e entry).env.scopes.own? s entry.name).isSome then
        .raised (.failed ⟨.redefinedName (m'.text entry.name), entry.span⟩) (m'.identify e entry)
      else enumEntries ev c s entries
        ((m'.identify e entry).onEnv (·.define s entry.name (.constant (.inst e)))) := by
  rw [enumEntries, bind_done h]
  show (if ((m'.identify e entry).env.scopes.own? s entry.name).isSome then
      fail (.redefinedName (m'.text entry.name)) entry.span
    else (do
      define s entry.name (.inst e)
      enumEntries ev c s entries) : Eval Unit) (m'.identify e entry) = _
  by_cases hbound : ((m'.identify e entry).env.scopes.own? s entry.name).isSome
  · rw [if_pos hbound, if_pos hbound]
    rfl
  · rw [if_neg hbound, if_neg hbound]
    rfl

/-! ## All entries -/

/-- The entries that were made are members of the instance. -/
theorem done_enumEntries {k : Nat} {entries : List (EnumEntry Name (Expr Name))}
    (hc : ∃ cls, m.classes[c.index]? = some cls ∧ cls.decl = decl) (hs : m.InstanceOf s c)
    (h : enumEntries (evaluator k) c s entries m = .done () m') :
    Moves (fun _ => True) m m' ∧ ∀ entry ∈ entries, ∃ e, m'.HasEntry decl c s entry e := by
  induction entries generalizing m with
  | nil =>
      cases h
      exact ⟨.refl, nofun⟩
  | cons entry entries ih =>
      obtain ⟨e, m₁, hcall, -⟩ := bind_eq_done.mp h
      obtain ⟨hmoves₁, hinst, cls, hcls, hnew⟩ := done_invokeClass hcall
      obtain ⟨_, hc', rfl⟩ := hc
      obtain rfl := Option.some.inj (hcls.symm.trans hc')
      rw [enumEntries_cons hcall] at h
      have hmoves₂ : Moves (fun _ => True) m₁ (m₁.identify e entry) := m₁.moves_identify e entry
      have hs₂ := (hmoves₁.trans hmoves₂).evolves.instanceOf hs
      have hinst₂ := hmoves₂.evolves.instanceOf hinst
      split at h
      · cases h
      next hfree =>
        let m₃ := (m₁.identify e entry).onEnv (·.define s entry.name (.constant (.inst e)))
        have hmoves₃ : Moves (fun _ => True) (m₁.identify e entry) m₃ :=
          .single (.entry trivial hs₂ hinst₂)
        have hmember : m₃.env.scopes.own? s entry.name = some (.constant (.inst e)) :=
          Environment.own?_define_self hs₂.index_lt (by simpa using hfree)
        have hmoves := (hmoves₁.trans hmoves₂).trans hmoves₃
        obtain ⟨hrest, hentries⟩ := ih ⟨cls, hmoves.evolves.classes _ _ hcls, rfl⟩
          (hmoves.evolves.instanceOf hs) h
        refine ⟨hmoves.trans hrest, List.forall_mem_cons.mpr ⟨⟨e, ?_⟩, hentries⟩⟩
        have hentry : m₃.HasEntry cls.decl c s entry e :=
          ⟨hmoves₃.evolves.instanceOf hinst₂, (hnew.identified entry).moves hmoves₃, hmember⟩
        exact hentry.moves hrest

/-! ## Enums -/

theorem done_makeClass {id : ClassId} (h : makeClass decl m = .done id m') :
    ∃ native, m.addClass ⟨m.text decl.name, decl, m.env.current, native⟩ = (id, m') := by
  unfold makeClass at h
  split at h
  · split at h
    · cases h
      exact ⟨_, rfl⟩
    · cases h
  · cases h
    exact ⟨_, rfl⟩

theorem done_createInstance {base : Option ScopeId} {payload : Option Payload}
    (h : createInstance c base payload m = .done s m') :
    Moves (fun _ => True) m m' ∧ m'.InstanceOf s c ∧ m'.env.current = m.env.current := by
  cases h
  let made : Scope := ⟨[], some m.env.current, some ⟨c, base, payload⟩⟩
  have hmade : Scopes.get (m.env.scopes.push made) ⟨m.env.scopes.size⟩ = made :=
    Scopes.get_push_size
  exact ⟨.single .inst, congrArg (fun t : Scope => t.frame.map Frame.cls) hmade, rfl⟩

/-- While entries are made the current scope is the same. -/
theorem current_of_enumEntries {k : Nat} {entries : List (EnumEntry Name (Expr Name))}
    (h : enumEntries (evaluator k) c s entries m = .done () m') :
    m'.env.current = m.env.current := by
  have hframed : (enumEntries (evaluator k) c s entries m).Leaves (·.env.stack = m.env.stack) :=
    Framed.stack_eq (Logic.enumEntries (Logic.evaluates Logic.framed k) entries m trivial trivial)
  rw [h] at hframed
  exact Environment.current_of_stack hframed

/-- An enum that was declared is bound to an instance of its class, whose members are the entries.
-/
theorem done_declareEnum {k : Nat} {decl : Enum Name} {span : Span}
    (hname : m.text decl.cls.name ≠ discarded) (hcur : m.env.current.index < m.env.scopes.size)
    (h : declareEnum (evaluator k) decl span m = .done () m') :
    ∃ s cls, m'.env.own? decl.cls.name = some (.constant (.inst s)) ∧
      m'.classes[m.classes.size]? = some cls ∧ cls.decl = decl.cls ∧
      m'.InstanceOf s ⟨m.classes.size⟩ ∧
      ∀ entry ∈ decl.entries, ∃ e, m'.HasEntry decl.cls ⟨m.classes.size⟩ s entry e := by
  obtain ⟨c, m₁, hmake, h⟩ := bind_eq_done.mp h
  obtain ⟨native, hmade⟩ := done_makeClass hmake
  cases hmade
  obtain ⟨s, m₂, hcreate, h⟩ := bind_eq_done.mp h
  obtain ⟨_, m₃, hentries, hbind⟩ := bind_eq_done.mp h
  let m₁ := (m.addClass ⟨m.text decl.cls.name, decl.cls, m.env.current, native⟩).2
  have hcls : ∃ cls, m₁.classes[m.classes.size]? = some cls ∧ cls.decl = decl.cls :=
    ⟨_, Array.getElem?_push_size, rfl⟩
  obtain ⟨hmoves₂, hinst, hcurrent₂⟩ := done_createInstance hcreate
  have hcls₂ := hcls.imp fun _ h => h.imp_left (hmoves₂.evolves.classes _ _)
  obtain ⟨hmoves₃, hmembers⟩ := done_enumEntries (c := ⟨m.classes.size⟩) hcls₂ hinst hentries
  have hmoves := hmoves₂.trans hmoves₃
  have hcurrent : m₃.env.current = m.env.current :=
    (current_of_enumEntries hentries).trans hcurrent₂
  rcases bindName_eq_done.mp hbind with ⟨hdiscarded, -⟩ | ⟨htext, hfree, rfl⟩
  · rw [hmoves.text] at hdiscarded
    exact absurd hdiscarded hname
  · have hbound : Moves (fun _ => True) m₃ (m₃.onEnv fun env =>
        env.bindIn env.current decl.cls.name (.constant (.inst s))) :=
      .single (.bind (b := ⟨.enum, decl.cls.name⟩) trivial htext hfree)
    have hcur₃ : m₃.env.current.index < m₃.env.scopes.size := by
      rw [hcurrent]
      exact Nat.lt_of_lt_of_le hcur hmoves.evolves.scopes.size_le
    obtain ⟨cls, hcls₂, hdecl⟩ := hcls₂
    exact ⟨s, cls, Environment.own?_bindIn_self hcur₃,
      (hmoves₃.trans hbound).evolves.classes _ _ hcls₂, hdecl,
      (hmoves₃.trans hbound).evolves.instanceOf hinst,
      fun entry hentry => (hmembers entry hentry).imp fun _ h => h.moves hbound⟩

end Eval

/-! ## Enums of sources -/

/-- The entries of an enum that was parsed are numbered in order. -/
theorem Parser.ordinals_of_parse [Text.CharNames]
    {text : String} {parsed : Parsed String} {d : Enum String}
    (h : parse text = .ok parsed) (hd : .enum d ∈ Stmts.declarations "" parsed.program) :
    d.entries.map (·.ordinal) = List.range d.entries.length := by
  obtain ⟨start, mid, last, hrun⟩ := exists_run h
  have hprogram := program_eq_ok.mpr ⟨mid, hrun.skips, hrun.reads, hrun.atEnd, hrun.bounded⟩
  have hwell := builds_program (grammarBuilds _) start _ _ (classes_start hrun.start_eq) hprogram
  cases hwell.2 _ hd with
  | enum _ _ hordinals => exact hordinals

theorem Entries.ordinals_mapNames {ν μ : Type} (f : ν → μ) (es : List (EnumEntry ν (Expr ν))) :
    (Entries.mapNames f es).map (·.ordinal) = es.map (·.ordinal) := by
  induction es with
  | nil => rfl
  | cons e es ih => rw [Entries.mapNames, List.map_cons, List.map_cons, ih]

/-- Entries are numbered in order also under the names that they are interned as. -/
theorem Entries.ordinals_of_read {d : Enum String} {decl : Enum Name} {span : Span}
    {text : Name → String} (hd : d.entries.map (·.ordinal) = List.range d.entries.length)
    (hread : (Stmt.enum span decl).mapNames text = .enum span d) {i : Nat}
    (hentry : decl.entries[i]? = some entry) : entry.ordinal = i := by
  obtain ⟨declSpan, cls, entries⟩ := decl
  rw [Stmt.mapNames] at hread
  cases hread
  rw [Entries.ordinals_mapNames] at hd
  have hordinal : (entries.map (·.ordinal))[i]? = some entry.ordinal := by
    rw [List.getElem?_map, hentry]
    rfl
  rw [hd] at hordinal
  obtain ⟨_, hi⟩ := List.getElem?_eq_some_iff.mp hordinal
  rw [List.getElem_range] at hi
  exact hi.symm

/-- **Entries of enums carry their identity, unless a parameter takes its place.** When an enum that
a source declares was executed, its name is bound to an instance with a member for every entry,
which is an instance of the enum's class. The member `name` of the entry is its own name and the
member `ordinal` is its place in the declaration, unless these names land in the instances of the
class before: they are names of parameters with a marker. -/
theorem enum_entries_identified [Text.CharNames]
    {text : String} {parsed : Parsed String} {d : Enum String}
    {decl : Enum Name} {k : Nat} {span : Span} (hparse : parse text = .ok parsed)
    (hdeclared : .enum d ∈ Stmts.declarations "" parsed.program)
    (hread : (Stmt.enum span decl).mapNames m.text = .enum span d)
    (hname : m.text decl.cls.name ≠ discarded) (hcur : m.env.current.index < m.env.scopes.size)
    (h : (evaluator k).stmt (.enum span decl) m = .done () m') :
    ∃ s cls, m'.env.own? decl.cls.name = some (.constant (.inst s)) ∧
      m'.classes[m.classes.size]? = some cls ∧ cls.decl = decl.cls ∧
      ∀ i entry, decl.entries[i]? = some entry → ∃ e,
        m'.env.scopes.member? s entry.name = some (.inst e) ∧
        m'.InstanceOf e ⟨m.classes.size⟩ ∧
        (¬m'.Admits (Class.lands decl.cls) Name.name →
          m'.env.scopes.member? e Name.name = some (.string (m.text entry.name))) ∧
        (¬m'.Admits (Class.lands decl.cls) Name.ordinal →
          m'.env.scopes.member? e Name.ordinal = some (.ofSize i)) := by
  have hstmt := (evaluatesByMoves (fun _ => True) k).stmt (.enum span decl) fun _ _ => trivial
  have htext := (hstmt.moves_true h).text
  cases k with
  | zero => cases h
  | succ k =>
      change atLevel k (declareEnum (evaluator k) decl span) m = _ at h
      rw [Logic.atLevel_eq] at h
      obtain ⟨s, cls, hbound, hcls, hdecl, -, hentries⟩ := done_declareEnum hname hcur h
      refine ⟨s, cls, hbound, hcls, hdecl, fun i entry hentry => ?_⟩
      obtain ⟨e, hinst, hid, hmember⟩ := hentries entry (List.mem_of_getElem? hentry)
      have hordinal := Entries.ordinals_of_read (Parser.ordinals_of_parse hparse hdeclared) hread
        hentry
      exact ⟨e, Scopes.member?_of_own hmember, hinst,
        fun hnot => htext ▸ Scopes.member?_of_own (hid.name hnot),
        fun hnot => hordinal ▸ Scopes.member?_of_own (hid.ordinal hnot)⟩

/-- `enum E(x) { A(true), B(false) }`. -/
def pairEnum {ν : Type} (enum x first second : ν) : Enum ν :=
  ⟨⟨1, 1, 4⟩,
    ⟨⟨1, 1, 4⟩, "E", false, enum, [⟨⟨1, 8, 1⟩, none, false, false, x, none⟩], none, []⟩,
    [⟨⟨1, 13, 1⟩, first, [⟨⟨1, 15, 4⟩, false, none, .value ⟨1, 15, 4⟩ (.bool true)⟩], 0⟩,
      ⟨⟨1, 22, 1⟩, second, [⟨⟨1, 24, 5⟩, false, none, .value ⟨1, 24, 5⟩ (.bool false)⟩], 1⟩]⟩

attribute [local instance] Command.charNames

/-- The second entry of `enum E(x) { A(true), B(false) }` is called `B` and has the place 1. -/
theorem enum_entries_identified_pair : ∃ m m' s e,
    parse "enum E(x) \x7b A(true), B(false) \x7d" =
      .ok ⟨[.enum ⟨1, 1, 4⟩ (pairEnum "E" "x" "A" "B")], []⟩ ∧
    (Stmt.enum ⟨1, 1, 4⟩ (pairEnum ⟨5⟩ ⟨6⟩ ⟨7⟩ ⟨8⟩)).mapNames m.text =
      .enum ⟨1, 1, 4⟩ (pairEnum "E" "x" "A" "B") ∧
    (evaluator 4).stmt (.enum ⟨1, 1, 4⟩ (pairEnum ⟨5⟩ ⟨6⟩ ⟨7⟩ ⟨8⟩)) m = .done () m' ∧
    m'.env.own? ⟨5⟩ = some (.constant (.inst s)) ∧
    m'.env.scopes.member? s ⟨8⟩ = some (.inst e) ∧
    m'.env.scopes.member? e Name.name = some (.string "B") ∧
    m'.env.scopes.member? e Name.ordinal = some (.ofSize 1) := by
  let m : Interpreter := { Interpreter.new .empty default with
    interner := ((((Interner.new.intern "E").2.intern "x").2.intern "A").2.intern "B").2 }
  have hparse : parse "enum E(x) \x7b A(true), B(false) \x7d" =
      .ok ⟨[.enum ⟨1, 1, 4⟩ (pairEnum "E" "x" "A" "B")], []⟩ := by cbv
  have hread : (Stmt.enum ⟨1, 1, 4⟩ (pairEnum ⟨5⟩ ⟨6⟩ ⟨7⟩ ⟨8⟩)).mapNames m.text =
      .enum ⟨1, 1, 4⟩ (pairEnum "E" "x" "A" "B") := by cbv
  have htest : ((evaluator 4).stmt (.enum ⟨1, 1, 4⟩ (pairEnum ⟨5⟩ ⟨6⟩ ⟨7⟩ ⟨8⟩)) m).passes
      (fun _ _ => true) = true := by decide +kernel
  obtain ⟨_, m', hrun, -⟩ := Outcome.exists_done_of_passes htest
  obtain ⟨s, -, hbound, -, -, hentries⟩ := enum_entries_identified hparse List.mem_cons_self hread
    (by decide +kernel) (by decide) hrun
  obtain ⟨e, hmember, -, hname, hordinal⟩ := hentries 1 _ rfl
  have hnot (n : Name) : ¬m'.Admits (Class.lands (pairEnum ⟨5⟩ ⟨6⟩ ⟨7⟩ ⟨8⟩).cls) n := by
    rintro (h | ⟨h, -⟩) <;> cases h
  have htext : m.text ⟨8⟩ = "B" := by decide +kernel
  exact ⟨m, m', s, e, hparse, hread, hrun, hbound, hmember, htext ▸ hname (hnot _),
    hordinal (hnot _)⟩

/-- What is parsed from an enum that has a parameter `let name`, and from a line that reads the name
of its entry. -/
def markedName : InternedProgram where
  program := [
    .enum ⟨1, 1, 4⟩ ⟨⟨1, 1, 4⟩,
      ⟨⟨1, 1, 4⟩, "E", false, ⟨5⟩, [⟨⟨1, 8, 8⟩, some .constant, false, false, .name, none⟩], none, []⟩,
      [⟨⟨1, 20, 1⟩, ⟨6⟩, [⟨⟨1, 22, 4⟩, false, none, .value ⟨1, 22, 4⟩ (.bool true)⟩], 0⟩]⟩,
    .expr ⟨2, 1, 1⟩ (.member ⟨2, 4, 1⟩ (.member ⟨2, 2, 1⟩ (.name ⟨2, 1, 1⟩ ⟨5⟩) ⟨6⟩) .name)]
  warnings := []
  interner := ((Interner.new.intern "E").2.intern "A").2

/-- The member `name` of an entry is the value of a parameter: `E.A.name` is `true`. -/
theorem entry_name_taken : ∃ m s e,
    Interpreter.runSource ⟨"a", "enum E(let name) \x7b A(true) \x7d\nE.A.name"⟩
      (.new .empty default) = .done (.ok ⟨.bool true, false⟩) m ∧
    m.text ⟨5⟩ = "E" ∧ m.env.own? ⟨5⟩ = some (.constant (.inst s)) ∧
    m.text ⟨6⟩ = "A" ∧ m.env.scopes.member? s ⟨6⟩ = some (.inst e) ∧
    m.env.scopes.member? e Name.name = some (.bool true) := by
  have hparse : (Interpreter.new .empty default).interner.parse
      "enum E(let name) \x7b A(true) \x7d\nE.A.name" = .ok markedName := by cbv
  have htest : (Interpreter.runParsed markedName (.new .empty default)).passes (fun r m =>
      r.toOption == some ⟨.bool true, false⟩ && (m.text ⟨5⟩ == "E" && m.text ⟨6⟩ == "A" &&
        m.env.own? ⟨5⟩ == some (.constant (.inst ⟨1⟩)) &&
        m.env.scopes.member? ⟨1⟩ ⟨6⟩ == some (.inst ⟨3⟩) &&
        m.env.scopes.member? ⟨3⟩ Name.name == some (.bool true))) = true := by decide +kernel
  obtain ⟨m, hrun, htest⟩ :=
    @Interpreter.exists_runSource_of_passes _ ⟨"a", _⟩ _ _ _ _ hparse htest
  simp only [Bool.and_eq_true, beq_iff_eq] at htest
  obtain ⟨⟨⟨⟨henum, hentry⟩, hbound⟩, hmember⟩, hname⟩ := htest
  exact ⟨m, ⟨1⟩, ⟨3⟩, hrun, henum, hbound, hentry, hmember, hname⟩

end IslandScript
