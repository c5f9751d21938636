import IslandScript.Proofs.Wrapper.Kept

/-!
# Interpreters with the core link

An interpreter that was built with the core link and no other has run the prelude to its end, so each
of the declarations in it was carried out: the global scope has the wrapper classes.
-/

namespace IslandScript

open Eval

variable {m m' : Interpreter} {span : Span} {bound : Nat}

/-! ## Declarations -/

/-- An evaluation keeps no wrapper and raises no signals but failures. -/
def Eval.Plain {α : Type} (x : Eval α) : Prop :=
  ∀ m, (x m).Sat (fun _ m' => m'.wrappers = m.wrappers) fun s _ => ∃ e, s = .failed e

theorem Eval.Plain.bind {α β : Type} {x : Eval α} {f : α → Eval β} (hx : x.Plain)
    (hf : ∀ a, (f a).Plain) : (x >>= f).Plain := by
  intro m
  have hsat := hx m
  rw [bind_apply]
  cases h : x m with
  | done a m₁ =>
      rw [h] at hsat
      exact (hf a m₁).mono (fun _ _ h => h.trans hsat) fun _ _ h => h
  | raised =>
      rw [h] at hsat
      exact hsat
  | unfinished => trivial

theorem Eval.plain_bindName (n : Name) (r : Reference) : (Eval.bind n r span).Plain := by
  intro m
  unfold Eval.bind
  dsimp only
  split
  · rfl
  · split
    · exact ⟨_, rfl⟩
    · rfl

theorem Eval.plain_declareFunction (decl : Function Name) : (declareFunction decl span).Plain := by
  refine Plain.bind (fun m => ?_) fun nativeId => Plain.bind (fun m => rfl) fun f => ?_
  · unfold linkedNative
    split
    · rw [bind_apply]
      dsimp only [Eval.read]
      cases m.linker.function decl.path with
      | ok => rfl
      | error => exact ⟨_, rfl⟩
    · rfl
  · split
    · exact plain_bindName _ _
    · exact fun m => rfl

theorem Eval.plain_declareClass (decl : Class Name) : (declareClass decl span).Plain := by
  refine Plain.bind (fun m => ?_) fun c => plain_bindName _ _
  unfold makeClass
  dsimp only
  split
  · split
    · rfl
    · exact ⟨_, rfl⟩
  · rfl

/-- A class that is not linked is made and bound. -/
theorem Eval.declareClass_unlinked {decl : Class Name} (hlinked : decl.linked = false)
    (m : Interpreter) : declareClass decl span m =
      Eval.bind decl.name (.constant (.cls ⟨m.classes.size⟩)) span
        (m.addClass ⟨m.text decl.name, decl, m.env.current, none⟩).2 := by
  unfold declareClass
  rw [bind_apply]
  unfold makeClass
  dsimp only
  rw [hlinked]
  rfl

/-- A scope has a class that was declared. -/
def Interpreter.Declares (m : Interpreter) (s : ScopeId) (name : String) (decl : Class Name) : Prop :=
  ∃ id, m.env.scopes.own? s decl.name = some (.constant (.cls id)) ∧
    m.classes[id.index]? = some ⟨name, decl, s, none⟩

theorem Eval.declares_of_declareClass {decl : Class Name} (hlinked : decl.linked = false)
    (htext : m.text decl.name ≠ discarded) (hlt : m.env.current.index < m.env.scopes.size)
    (hdone : declareClass decl span m = .done () m') :
    m'.Declares m.env.current (m.text decl.name) decl := by
  rw [declareClass_unlinked hlinked] at hdone
  rcases bindName_eq_done.mp hdone with ⟨hdiscarded, -⟩ | ⟨-, -, rfl⟩
  · exact absurd hdiscarded htext
  · exact ⟨⟨m.classes.size⟩, Environment.own?_bindIn_self hlt, Array.getElem?_push_size⟩

theorem Interpreter.Declares.evolves {s : ScopeId} {name : String} {decl : Class Name}
    (h : m.Declares s name decl) (hm : m.Evolves m') : m'.Declares s name decl := by
  obtain ⟨id, hown, hclass⟩ := h
  exact ⟨id, hm.own_constant hown, hm.classes _ _ hclass⟩

/-! ## Programs of declarations -/

theorem Eval.plain_stmt (bound : Nat) {s : Stmt Name} (hs : Core.isDeclaration s = true) :
    ((evaluator bound).stmt s).Plain := by
  cases bound with
  | zero => exact fun m => trivial
  | succ bound =>
      intro m
      show Outcome.Sat _ _ (atLevel bound (stmtStep (evaluator bound) s) m)
      rw [Logic.atLevel_eq]
      cases s with
      | function _ decl => exact plain_declareFunction decl m
      | cls _ decl => exact plain_declareClass decl m
      | _ => cases hs

/-- A program of declarations that ends well has carried out the first, and then the rest. -/
theorem done_of_runStatements {s : Stmt Name} {rest : List (Stmt Name)} {last : Value}
    {r : RunResult} (hs : Core.isDeclaration s = true)
    (hdone : Interpreter.runStatements (evaluator bound) last (s :: rest) m = .done (.ok r) m') :
    ∃ m₁, (evaluator bound).stmt s m = .done () m₁ ∧ m₁.wrappers = m.wrappers ∧
      Interpreter.runStatements (evaluator bound) .unit rest m₁ = .done (.ok r) m' := by
  have hvalue : Interpreter.statementValue (evaluator bound) s = (do
      (evaluator bound).stmt s
      return .unit) := by
    cases s with
    | expr => cases hs
    | _ => rfl
  have hplain := plain_stmt bound hs m
  rw [Interpreter.runStatements, hvalue, bind_apply] at hdone
  unfold attempt at hdone
  rw [bind_apply] at hdone
  cases hstmt : (evaluator bound).stmt s m with
  | done _ m₁ =>
      rw [hstmt] at hdone hplain
      exact ⟨m₁, rfl, hplain, hdone⟩
  | raised signal m₁ =>
      rw [hstmt] at hdone hplain
      obtain ⟨e, rfl⟩ := hplain
      cases hdone
  | unfinished =>
      rw [hstmt] at hdone
      cases hdone

/-- A class that is declared is made and bound. -/
theorem declares_of_stmt {decl : Class Name} (hlinked : decl.linked = false)
    (htext : m.text decl.name ≠ discarded) (hlt : m.env.current.index < m.env.scopes.size)
    (hdone : (evaluator bound).stmt (.cls span decl) m = .done () m') :
    m'.Declares m.env.current (m.text decl.name) decl := by
  cases bound with
  | zero => cases hdone
  | succ bound =>
      change atLevel bound (declareClass decl span) m = _ at hdone
      rw [Logic.atLevel_eq] at hdone
      exact declares_of_declareClass hlinked htext hlt hdone

/-- Between statements the current scope is the same. -/
theorem current_of_stmt {s : Stmt Name} (hdone : (evaluator bound).stmt s m = .done () m') :
    Moves (fun _ => True) m m' ∧ m'.env.current = m.env.current := by
  have hev := evaluatesByMoves (fun _ => True) bound
  have hwalk := WalksAt.framed (hev.stmt s (fun _ _ => trivial) m m.bears_true)
    (hev.framed.stmt s m trivial)
  unfold WalksAt at hwalk
  rw [hdone] at hwalk
  obtain ⟨hdeeds, -, hstack⟩ := hwalk
  exact ⟨Deeds.moves hdeeds, Environment.current_of_stack hstack⟩

/-- A program of declarations that ends well has made and bound its classes. -/
theorem declares_of_runStatements {ss : List (Stmt Name)} {last : Value} {r : RunResult}
    {decl : Class Name} (hss : ∀ s ∈ ss, Core.isDeclaration s = true)
    (hlt : m.env.current.index < m.env.scopes.size)
    (hdone : Interpreter.runStatements (evaluator bound) last ss m = .done (.ok r) m')
    (hmem : .cls span decl ∈ ss) (hlinked : decl.linked = false)
    (htext : m.text decl.name ≠ discarded) :
    m'.Declares m.env.current (m.text decl.name) decl := by
  induction ss generalizing m last with
  | nil => cases hmem
  | cons s rest ih =>
      obtain ⟨m₁, hstmt, -, hrest⟩ := done_of_runStatements (hss s List.mem_cons_self) hdone
      rcases List.mem_cons.mp hmem with rfl | hmem
      · have hmoves := (walks_runStatements (evaluatesByMoves _ bound) .unit rest
          fun _ _ => trivial).moves_true hrest
        exact (declares_of_stmt hlinked htext hlt hstmt).evolves hmoves.evolves
      · obtain ⟨hmoves, hcurrent⟩ := current_of_stmt hstmt
        have htext₁ := hmoves.text
        rw [← hcurrent, ← htext₁]
        refine ih (fun s hs => hss s (List.mem_cons_of_mem _ hs)) ?_ hrest hmem (htext₁ ▸ htext)
        exact Nat.lt_of_lt_of_le (hcurrent ▸ hlt) hmoves.evolves.scopes.size_le

/-- A program of declarations that ends well keeps no wrapper. -/
theorem wrappers_of_runStatements {ss : List (Stmt Name)} {last : Value} {r : RunResult}
    (hss : ∀ s ∈ ss, Core.isDeclaration s = true)
    (hdone : Interpreter.runStatements (evaluator bound) last ss m = .done (.ok r) m') :
    m'.wrappers = m.wrappers := by
  induction ss generalizing m last with
  | nil =>
      cases hdone
      rfl
  | cons s rest ih =>
      obtain ⟨m₁, -, hwrappers, hrest⟩ := done_of_runStatements (hss s List.mem_cons_self) hdone
      exact (ih (fun s hs => hss s (List.mem_cons_of_mem _ hs)) hrest).trans hwrappers

/-! ## The prelude, interned -/

theorem isDeclaration_mapNames {ν μ : Type} (f : ν → μ) (s : Stmt ν) :
    Core.isDeclaration (s.mapNames f) = Core.isDeclaration s := by
  cases s <;> simp only [Stmt.mapNames, Core.isDeclaration]

section Interned

variable {i : Interner} {program : Program Name} {words : Program String}

/-- What reads as a program of declarations is one. -/
theorem isDeclaration_of_mapNames {f : Name → String}
    (h : ∀ s ∈ Stmts.mapNames f program, Core.isDeclaration s = true) :
    ∀ s ∈ program, Core.isDeclaration s = true := by
  intro s hs
  rw [← isDeclaration_mapNames f]
  refine h _ ?_
  rw [Stmts.mapNames_eq_map]
  exact List.mem_map_of_mem hs

/-- What reads as a class of linked members is one, under every interner that knows the names. -/
theorem exists_isWrapper {cls : String} {members : List String} {span : Span} {decl : Class String}
    (hread : ∀ j, i.Grows j → Stmts.mapNames j.text program = words) (hdecl : .cls span decl ∈ words)
    (hwrapper : Class.IsWrapper id cls members decl) :
    ∃ span decl, .cls span decl ∈ program ∧
      ∀ j, i.Grows j → Class.IsWrapper j.text cls members decl := by
  have hmaps (j : Interner) (hj : i.Grows j) : program.map (·.mapNames j.text) = words :=
    (Stmts.mapNames_eq_map _).symm.trans (hread j hj)
  rw [← hmaps i .refl] at hdecl
  obtain ⟨s, hs, hmap⟩ := List.mem_map.mp hdecl
  cases s with
  | cls span' decl' =>
      refine ⟨span', decl', hs, fun j hj => Class.IsWrapper.of_mapNames (f := j.text) (g := id) ?_⟩
      have hsame := List.map_inj_left.mp ((hmaps j hj).trans (hmaps i .refl).symm) _ hs
      rw [hmap] at hsame
      simp only [Stmt.mapNames, Stmt.cls.injEq] at hsame
      rw [hsame.2]
      exact hwrapper
  | _ => simp [Stmt.mapNames] at hmap

end Interned

/-! ## The core link -/

/-- A new linker that imported the core link. -/
def Core.linker : Linker := { Linker.new.register link with imported := [name] }

theorem importLink_core :
    Linker.new.importLink Core.name = .ok (some Core.prelude, Core.linker) := by
  have hnew : Core.name ∉ Linker.new.imported := List.not_mem_nil
  have hfound : Linker.new.find? Core.name = some Core.link := rfl
  exact Linker.importLink_new hnew hfound

theorem imported_core : Core.linker.isImported Core.name = true :=
  List.contains_iff_mem.mpr List.mem_cons_self

theorem sole_core : Core.linker.Sole := Linker.Sole.new.importLink importLink_core

theorem exists_warnings (ws : List ParseWarning) (m : Interpreter) :
    ∃ warnings, ws.foldl (fun m w => m.warn w.toDiagnostic) m = { m with warnings := warnings } := by
  induction ws generalizing m with
  | nil => exact ⟨m.warnings, rfl⟩
  | cons w ws ih => exact ih (m.warn w.toDiagnostic)

/-- The global scope of a new environment is outermost. -/
theorem outermost_new : Environment.new.scopes.Outermost Environment.global :=
  ⟨by rw [Environment.get_new]; rfl, by rw [Environment.get_new]; rfl⟩

/-- A program with the wrapper classes that is run first makes an interpreter ready. -/
theorem ready_of_run {program : Program Name} {r : RunResult}
    (hrun : Interpreter.run program m = .done (.ok r) m')
    (hdeclarations : ∀ s ∈ program, Core.isDeclaration s = true)
    (hclasses : ∀ cls members, (cls, members) ∈ Core.wrapperClasses → ∃ span decl,
      .cls span decl ∈ program ∧
        ∀ j, m.interner.Grows j → Class.IsWrapper j.text cls members decl)
    (hnames : m.interner.Reachable) (hlinker : m.linker.Sole) (henv : m.env = .new) :
    m'.Ready := by
  have hmoves := (walks_run program fun _ _ => trivial).moves_true hrun
  refine ⟨hmoves.interner ▸ hnames, hmoves.linker ▸ hlinker, ?_, fun p hp => ?_⟩
  · refine hmoves.evolves.scopes.outermost ?_ ?_ <;> rw [henv]
    · exact Nat.one_pos
    · exact outermost_new
  · obtain ⟨cls, members⟩ := p
    obtain ⟨span, decl, hdecl, hwrapper⟩ := hclasses cls members hp
    have hname : m.text decl.name = cls := (hwrapper _ .refl).name
    have hcls : cls ≠ discarded := (Core.wrapperClasses_linked _ hp).1
    obtain ⟨id, hown, hclass⟩ := declares_of_runStatements hdeclarations (henv ▸ Nat.one_pos) hrun
      hdecl (hwrapper _ .refl).unlinked (hname ▸ hcls)
    rw [henv] at hown hclass
    have hinterner := hmoves.interner
    exact ⟨decl.name, id, _, fun j hj => (hwrapper j (hinterner ▸ hj)).name, hown, hclass, hname, rfl,
      rfl, fun j hj => hwrapper j (hinterner ▸ hj)⟩

/-! ## What was built -/

variable [Text.CharNames]

/-- An interpreter was built with the core link and no other. -/
def Built (sources : List Source) (m : Interpreter) : Prop :=
  sources = [Core.prelude] ∧
    ∃ console, Interpreter.start true [] (.new Linker.new console) = .done (.ok ()) m

theorem importLink_of_built {console : Console}
    (h : Interpreter.start true [] (.new Linker.new console) = .done (.ok ()) m) :
    Interpreter.importLink Core.name (.new Linker.new console) = .done (.ok ()) m := by
  unfold Interpreter.start at h
  rw [if_pos rfl] at h
  obtain ⟨core, m₁, himport, hrest⟩ := bind_eq_done.mp h
  cases core with
  | error d => cases hrest
  | ok _ =>
      cases hrest
      exact himport

theorem runSource_of_importLink {name : String} {source : Source} {linker : Linker}
    (hlinker : m.linker.importLink name = .ok (some source, linker))
    (h : Interpreter.importLink name m = .done (.ok ()) m') :
    ∃ r, Interpreter.runSource source { m with linker := linker } = .done (.ok r) m' := by
  unfold Interpreter.importLink at h
  rw [bind_apply] at h
  dsimp only [Eval.read] at h
  rw [hlinker] at h
  obtain ⟨_, m₁, hchange, h⟩ := bind_eq_done.mp h
  cases hchange
  obtain ⟨ran, m₁, hrun, h⟩ := bind_eq_done.mp h
  cases ran with
  | error d => cases h
  | ok r =>
      cases h
      exact ⟨r, hrun⟩

/-- What is built is what is left when the prelude was run to its end. -/
theorem runSource_of_built {console : Console}
    (h : Interpreter.start true [] (.new Linker.new console) = .done (.ok ()) m) :
    ∃ r, Interpreter.runSource Core.prelude (.new Core.linker console) = .done (.ok r) m := by
  obtain ⟨r, hrun⟩ := runSource_of_importLink importLink_core (importLink_of_built h)
  exact ⟨r, hrun⟩

/-- A source that was run to its end is a program that was. -/
theorem run_of_runSource {source : Source} {r : RunResult}
    (h : Interpreter.runSource source m = .done (.ok r) m') :
    ∃ parsed warnings, m.interner.parse source.text = .ok parsed ∧
      Interpreter.run parsed.program
        { m with interner := parsed.interner, warnings := warnings } = .done (.ok r) m' := by
  rw [Interpreter.runSource_apply] at h
  rcases hparse : m.interner.parse source.text with (e | _) | parsed
  · rw [hparse] at h
    cases h
  · rw [hparse] at h
    cases h
  · rw [hparse] at h
    obtain ⟨_, m₁, hintern, h⟩ := bind_eq_done.mp h
    cases hintern
    obtain ⟨_, m₂, hwarn, h⟩ := bind_eq_done.mp h
    obtain ⟨warnings, hwarnings⟩ := exists_warnings parsed.warnings
      { m with interner := parsed.interner }
    cases hwarn.symm.trans (congrArg (Outcome.done ()) hwarnings)
    obtain ⟨ran, m₃, hrun, h⟩ := bind_eq_done.mp h
    cases ran with
    | error e => cases h
    | ok r =>
        cases h
        exact ⟨parsed, warnings, rfl, hrun⟩

/-- What was built is ready, and keeps no wrapper yet. -/
theorem Built.ready {sources : List Source} (h : Built sources m) :
    m.Ready ∧ m.wrappers = .empty := by
  obtain ⟨-, console, hstart⟩ := h
  obtain ⟨r, hsource⟩ := runSource_of_built hstart
  obtain ⟨parsed, warnings, hparse, hrun⟩ := run_of_runSource hsource
  obtain ⟨words, hwords, hdeclarations, hclasses⟩ := Core.prelude_wrappers
  have hread (j : Interner) (hj : parsed.interner.Grows j) :
      Stmts.mapNames j.text parsed.program = words.program :=
    congrArg Parsed.program (Except.ok.inj ((Interner.parse_read hparse hj).symm.trans hwords))
  have hinterned : ∀ s ∈ parsed.program, Core.isDeclaration s = true :=
    isDeclaration_of_mapNames (hread _ .refl ▸ hdeclarations)
  refine ⟨ready_of_run hrun hinterned (fun cls members hmem => ?_) (Interner.grows_parse hparse)
    sole_core rfl, ?_⟩
  · obtain ⟨span, decl, hdecl, hwrapper⟩ := hclasses cls members hmem
    exact exists_isWrapper hread hdecl hwrapper
  · exact wrappers_of_runStatements hinterned hrun

theorem Built.bear : Begins.Bear Built := by
  rintro sources m ⟨rfl, console, hstart⟩
  have hlived : Lived New True [Core.prelude] m := by
    have himport : Lived New True _ m :=
      .importLink (.start ⟨rfl, Linker.new, console, rfl⟩) (by rw [importLink_of_built hstart]; rfl)
    have hprelude : Linker.new.prelude? Core.name = some Core.prelude := by
      unfold Linker.prelude?
      rw [importLink_core]
    rwa [show (Interpreter.new Linker.new console).linker = Linker.new from rfl, hprelude] at himport
  exact (hlived.course New.bear).bears New.bear

end IslandScript
