import IslandScript.Proofs.Move.Evaluator
import IslandScript.Proofs.Parser.Interned
import IslandScript.Proofs.Place.History
import IslandScript.Proofs.Syntax.Names

/-!
# What becomes of an interpreter

`Lived` holds of the states that an interpreter comes to while links are imported, sources run,
functions called and links closed, and of those in between. Seen from inside, all of this goes by
moves, between which little else happens: names are interned, warnings kept, links registered.
`Course` says so (`Lived.course`), and is what invariants are shown of. The code that runs binds
only names that one of the sources binds (`Course.bears`). A course whose steps are deeds says more
of each: what an interpreter comes to by itself, it comes to in such a course.
-/

namespace IslandScript

open Eval

/-- What is only told in other words leaves the state as it was. -/
theorem Eval.state?_bind {α β : Type} {x : Eval α} {f : α → Eval β}
    (hf : ∀ a m, (f a m).state? = some m) (m : Interpreter) :
    ((x >>= f) m).state? = (x m).state? := by
  rw [bind_apply]
  cases x m with
  | done a m' => exact hf a m'
  | raised => rfl
  | unfinished => rfl

theorem Interpreter.Bears.mono {m : Interpreter} {P Q : Binder Name → Prop} (h : m.Bears P)
    (hPQ : ∀ b, P b → Q b) : m.Bears Q := by
  have hparams : ∀ ps, ParamsBear P ps → ParamsBear Q ps := fun ps h p hp =>
    ⟨(h p hp).1.imp fun _ => hPQ _, (h p hp).2.mono hPQ⟩
  exact
    { functions := fun f hf =>
        ⟨hparams _ (h.functions f hf).params, (h.functions f hf).body.mono hPQ⟩
      classes := fun c hc =>
        ⟨hparams _ (h.classes c hc).params, (h.classes c hc).base.mono hPQ,
          (h.classes c hc).init.mono hPQ⟩ }

/-! ## Names that sources bind -/

/-- A name stands for a text, for good. -/
def Interner.Stands (i : Interner) (n : Name) (text : String) : Prop :=
  ∀ j, i.Grows j → j.text n = text

theorem Interner.Stands.text_eq {i : Interner} {n : Name} {text : String} (h : i.Stands n text) :
    i.text n = text :=
  h i .refl

theorem Interner.Stands.grow {i j : Interner} {n : Name} {text : String} (h : i.Stands n text)
    (hj : i.Grows j) : j.Stands n text :=
  fun k hk => h k (hj.trans hk)

theorem Interner.stands_of_getElem? {i : Interner} {l : Nat} {text : String}
    (h : i.texts[l]? = some text) : i.Stands ⟨l⟩ text := fun j hj => by
  rw [Interner.text, hj.getElem? h]
  rfl

variable [Text.CharNames]

/-- A source is a program that binds a name. -/
def Source.Binds (source : Source) (b : Binder String) : Prop :=
  ∃ parsed, parse source.text = .ok parsed ∧ b ∈ Stmts.binders parsed.program

/-- One of several sources binds a name, as it was interned. -/
def BinderOf (sources : List Source) (i : Interner) (b : Binder Name) : Prop :=
  ∃ text, i.Stands b.name text ∧ ∃ source ∈ sources, source.Binds ⟨b.kind, text⟩

theorem BinderOf.load {sources : List Source} {i : Interner} {b : Binder Name} (source : Source)
    (h : BinderOf sources i b) : BinderOf (source :: sources) i b := by
  obtain ⟨text, hstands, used, hused, hbinds⟩ := h
  exact ⟨text, hstands, used, List.mem_cons_of_mem _ hused, hbinds⟩

theorem BinderOf.grow {sources : List Source} {i j : Interner} {b : Binder Name}
    (h : BinderOf sources i b) (hj : i.Grows j) : BinderOf sources j b := by
  obtain ⟨text, hstands, hbinds⟩ := h
  exact ⟨text, hstands.grow hj, hbinds⟩

/-- What a program binds, its source binds. -/
theorem bears_of_parse {sources : List Source} {source : Source} {i : Interner}
    {parsed : InternedProgram} (hsource : source ∈ sources)
    (hparse : i.parse source.text = .ok parsed) :
    Bears (BinderOf sources parsed.interner) (Stmts.binders parsed.program) := by
  intro b hb
  -- The program is read back from every interner that grows from the one it is over.
  have hread : ∀ j, parsed.interner.Grows j → (Stmts.binders parsed.program).map (·.mapNames j.text) =
      Stmts.binders (Stmts.mapNames parsed.interner.text parsed.program) := by
    intro j hj
    have hwords := (Interner.parse_read hparse hj).symm.trans (Interner.parse_read hparse .refl)
    rw [← Stmts.binders_mapNames]
    exact congrArg (fun parsed => Stmts.binders parsed.program) (Except.ok.inj hwords)
  refine ⟨parsed.interner.text b.name, fun j hj => ?_, source, hsource, _,
    Interner.parse_read hparse .refl, hread _ .refl ▸ List.mem_map_of_mem hb⟩
  have hsame := List.map_inj_left.mp ((hread j hj).trans (hread _ .refl).symm) b hb
  exact congrArg Binder.name hsame

/-! ## States -/

section States

variable {begins : List Source → Interpreter → Prop} {closing : Prop}
variable {sources : List Source} {m m' : Interpreter}

/-- The states that an interpreter comes to from those it begins in, with the sources that were run
on it, the last one first. Links may be closed where this is allowed. -/
inductive Lived (begins : List Source → Interpreter → Prop) (closing : Prop) :
    List Source → Interpreter → Prop
  | start {sources : List Source} {m : Interpreter} (h : begins sources m) :
      Lived begins closing sources m
  | importLink {sources : List Source} {m m' : Interpreter} {name : String}
      (h : Lived begins closing sources m)
      (hm' : (Interpreter.importLink name m).state? = some m') :
      Lived begins closing ((m.linker.prelude? name).toList ++ sources) m'
  | source {sources : List Source} {m m' : Interpreter} {source : Source}
      (h : Lived begins closing sources m)
      (hm' : (Interpreter.runSource source m).state? = some m') :
      Lived begins closing (source :: sources) m'
  /-- Another parser interns names. -/
  | intern {sources : List Source} {m : Interpreter} {i : Interner} (hi : m.interner.Grows i)
      (h : Lived begins closing sources m) : Lived begins closing sources { m with interner := i }
  /-- A program that was parsed apart is run. -/
  | program {sources : List Source} {m m' : Interpreter} {source : Source}
      {parsed : InternedProgram} (h : Lived begins closing sources m)
      (hparse : m.interner.parse source.text = .ok parsed)
      (hm' : (Interpreter.run parsed.program
        { m with interner := parsed.interner }).state? = some m') :
      Lived begins closing (source :: sources) m'
  | call {sources : List Source} {m m' : Interpreter} {f : FunctionId} {args : List Value}
      {span : Span} (h : Lived begins closing sources m)
      (hm' : (Interpreter.call f args span m).state? = some m') : Lived begins closing sources m'
  | takeWarnings {sources : List Source} {m : Interpreter} (h : Lived begins closing sources m) :
      Lived begins closing sources m.takeWarnings.2
  | close {sources : List Source} {m : Interpreter} (hc : closing)
      (h : Lived begins closing sources m) : Lived begins closing sources m.close
  /-- A state in between, while code of the sources runs or the console is used. -/
  | move {sources : List Source} {m m' : Interpreter} (h : Lived begins closing sources m)
      (hm' : Move (BinderOf sources m.interner) m m') : Lived begins closing sources m'

/-- The steps in which an interpreter comes to its states, where those of evaluations are moves of
some kind. -/
inductive Course (Step : (Binder Name → Prop) → Interpreter → Interpreter → Prop)
    (begins : List Source → Interpreter → Prop) (closing : Prop) :
    List Source → Interpreter → Prop
  | start {sources : List Source} {m : Interpreter} (h : begins sources m) :
      Course Step begins closing sources m
  /-- A source is about to be run. -/
  | load {sources : List Source} {m : Interpreter} (source : Source)
      (h : Course Step begins closing sources m) : Course Step begins closing (source :: sources) m
  | intern {sources : List Source} {m : Interpreter} {i : Interner} (hi : m.interner.Grows i)
      (h : Course Step begins closing sources m) :
      Course Step begins closing sources { m with interner := i }
  | warn {sources : List Source} {m : Interpreter} (warnings : List Diagnostic)
      (h : Course Step begins closing sources m) :
      Course Step begins closing sources { m with warnings := warnings }
  | link {sources : List Source} {m : Interpreter} {name : String} {prelude : Option Source}
      {linker : Linker} (hl : m.linker.importLink name = .ok (prelude, linker))
      (h : Course Step begins closing sources m) :
      Course Step begins closing sources { m with linker := linker }
  | close {sources : List Source} {m : Interpreter} (hc : closing)
      (h : Course Step begins closing sources m) : Course Step begins closing sources m.close
  | move {sources : List Source} {m m' : Interpreter} (h : Course Step begins closing sources m)
      (hm' : Step (BinderOf sources m.interner) m m') : Course Step begins closing sources m'

/-- The steps of a course are moves, and all deeds are among them. -/
class Stepping (Step : (Binder Name → Prop) → Interpreter → Interpreter → Prop) : Prop where
  move {P : Binder Name → Prop} {m m' : Interpreter} : Step P m m' → Move P m m'
  deed {P : Binder Name → Prop} {m m' : Interpreter} : Deed P m m' → Step P m m'

instance : Stepping Move := ⟨id, Deed.move⟩

instance : Stepping Deed := ⟨Deed.move, id⟩

/-- The code that an interpreter begins with binds only names that sources bind. -/
def Begins.Bear (begins : List Source → Interpreter → Prop) : Prop :=
  ∀ sources m, begins sources m → m.interner.Reachable ∧ m.Bears (BinderOf sources m.interner)

/-- An interpreter is new, with links on offer and a console. -/
def New (sources : List Source) (m : Interpreter) : Prop :=
  sources = [] ∧ ∃ linker console, m = .new linker console

theorem New.bear : Begins.Bear New := by
  rintro _ _ ⟨rfl, linker, console, rfl⟩
  exact ⟨.refl, fun f hf => (Array.not_mem_empty f hf).elim,
    fun c hc => (Array.not_mem_empty c hc).elim⟩

namespace Course

variable {Step : (Binder Name → Prop) → Interpreter → Interpreter → Prop}

theorem moves (h : Course Move begins closing sources m)
    (hm' : Moves (BinderOf sources m.interner) m m') : Course Move begins closing sources m' := by
  induction hm' with
  | refl => exact h
  | tail hmoves hlast ih =>
      refine ih.move ?_
      rwa [Moves.interner hmoves]

theorem warnings (h : Course Step begins closing sources m) (ws : List ParseWarning) :
    Course Step begins closing sources (ws.foldl (fun m w => m.warn w.toDiagnostic) m) := by
  induction ws generalizing m with
  | nil => exact h
  | cons w ws ih => exact ih (h.warn _)

variable [Stepping Step]

/-- All names are known, and the code that is kept binds only names that sources bind. -/
theorem bears (hbegins : Begins.Bear begins) (h : Course Step begins closing sources m) :
    m.interner.Reachable ∧ m.Bears (BinderOf sources m.interner) := by
  induction h with
  | start h => exact hbegins _ _ h
  | load source _ ih => exact ⟨ih.1, ih.2.mono fun _ => .load source⟩
  | intern hi _ ih =>
      have hbears := ih.2.mono fun _ hb => hb.grow hi
      exact ⟨ih.1.trans hi, hbears.functions, hbears.classes⟩
  | warn _ _ ih | link _ _ ih | close _ _ ih => exact ⟨ih.1, ih.2.functions, ih.2.classes⟩
  | move _ hm' ih =>
      have hmove := Stepping.move hm'
      rw [hmove.interner]
      exact ⟨ih.1, hmove.bears ih.2⟩

theorem deeds (h : Course Step begins closing sources m)
    (hm' : Deeds (BinderOf sources m.interner) m m') : Course Step begins closing sources m' := by
  induction hm' with
  | refl => exact h
  | tail hdeeds hlast ih =>
      refine ih.move (Stepping.deed ?_)
      rwa [(Deeds.moves hdeeds).interner]

/-- Where the code that is evaluated binds what sources bind, the course goes on. -/
theorem walk {α : Type} {x : Eval α} (hbegins : Begins.Bear begins)
    (h : Course Step begins closing sources m) (hx : Walks (BinderOf sources m.interner) x)
    (hm' : (x m).state? = some m') : Course Step begins closing sources m' := by
  have hwalk : WalksTo _ m (x m) fun _ _ => True := hx m (h.bears hbegins).2
  cases hr : x m with
  | done a m₁ =>
      rw [hr] at hwalk hm'
      cases hm'
      exact h.deeds hwalk.1
  | raised s m₁ =>
      rw [hr] at hwalk hm'
      cases hm'
      exact h.deeds hwalk
  | unfinished =>
      rw [hr] at hm'
      cases hm'

theorem program {source : Source} {parsed : InternedProgram} (hbegins : Begins.Bear begins)
    (h : Course Step begins closing sources m)
    (hparse : m.interner.parse source.text = .ok parsed)
    (hm' : (Interpreter.run parsed.program
      { m with interner := parsed.interner }).state? = some m') :
    Course Step begins closing (source :: sources) m' :=
  ((h.load source).intern (Interner.grows_parse hparse)).walk hbegins
    (walks_run _ (bears_of_parse List.mem_cons_self hparse)) hm'

theorem runSource {source : Source} (hbegins : Begins.Bear begins)
    (h : Course Step begins closing sources m)
    (hm' : (Interpreter.runSource source m).state? = some m') :
    Course Step begins closing (source :: sources) m' := by
  rw [Interpreter.runSource_apply] at hm'
  rcases hparse : m.interner.parse source.text with (e | _) | parsed
  · rw [hparse] at hm'
    cases hm'
    exact h.load source
  · rw [hparse] at hm'
    cases hm'
  · rw [hparse] at hm'
    have hwarned := ((h.load source).intern (Interner.grows_parse hparse)).warnings parsed.warnings
    -- How the program ended is told in other words, and the state is the one it was left in.
    refine hwarned.walk hbegins (x := Interpreter.run parsed.program) (walks_run _ ?_) ?_
    · rw [Interpreter.interner_warn]
      exact bears_of_parse List.mem_cons_self hparse
    · rw [← hm']
      exact (Eval.state?_bind (fun r _ => by cases r <;> rfl) _).symm

theorem importLink {name : String} (hbegins : Begins.Bear begins)
    (h : Course Step begins closing sources m)
    (hm' : (Interpreter.importLink name m).state? = some m') :
    Course Step begins closing ((m.linker.prelude? name).toList ++ sources) m' := by
  unfold Interpreter.importLink at hm'
  rw [bind_apply] at hm'
  dsimp only [Eval.read] at hm'
  unfold Linker.prelude?
  rcases hl : m.linker.importLink name with kind | ⟨_ | source, linker⟩
  · rw [hl] at hm'
    cases hm'
    exact h
  · rw [hl] at hm'
    cases hm'
    exact h.warn _
  · rw [hl] at hm'
    refine (h.link hl).runSource hbegins ?_
    rw [← hm']
    exact (Eval.state?_bind (fun _ _ => rfl) _).symm

theorem call {f : FunctionId} {args : List Value} {span : Span} (hbegins : Begins.Bear begins)
    (h : Course Step begins closing sources m)
    (hm' : (Interpreter.call f args span m).state? = some m') :
    Course Step begins closing sources m' := by
  refine h.walk hbegins (fun m₁ hm₁ => WalksAt.read_bind ?_) hm'
  split
  · trivial
  next fn hfn =>
    exact walks_callFunction (evaluatesByMoves _ _)
      (hm₁.functions fn (Array.mem_of_getElem? hfn)) none args m₁ hm₁

end Course

/-- The life of an interpreter takes its course. -/
theorem Lived.course (hbegins : Begins.Bear begins) (h : Lived begins closing sources m) :
    Course Move begins closing sources m := by
  induction h with
  | start h => exact .start h
  | importLink _ hm' ih => exact ih.importLink hbegins hm'
  | source _ hm' ih => exact ih.runSource hbegins hm'
  | intern hi _ ih => exact ih.intern hi
  | program _ hparse hm' ih => exact ih.program hbegins hparse hm'
  | call _ hm' ih => exact ih.call hbegins hm'
  | takeWarnings _ ih => exact ih.warn _
  | close hc _ ih => exact ih.close hc
  | move _ hm' ih => exact ih.move hm'

end States
end IslandScript
