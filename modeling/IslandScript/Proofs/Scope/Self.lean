import IslandScript.Command.Characters
import IslandScript.Proofs.Move.History
import IslandScript.Proofs.Parser.Binders.Program
import IslandScript.Proofs.Place.Session
import IslandScript.Proofs.Scope.Reachable

/-!
# The members `this` and `base`

An instance gets the members `this` and `base` when all of its initializers have run, and only if it
does not bind these names by then. That it does not rests on all that binds names: names that are
declared are validated, the parameters of lambdas, which are not, are bound in scopes that are no
instances, and a parameter becomes a member of instances of its class only. `Interpreter.Right` says
so of a state, and every deed of code that was parsed keeps it (`Deed.right`). So it holds along a
course of deeds, which is what an interpreter takes: from a new one, whatever is imported, run,
called or evaluated goes on with it (`Course.importLink`, `Course.runSource`, `Course.call`,
`Course.walk`).
-/

namespace IslandScript

open Eval

variable {P : Binder Name → Prop} {m m' : Interpreter} {s : ScopeId} {base : Option ScopeId}
variable {n : Name} {r : Reference} {v : Value}

/-! ## Names of the code -/

/-- Only parameters of lambdas are called `this` or `base`. -/
def Validated (P : Binder Name → Prop) : Prop :=
  ∀ b, P b → b.kind ≠ .lambdaParameter → b.name ∉ [Name.this, Name.base]

theorem Source.Binds.validated [Text.CharNames]
    {source : Source} {b : Binder String} (h : source.Binds b)
    (hkind : b.kind ≠ .lambdaParameter) : b.name ≠ "this" ∧ b.name ≠ "base" := by
  obtain ⟨parsed, hparse, hb⟩ := h
  obtain ⟨start, mid, last, hrun⟩ := Parser.exists_run hparse
  have hprogram := Parser.program_eq_ok.mpr
    ⟨mid, hrun.skips, hrun.reads, hrun.atEnd, hrun.bounded⟩
  obtain ⟨os, hos, hbinders⟩ := Parser.binds_program (Parser.grammarBinds _) start _ _ hprogram
  rw [hbinders] at hb
  obtain ⟨o, ho, rfl⟩ := List.mem_map.mp hb
  simpa [Parser.isReserved] using hos.notReserved o ho hkind

/-- The code of sources that were parsed is validated. -/
theorem Interner.Reachable.validated [Text.CharNames]
    {i : Interner} (h : i.Reachable) (sources : List Source) :
    Validated (BinderOf sources i) := by
  have hthis : i.text Name.this = "this" := (Interner.stands_of_getElem? (h.getElem? rfl)).text_eq
  have hbase : i.text Name.base = "base" := (Interner.stands_of_getElem? (h.getElem? rfl)).text_eq
  rintro b ⟨text, hstands, source, -, hbinds⟩ hkind hmem
  obtain ⟨hnotThis, hnotBase⟩ := hbinds.validated hkind
  simp only [List.mem_cons, List.not_mem_nil, or_false] at hmem
  rcases hmem with hn | hn
  · exact hnotThis (hstands.text_eq.symm.trans (hn ▸ hthis))
  · exact hnotBase (hstands.text_eq.symm.trans (hn ▸ hbase))

/-! ## States -/

/-- What an instance with a base or without one binds a name to is right if the name is neither
`this` nor `base`, or it is bound to what it should be. -/
structure RightlyBound (s : ScopeId) (base : Option ScopeId) (n : Name) (r : Reference) : Prop where
  this : n = Name.this → r = .constant (.inst s)
  base : n = Name.base → ∃ b, base = some b ∧ r = .constant (.inst b)

theorem RightlyBound.of_not_mem (h : n ∉ [Name.this, Name.base]) : RightlyBound s base n r where
  this hn := absurd (hn ▸ List.mem_cons_self) h
  base hn := absurd (hn ▸ List.mem_cons_of_mem _ List.mem_cons_self) h

/-- Instances bind `this` and `base` to what they should if they do, and no class takes a parameter
of such a name. -/
structure Interpreter.Right (m : Interpreter) : Prop where
  own : ∀ s base n r, m.HasBase s base → m.env.scopes.own? s n = some r → RightlyBound s base n r
  params : ∀ n, m.Takes n → n ∉ [Name.this, Name.base]

/-- What was bound rightly still is. -/
theorem RightlyBound.evolves {r₀ : Reference} (h : RightlyBound s base n r₀) (hm : m.Evolves m')
    (hown₀ : m.env.scopes.own? s n = some r₀) (hown : m'.env.scopes.own? s n = some r) :
    RightlyBound s base n r where
  this hn := by
    obtain rfl := h.this hn
    exact Option.some.inj (hown.symm.trans (hm.own_constant hown₀))
  base hn := by
    obtain ⟨b, hb, rfl⟩ := h.base hn
    exact ⟨b, hb, Option.some.inj (hown.symm.trans (hm.own_constant hown₀))⟩

/-- The parameters that classes take are those that they took, or are of the code. -/
theorem Deed.takes (h : Deed P m m') (hn : m'.Takes n) : m.Takes n ∨ P ⟨.parameter, n⟩ := by
  cases h with
  | cls hdecl hparams =>
      obtain ⟨c, hc, p, hp, rfl⟩ := hn
      rcases Array.mem_push.mp hc with hc | rfl
      · exact .inl ⟨c, hc, p, hp, rfl⟩
      · exact .inr (hparams p hp)
  | other hmove hclasses =>
      unfold Interpreter.Takes at hn ⊢
      rw [hclasses] at hn
      exact .inl hn
  | _ => exact .inl hn

/-- What an instance binds after a deed of code that is validated is right. -/
theorem Deed.rightlyBound (h : Deed P m m') (hP : Validated P) (hm : m.Right)
    (hbase : m'.HasBase s base) (hown : m'.env.scopes.own? s n = some r) :
    RightlyBound s base n r := by
  have hevolves := h.move.evolves
  have hbefore (hlt : s.index < m.env.scopes.size) : m.HasBase s base :=
    (hevolves.scopes.get s hlt).base.symm.trans hbase
  have hkept {r₀ : Reference} (hown₀ : m.env.scopes.own? s n = some r₀) :
      RightlyBound s base n r :=
    (hm.own s base n r₀ (hbefore (Scopes.created_of_own hown₀)) hown₀).evolves hevolves hown₀ hown
  cases h with
  | @bind b r' hb hname hfree hscope =>
      rcases Environment.own?_bindIn_cases hown with ⟨rfl, rfl, -⟩ | hold
      · by_cases hkind : b.kind = .lambdaParameter
        · -- the scope would be an instance
          have hlt : m.env.current.index < m.env.scopes.size :=
            Nat.lt_of_lt_of_eq (Scopes.created_of_own hown) (Scopes.size_update _)
          have hframe := hbefore hlt
          unfold Interpreter.HasBase at hframe
          rw [hscope hkind] at hframe
          cases hframe
        · exact .of_not_mem (hP b hb hkind)
      · exact hkept hold
  | this t =>
      rcases Environment.own?_define_cases hown with ⟨rfl, rfl, rfl⟩ | hold
      · exact ⟨fun _ => rfl, nofun⟩
      · exact hkept hold
  | @base t b hb =>
      rcases Environment.own?_define_cases hown with ⟨rfl, rfl, rfl⟩ | hold
      · have hsame := (hevolves.hasBase hb).symm.trans hbase
        exact ⟨nofun, fun _ => ⟨b, (Option.some.inj hsame).symm, rfl⟩⟩
      · exact hkept hold
  | label hn =>
      rcases Environment.own?_define_cases hown with ⟨rfl, rfl, rfl⟩ | hold
      · refine .of_not_mem fun hmem => ?_
        simp only [List.mem_cons, List.not_mem_nil, or_false] at hn hmem
        rcases hn with rfl | rfl <;> rcases hmem with h | h <;> cases h
      · exact hkept hold
  | param ht hr hn =>
      rcases Environment.own?_define_cases hown with ⟨rfl, rfl, rfl⟩ | hold
      · exact .of_not_mem (hm.params _ hn)
      · exact hkept hold
  | entry hn hs he =>
      rcases Environment.own?_define_cases hown with ⟨rfl, rfl, rfl⟩ | hold
      · exact .of_not_mem (hP _ hn nofun)
      · exact hkept hold
  | cls hdecl hparams => exact hkept hown
  | other hmove hclasses hnone =>
      obtain ⟨r₀, hown₀⟩ := Option.isSome_iff_exists.mp (hnone s n r hown)
      exact hkept hown₀

/-- A deed of code that is validated keeps instances right. -/
theorem Deed.right (h : Deed P m m') (hP : Validated P) (hm : m.Right) : m'.Right where
  own _ _ _ _ hbase hown := h.rightlyBound hP hm hbase hown
  params n hn := (h.takes hn).elim (hm.params n) fun hn => hP _ hn nofun

theorem Deeds.right (h : Deeds P m m') (hP : Validated P) (hm : m.Right) : m'.Right := by
  induction h with
  | refl => exact hm
  | tail _ hlast ih => exact hlast.right hP ih

/-! ## Instances -/

/-- An instance binds `this` to itself, and `base` to its base, or not at all if it has none. -/
structure Interpreter.Selves (m : Interpreter) (s : ScopeId) (base : Option ScopeId) : Prop where
  hasBase : m.HasBase s base
  this : m.env.scopes.own? s Name.this = some (.constant (.inst s))
  base : m.env.scopes.own? s Name.base = base.map fun b => .constant (.inst b)

namespace Interpreter

/-- Without a base an instance does not bind `base`. -/
theorem Right.own?_base (h : m.Right) (hbase : m.HasBase s none) :
    m.env.scopes.own? s Name.base = none := by
  cases hown : m.env.scopes.own? s Name.base with
  | none => rfl
  | some r =>
      obtain ⟨b, hb, -⟩ := (h.own s none Name.base r hbase hown).base rfl
      cases hb

/-- A name is bound to what it was defined as, if that is all it is rightly bound to. -/
theorem Right.own?_define (h : m.Right) (hbase : m.HasBase s base)
    (hr : ∀ r, RightlyBound s base n r → r = .constant v) :
    (m.onEnv (·.define s n (.constant v))).env.scopes.own? s n = some (.constant v) := by
  cases hown : m.env.scopes.own? s n with
  | none => exact Environment.own?_define_self hbase.created hown
  | some r =>
      obtain rfl := hr r (h.own s base n r hbase hown)
      have hsame : m.env.define s n (.constant v) = m.env := by
        unfold Environment.define
        rw [if_pos (Option.isSome_of_eq_some hown)]
      exact (congrArg (·.scopes.own? s n) hsame).trans hown

/-- What an instance binds `this` and `base` to stays while states are right. -/
theorem Selves.later (h : m.Selves s base) (hm : m.Evolves m') (hright : m'.Right) :
    m'.Selves s base where
  hasBase := hm.hasBase h.hasBase
  this := hm.own_constant h.this
  base := by
    cases base with
    | none => exact hright.own?_base (hm.hasBase h.hasBase)
    | some b => exact hm.own_constant h.base

/-- An instance that gets the members `this` and `base` binds them so. -/
theorem Right.selves {m₁ : Interpreter} (h : m.Right) (hbase : m.HasBase s base)
    (hthis : define s Name.this (.inst s) m = .done () m₁)
    (hdone : defineBase s base m₁ = .done () m') : m'.Selves s base := by
  cases hthis
  let m₁ := m.onEnv (·.define s Name.this (.constant (.inst s)))
  have hdeed : Deed (fun _ => False) m m₁ := .this s
  have hright := hdeed.right (fun _ h => h.elim) h
  have hbase₁ := hdeed.move.evolves.hasBase hbase
  have hown : m₁.env.scopes.own? s Name.this = some (.constant (.inst s)) :=
    h.own?_define hbase fun r hr => hr.this rfl
  cases base with
  | none =>
      cases hdone
      exact ⟨hbase₁, hown, hright.own?_base hbase₁⟩
  | some b =>
      cases hdone
      have hdeed' : Deed (fun _ => False) m₁
          (m₁.onEnv (·.define s Name.base (.constant (.inst b)))) := .base hbase₁
      refine ⟨hdeed'.move.evolves.hasBase hbase₁, hdeed'.move.evolves.own_constant hown,
        hright.own?_define hbase₁ fun r hr => ?_⟩
      obtain ⟨b', hb, rfl⟩ := hr.base rfl
      cases hb
      rfl

end Interpreter

/-- To make an instance, parameters are bound and the base is evaluated. -/
theorem Eval.done_construct {ev : Evaluator} {id : ClassId} {c : ClassObject} {args : List Value}
    {primitive : Option Primitive} {span : Span} {made : ScopeId × Option ScopeId}
    (h : construct ev id c args primitive span m = .done made m') :
    ∃ m₁ m₂, bindParams span c.decl.params args m = .done () m₁ ∧
      baseInstance ev c.decl.base m₁ = .done made.2 m₂ := by
  obtain ⟨_, m₁, hparams, h⟩ := bind_eq_done.mp h
  obtain ⟨_, _, hread, h⟩ := bind_eq_done.mp h
  cases hread
  obtain ⟨base, m₂, hbase, h⟩ := bind_eq_done.mp h
  obtain ⟨_, _, -, h⟩ := bind_eq_done.mp h
  obtain ⟨_, _, -, h⟩ := bind_eq_done.mp h
  obtain ⟨_, _, -, h⟩ := bind_eq_done.mp h
  cases h
  exact ⟨m₁, m₂, hparams, hbase⟩

/-- What was evaluated in a new scope. -/
theorem Eval.done_inChildOf {α : Type} {x : Eval α} {parent : ScopeId} {a : α}
    (h : inChildOf parent x m = .done a m') :
    ∃ inner, x (m.onEnv (·.pushChildOf parent)) = .done a inner := by
  unfold inChildOf within at h
  split at h
  next hx =>
    cases h
    exact ⟨_, hx⟩
  · cases h
  · cases h

/-- An instance that was made from a state that is right binds `this` and `base` rightly. -/
theorem Eval.selves_of_instantiate {k : Nat} {id : ClassId} {c : ClassObject} {args : List Value}
    {primitive : Option Primitive} {span : Span} (hP : Validated P) (hm : m.Right)
    (hbears : m.Bears P) (hc : m.classes[id.index]? = some c)
    (h : instantiate (evaluator k) id c args primitive span m = .done s m') :
    ∃ base m₁ m₂,
      bindParams span c.decl.params args (m.onEnv (·.pushChildOf c.scope)) = .done () m₁ ∧
      baseInstance (evaluator k) c.decl.base m₁ = .done base m₂ ∧ m'.Selves s base := by
  obtain ⟨made, m₁, hmade, h⟩ := bind_eq_done.mp h
  have hwalk : WalksTo P m (inChildOf c.scope (construct (evaluator k) id c args primitive span) m)
      _ := walksAt_inChildOf_construct (evaluatesByMoves P k) args primitive
        (hbears.classes c (Array.mem_of_getElem? hc)) hbears hc
  rw [hmade] at hwalk
  obtain ⟨hdeeds, -, hbase⟩ := hwalk
  obtain ⟨inner, hconstruct⟩ := done_inChildOf hmade
  obtain ⟨m₂, m₃, hparams, hbaseDone⟩ := done_construct hconstruct
  obtain ⟨_, m₄, hthis, h⟩ := bind_eq_done.mp h
  obtain ⟨_, m₅, hdone, h⟩ := bind_eq_done.mp h
  cases h
  exact ⟨made.2, m₂, m₃, hparams, hbaseDone, (hdeeds.right hP hm).selves hbase hthis hdone⟩

/-! ## Courses -/

section Courses

variable {begins : List Source → Interpreter → Prop} {closing : Prop} {sources : List Source}

/-- An interpreter that begins with instances that are right keeps all right that come about. -/
theorem Course.right [Text.CharNames] (hbear : Begins.Bear begins)
    (hbegins : ∀ sources m, begins sources m → m.Right) (h : Course Deed begins closing sources m) :
    m.Right := by
  induction h with
  | start h => exact hbegins _ _ h
  | load _ _ ih => exact ih
  | intern _ _ ih | warn _ _ ih | link _ _ ih | close _ _ ih => exact ⟨ih.own, ih.params⟩
  | move h hm' ih => exact hm'.right ((h.bears hbear).1.validated _) ih

/-- A new interpreter has no instances and no classes. -/
theorem New.right (h : New sources m) : m.Right := by
  obtain ⟨-, linker, console, rfl⟩ := h
  refine ⟨fun s base n r hbase => ?_, fun n hn => ?_⟩
  · unfold Interpreter.HasBase at hbase
    rw [show (Interpreter.new linker console).env = .new from rfl, Environment.get_new] at hbase
    cases hbase
  · obtain ⟨c, hc, -⟩ := hn
    exact absurd hc (Array.not_mem_empty c)

/-- What an interpreter comes to from a state evolves from it. -/
theorem Course.evolves [Text.CharNames]
    {Step : (Binder Name → Prop) → Interpreter → Interpreter → Prop}
    [Stepping Step] (hbegins : ∀ sources m', begins sources m' → m.Evolves m')
    (h : Course Step begins closing sources m') : m.Evolves m' := by
  induction h with
  | start h => exact hbegins _ _ h
  | load _ _ ih => exact ih
  | intern _ _ ih | warn _ _ ih | link _ _ ih | close _ _ ih =>
      exact ⟨ih.scopes, ih.functions, ih.classes⟩
  | move _ hm' ih => exact ih.trans (Stepping.move hm').evolves

end Courses

/-- **`this` and `base` are right.** An instance that was made binds `this` to itself, and `base` to
the instance that its base expression gave in the scope of its parameters, or does not bind it if
that gave none. Both are constants, and this stays so in every state that the interpreter comes to
from there. -/
theorem this_and_base_right [Text.CharNames]
    {sources : List Source} {k : Nat} {id : ClassId} {c : ClassObject}
    {args : List Value} {primitive : Option Primitive} {span : Span}
    (h : Course Deed New True sources m) (hc : m.classes[id.index]? = some c)
    (hdone : instantiate (evaluator k) id c args primitive span m = .done s m') :
    ∃ base m₁ m₂,
      bindParams span c.decl.params args (m.onEnv (·.pushChildOf c.scope)) = .done () m₁ ∧
      baseInstance (evaluator k) c.decl.base m₁ = .done base m₂ ∧
      ∀ sources' m'',
        Course Deed (fun used n => used = sources ∧ n = m') True sources' m'' →
          m''.env.scopes.own? s Name.this = some (.constant (.inst s)) ∧
          m''.env.scopes.own? s Name.base = base.map fun b => .constant (.inst b) := by
  obtain ⟨hreachable, hbears⟩ := h.bears New.bear
  have hright := h.right New.bear fun _ _ => New.right
  obtain ⟨base, m₁, m₂, hparams, hbase, hselves⟩ :=
    selves_of_instantiate (hreachable.validated sources) hright hbears hc hdone
  have hwalk : WalksTo _ m (instantiate (evaluator k) id c args primitive span m) _ :=
    walksAt_instantiate (evaluatesByMoves _ k) args primitive
      (hbears.classes c (Array.mem_of_getElem? hc)) hbears hc
  rw [hdone] at hwalk
  have hmade := h.deeds hwalk.1
  refine ⟨base, m₁, m₂, hparams, hbase, fun sources' m'' hlater => ?_⟩
  have hevolves : m'.Evolves m'' := by
    refine hlater.evolves ?_
    rintro _ _ ⟨-, rfl⟩
    exact .refl _
  have hright'' : m''.Right := by
    refine hlater.right ?_ ?_
    · rintro _ _ ⟨rfl, rfl⟩
      exact hmade.bears New.bear
    · rintro _ _ ⟨rfl, rfl⟩
      exact hmade.right New.bear fun _ _ => New.right
  have hselves'' := hselves.later hevolves hright''
  exact ⟨hselves''.this, hselves''.base⟩

/-- What is parsed from two classes, of which the second has an instance of the first as its base.
-/
def baseCalls : InternedProgram where
  program := [
    .cls ⟨1, 1, 5⟩ ⟨⟨1, 1, 5⟩, "A", false, ⟨5⟩, [], none, []⟩,
    .cls ⟨2, 1, 5⟩ ⟨⟨2, 1, 5⟩, "B", false, ⟨6⟩, [],
      some (.invoke ⟨2, 12, 1⟩ (.name ⟨2, 11, 1⟩ ⟨5⟩) []), []⟩]
  warnings := []
  interner := ((Interner.new.intern "A").2.intern "B").2

attribute [local instance] Command.charNames

/-- An instance of `class B : A()` binds `this` to itself and `base` to the instance of `A`. -/
theorem this_and_base_right_call : ∃ m c s b m',
    Course Deed New True [⟨"a", "class A\nclass B : A()"⟩] m ∧ m.classes[1]? = some c ∧
    instantiate (evaluator 4) ⟨1⟩ c [] none Span.none m = .done s m' ∧
    m'.env.scopes.own? s Name.this = some (.constant (.inst s)) ∧
    m'.env.scopes.own? s Name.base = some (.constant (.inst b)) := by
  have hparse : (Interpreter.new .empty default).interner.parse "class A\nclass B : A()" =
      .ok baseCalls := by cbv
  have htest : (Interpreter.runParsed baseCalls (.new .empty default)).passes (fun _ m =>
      m.classes[1]?.any fun c =>
        (instantiate (evaluator 4) ⟨1⟩ c [] none Span.none m).passes fun s m' =>
          (m'.env.scopes.own? s Name.base).isSome) = true := by decide +kernel
  obtain ⟨r, m, hrun, htest⟩ := Outcome.exists_done_of_passes htest
  rw [← @Interpreter.runSource_of_parse _ ⟨"a", _⟩ _ _ hparse] at hrun
  have hcourse : Course Deed New True [⟨"a", "class A\nclass B : A()"⟩] m :=
    (Course.start ⟨rfl, .empty, default, rfl⟩).runSource New.bear (by rw [hrun]; rfl)
  obtain ⟨c, hc, htest⟩ := (Option.any_eq_true _ _).mp htest
  obtain ⟨s, m', hdone, hsome⟩ := Outcome.exists_done_of_passes htest
  obtain ⟨base, -, -, -, -, hlater⟩ := this_and_base_right hcourse hc hdone
  obtain ⟨hthis, hbase⟩ := hlater _ m' (.start ⟨rfl, rfl⟩)
  rw [hbase, Option.isSome_map] at hsome
  obtain ⟨b, rfl⟩ := Option.isSome_iff_exists.mp hsome
  exact ⟨m, c, s, b, m', hcourse, hc, hdone, hthis, hbase⟩

end IslandScript
