import IslandScript.Command.Characters
import IslandScript.Proofs.Move.History
import IslandScript.Proofs.Scope.Reachable

/-!
# Discarded names

The name `_` is bound nowhere, but for the entries of enums: these are defined as members without a
look at their names. `discarded_unbound` says so of all that an interpreter comes to, and what follows
where no source has such an entry: `_` may be bound again and again, and reading it is an error.
-/

namespace IslandScript

open Eval

variable {P : Binder Name → Prop} {m m' : Interpreter} {s : ScopeId} {n : Name} {r : Reference}

/-! ## How a binding came about -/

/-- Why a scope binds a name after a move. -/
inductive Move.Cause (P : Binder Name → Prop) (m : Interpreter) (s : ScopeId) (n : Name)
    (r : Reference) : Prop
  /-- It did before, and to the same if it was a constant. -/
  | kept {r₀ : Reference} (hown : m.env.scopes.own? s n = some r₀)
      (hr : r₀.kind = .constant → r = r₀)
  /-- The code binds it, and it is not discarded. -/
  | bound {kind : BinderKind} (hb : P ⟨kind, n⟩) (hname : m.text n ≠ discarded)
  | fixed (hn : n ∈ [Name.this, Name.base, Name.name, Name.ordinal])
  /-- A scope that is no instance binds it. -/
  | param {t : ScopeId} {r₀ : Reference} (ht : (m.env.scopes.get t).frame = none)
      (hown : m.env.scopes.own? t n = some r₀)
  /-- It is the entry of an enum. -/
  | entry {e : ScopeId} {c : ClassId} (hn : P ⟨.entry, n⟩) (hs : m.InstanceOf s c)
      (he : m.InstanceOf e c) (hr : r = .constant (.inst e))

theorem Move.cause (h : Move P m m') (hown : m'.env.scopes.own? s n = some r) :
    Move.Cause P m s n r := by
  have hkept : m.env.scopes.own? s n = some r → Move.Cause P m s n r := fun h => .kept h fun _ => rfl
  cases h with
  | @bind b r' hb hname hfree =>
      rcases Environment.own?_bindIn_cases hown with ⟨-, rfl, -⟩ | hold
      · exact .bound hb hname
      · exact hkept hold
  | @write k t v ht =>
      rcases Scopes.own?_update_cases hown with ⟨rfl, hown⟩ | hown
      · rcases Scope.own?_write_cases hown with ⟨rfl, r₀, hown₀⟩ | hown
        · refine .kept hown₀ fun hconstant => ?_
          -- a constant cannot be written
          exact absurd hconstant (Scopes.ne_constant_of_assignable ht r₀ hown₀)
        · exact hkept hown
      · exact hkept hown
  | fixed hn =>
      rcases Environment.own?_define_cases hown with ⟨rfl, rfl, rfl⟩ | hown
      · exact .fixed hn
      · exact hkept hown
  | param ht hr =>
      rcases Environment.own?_define_cases hown with ⟨rfl, rfl, rfl⟩ | hown
      · exact .param ht hr
      · exact hkept hown
  | entry hn hs he =>
      rcases Environment.own?_define_cases hown with ⟨rfl, rfl, rfl⟩ | hown
      · exact .entry hn hs he rfl
      · exact hkept hown
  | inst | enterNew => exact hkept (Scopes.own?_push_of_nil rfl hown)
  | @state t =>
      rcases Scopes.own?_update_cases hown with ⟨rfl, hown⟩ | hown
      · exact hkept hown
      · exact hkept hown
  | leave => exact hkept (Environment.scopes_pop _ ▸ hown)
  | function | cls | store | wrapper | enter => exact hkept hown

theorem Scopes.member?_eq_none {g : Scopes} (h : ∀ t, g.own? t n = none) (s : ScopeId) :
    g.member? s n = none := by
  unfold member?
  cases g.memberHolder? s n with
  | none => rfl
  | some t => simp [h t]

theorem Scopes.lookup?_eq_none {g : Scopes} (h : ∀ t, g.own? t n = none) (s : ScopeId) :
    g.lookup? s n = none := by
  unfold lookup?
  cases g.holder? s n with
  | none => rfl
  | some t => simp [h t]

/-- The fixed names have texts, and none is `_`. -/
theorem Interner.Reachable.stands_fixed {i : Interner} (h : i.Reachable)
    (hn : n ∈ [Name.this, Name.base, Name.name, Name.ordinal]) :
    ∃ text, i.Stands n text ∧ text ≠ discarded := by
  have hfixed {l : Nat} {text : String} (hl : Interner.new.texts[l]? = some text) :
      i.Stands ⟨l⟩ text := stands_of_getElem? (h.getElem? hl)
  simp only [List.mem_cons, List.not_mem_nil, or_false] at hn
  rcases hn with rfl | rfl | rfl | rfl
  · exact ⟨"this", hfixed rfl, by decide⟩
  · exact ⟨"base", hfixed rfl, by decide⟩
  · exact ⟨"name", hfixed rfl, by decide⟩
  · exact ⟨"ordinal", hfixed rfl, by decide⟩

/-! ## What `_` is bound to -/

section Life

variable [Text.CharNames]

/-- A scope binds the name `_` as the entry of an enum in one of the sources. -/
structure DiscardedEntry (sources : List Source) (m : Interpreter) (s : ScopeId) (r : Reference) :
    Prop where
  source : ∃ source ∈ sources, source.Binds ⟨.entry, discarded⟩
  /-- The scope is an instance of the class of the enum, and so is what is bound. -/
  entry : ∃ e c, r = .constant (.inst e) ∧ m.InstanceOf s c ∧ m.InstanceOf e c

/-- A name that a scope binds has a text, which is `_` for entries of enums only. -/
def Named (sources : List Source) (m : Interpreter) (s : ScopeId) (n : Name) (r : Reference) :
    Prop :=
  ∃ text, m.interner.Stands n text ∧ (text = discarded → DiscardedEntry sources m s r)

theorem Named.evolves {sources : List Source} (h : Named sources m s n r) (hm : m.Evolves m')
    (hi : m'.interner = m.interner) (hr : r.kind = .constant → r' = r) : Named sources m' s n r' := by
  obtain ⟨text, hstands, hentry⟩ := h
  refine ⟨text, hi ▸ hstands, fun htext => ?_⟩
  obtain ⟨hsource, e, c, rfl, hs, he⟩ := hentry htext
  obtain rfl := hr rfl
  exact ⟨hsource, e, c, rfl, hm.instanceOf hs, hm.instanceOf he⟩

/-- A move of code of the sources binds no other names. -/
theorem Move.named {sources : List Source} (h : Move (BinderOf sources m.interner) m m')
    (hi : m.interner.Reachable)
    (hm : ∀ s n r, m.env.scopes.own? s n = some r → Named sources m s n r)
    (hown : m'.env.scopes.own? s n = some r) : Named sources m' s n r := by
  have hother {text : String} (hstands : m.interner.Stands n text) (htext : text ≠ discarded) :
      Named sources m' s n r := ⟨text, h.interner ▸ hstands, fun heq => absurd heq htext⟩
  cases h.cause hown with
  | kept hown₀ hr => exact (hm s n _ hown₀).evolves h.evolves h.interner hr
  | bound hb hname =>
      obtain ⟨text, hstands, -⟩ := hb
      exact hother hstands fun htext => hname (hstands.text_eq.trans htext)
  | fixed hn =>
      obtain ⟨text, hstands, htext⟩ := hi.stands_fixed hn
      exact hother hstands htext
  | @param t r₀ ht hown₀ =>
      obtain ⟨text, hstands, hentry⟩ := hm t n r₀ hown₀
      refine hother hstands fun htext => ?_
      -- the scope of parameters is no instance, so it has no entries
      obtain ⟨-, -, c, -, hinst, -⟩ := hentry htext
      unfold Interpreter.InstanceOf at hinst
      rw [ht] at hinst
      cases hinst
  | entry hb hs he hr =>
      obtain ⟨text, hstands, hbinds⟩ := hb
      refine ⟨text, h.interner ▸ hstands, ?_⟩
      rintro rfl
      exact ⟨hbinds, _, _, hr, h.evolves.instanceOf hs, h.evolves.instanceOf he⟩

variable {closing : Prop} {sources : List Source}

/-- Every scope that an interpreter comes to binds `_` for entries of enums only. -/
theorem Course.named (h : Course Move New closing sources m) (s : ScopeId) (n : Name) (r : Reference)
    (hown : m.env.scopes.own? s n = some r) : Named sources m s n r := by
  induction h generalizing s n r with
  | start h =>
      obtain ⟨-, linker, console, rfl⟩ := h
      unfold Scopes.own? at hown
      rw [show (Interpreter.new linker console).env = .new from rfl, Environment.get_new] at hown
      cases hown
  | load source _ ih =>
      obtain ⟨text, hstands, hentry⟩ := ih s n r hown
      refine ⟨text, hstands, fun htext => ?_⟩
      obtain ⟨⟨used, hused, hbinds⟩, hinst⟩ := hentry htext
      exact ⟨⟨used, List.mem_cons_of_mem _ hused, hbinds⟩, hinst⟩
  | intern hi _ ih =>
      obtain ⟨text, hstands, hentry⟩ := ih s n r hown
      exact ⟨text, hstands.grow hi, fun htext => ⟨(hentry htext).source, (hentry htext).entry⟩⟩
  | warn _ _ ih | link _ _ ih | close _ _ ih =>
      obtain ⟨text, hstands, hentry⟩ := ih s n r hown
      exact ⟨text, hstands, fun htext => ⟨(hentry htext).source, (hentry htext).entry⟩⟩
  | move h hm' ih => exact hm'.named (h.bears New.bear).1 ih hown

/-! ## What follows where `_` is bound nowhere -/

namespace Course

theorem discardedEntry (h : Course Move New closing sources m) (hn : m.text n = discarded)
    (hown : m.env.scopes.own? s n = some r) : DiscardedEntry sources m s r := by
  obtain ⟨text, hstands, hentry⟩ := h.named s n r hown
  exact hentry (hstands.text_eq.symm.trans hn)

/-- Where no source has an entry `_`, no scope binds the name. -/
theorem own?_eq_none (h : Course Move New closing sources m)
    (hsources : ∀ source ∈ sources, ¬source.Binds ⟨.entry, discarded⟩)
    (hn : m.text n = discarded) (s : ScopeId) : m.env.scopes.own? s n = none := by
  refine Option.eq_none_iff_forall_ne_some.mpr fun r hown => ?_
  obtain ⟨source, hsource, hbinds⟩ := (h.discardedEntry hn hown).source
  exact hsources source hsource hbinds

/-- It is a member of nothing, be it of an instance or of one that wraps a primitive. -/
theorem memberOf_eq {k : Nat} {v : Value} {span : Span} {s? : Option ScopeId}
    (h : Course Move New closing sources m)
    (hsources : ∀ source ∈ sources, ¬source.Binds ⟨.entry, discarded⟩)
    (hn : m.text n = discarded) (hinst : instanceOf (evaluator k) v span m = .done s? m') :
    memberOf (evaluator k) v n span m =
      .raised (.failed ⟨.undefinedMember (m'.display v) discarded, span⟩) m' := by
  have hmoves := (walks_instanceOf (evaluatesByMoves _ k) v).moves (h.bears New.bear).2 hinst
  have hn' : m'.text n = discarded := hmoves.text ▸ hn
  have hnone := (h.moves hmoves).own?_eq_none hsources hn'
  have hmember : (s?.bind (m'.env.scopes.member? · n)) = none := by
    cases s? with
    | none => rfl
    | some s => exact Scopes.member?_eq_none hnone s
  unfold memberOf
  rw [bind_done hinst, bind_apply]
  simp only [Eval.read, hmember, bind_apply, hn', failShowing]

/-- No expression reads it as a member. -/
theorem member_not_done {k : Nat} {e : Expr Name} {span : Span} {w : Value}
    (h : Course Move New closing sources m)
    (hsources : ∀ source ∈ sources, ¬source.Binds ⟨.entry, discarded⟩)
    (hn : m.text n = discarded) (he : Bears (BinderOf sources m.interner) e.binders) :
    (evaluator k).expr (.member span e n) m ≠ .done w m' := by
  intro hdone
  cases k with
  | zero => cases hdone
  | succ k =>
      change atLevel k (exprStep (evaluator k) (.member span e n)) m = _ at hdone
      rw [Logic.atLevel_eq] at hdone
      obtain ⟨v, m₁, hv, hdone⟩ := bind_eq_done.mp hdone
      obtain ⟨⟨u, s?⟩, m₂, hmember, -⟩ := bind_eq_done.mp hdone
      have hmoves := ((evaluatesByMoves _ k).expr e he).moves (h.bears New.bear).2 hv
      have hn₁ : m₁.text n = discarded := hmoves.text ▸ hn
      obtain ⟨s, m₃, hinst, -⟩ := bind_eq_done.mp hmember
      rw [(h.moves hmoves).memberOf_eq hsources hn₁ hinst] at hmember
      cases hmember

end Course

/-- **`_` is bound for entries of enums only.** Where no source that was run has an entry `_`, no scope
binds the name: it may be bound again and again, to no effect, and to read it is an error. -/
theorem discarded_unbound (h : Lived New closing sources m) (hn : m.text n = discarded) :
    (∀ s r, m.env.scopes.own? s n = some r → DiscardedEntry sources m s r) ∧
    ((∀ source ∈ sources, ¬source.Binds ⟨.entry, discarded⟩) →
      (∀ s, m.env.scopes.own? s n = none) ∧
      (∀ r span, Eval.bind n r span m = .done () m) ∧
      (∀ span, nameValue n span m = .raised (.failed ⟨.undefinedName discarded, span⟩) m) ∧
      (∀ k v span s? m', instanceOf (evaluator k) v span m = .done s? m' →
        memberOf (evaluator k) v n span m =
          .raised (.failed ⟨.undefinedMember (m'.display v) discarded, span⟩) m') ∧
      ∀ k e span, Bears (BinderOf sources m.interner) e.binders → ∀ w m',
        (evaluator k).expr (.member span e n) m ≠ .done w m') := by
  have hcourse := h.course New.bear
  refine ⟨fun _ _ => hcourse.discardedEntry hn, fun hsources => ?_⟩
  have hnone := hcourse.own?_eq_none hsources hn
  refine ⟨hnone, fun _ _ => bind_discarded hn, fun span => ?_,
    fun _ _ _ _ _ => hcourse.memberOf_eq hsources hn,
    fun _ _ _ he _ _ => hcourse.member_not_done hsources hn he⟩
  unfold nameValue Environment.lookup?
  rw [Scopes.lookup?_eq_none hnone, hn]

end Life

/-- What is parsed from two declarations of `_`. -/
def discardedTwice : InternedProgram where
  program := [.declare ⟨1, 1, 3⟩ .constant false (.name ⟨5⟩) (.value ⟨1, 9, 4⟩ (.bool true)),
    .declare ⟨2, 1, 3⟩ .constant false (.name ⟨5⟩) (.value ⟨2, 9, 4⟩ (.bool true))]
  warnings := [.discardedName ⟨1, 5, 1⟩, .discardedName ⟨2, 5, 1⟩]
  interner := (Interner.new.intern "_").2

attribute [local instance] Command.charNames

/-- Two constants, both discarded. -/
theorem discarded_unbound_twice : ∃ m,
    Lived New True [⟨"a", "let _ = true\nlet _ = true"⟩] m ∧ m.text ⟨5⟩ = discarded ∧
      (∀ s, m.env.scopes.own? s ⟨5⟩ = none) ∧
      nameValue ⟨5⟩ ⟨3, 1, 1⟩ m = .raised (.failed ⟨.undefinedName discarded, ⟨3, 1, 1⟩⟩) m := by
  have hparse : (Interpreter.new .empty default).interner.parse "let _ = true\nlet _ = true" =
      .ok discardedTwice := by cbv
  obtain ⟨r, m, hrun, htext⟩ : ∃ r m,
      Interpreter.runParsed discardedTwice (.new .empty default) = .done r m ∧
        m.text ⟨5⟩ = discarded := ⟨_, _, rfl, rfl⟩
  rw [← @Interpreter.runSource_of_parse _ ⟨"a", _⟩ _ _ hparse] at hrun
  have hlived : Lived New True [⟨"a", "let _ = true\nlet _ = true"⟩] m :=
    .source (.start ⟨rfl, .empty, default, rfl⟩) (by rw [hrun]; rfl)
  obtain ⟨hnone, -, hname, -⟩ := (discarded_unbound hlived htext).2 fun source hsource hbinds => by
    obtain rfl := List.mem_singleton.mp hsource
    obtain ⟨parsed, hparsed, hmem⟩ := hbinds
    cases (Interner.parse_read hparse .refl).symm.trans hparsed
    revert hmem
    decide
  exact ⟨m, hlived, htext, hnone, hname _⟩

/-- What is parsed from an enum with the entry `_`, and from a line that reads it. -/
def entryDiscarded : InternedProgram where
  program := [
    .enum ⟨1, 1, 4⟩ ⟨⟨1, 1, 4⟩, ⟨⟨1, 1, 4⟩, "E", false, ⟨5⟩, [], none, []⟩,
      [⟨⟨1, 10, 1⟩, ⟨6⟩, [], 0⟩]⟩,
    .expr ⟨2, 1, 1⟩ (.member ⟨2, 2, 1⟩ (.name ⟨2, 1, 1⟩ ⟨5⟩) ⟨6⟩)]
  warnings := [.discardedName ⟨1, 10, 1⟩]
  interner := ((Interner.new.intern "E").2.intern "_").2

/-- The entry `_` of an enum is bound as a member of it, and is read. -/
theorem entry_bound_as_discarded : ∃ m,
    Interpreter.runSource ⟨"a", "enum E { _ }\nE._"⟩ (.new .empty default) =
      .done (.ok ⟨.inst ⟨3⟩, false⟩) m ∧
    m.text ⟨6⟩ = discarded ∧ m.env.scopes.own? ⟨1⟩ ⟨6⟩ = some (.constant (.inst ⟨3⟩)) := by
  have hparse : (Interpreter.new .empty default).interner.parse "enum E { _ }\nE._" =
      .ok entryDiscarded := by cbv
  have htest : (Interpreter.runParsed entryDiscarded (.new .empty default)).passes (fun r m =>
      r.toOption == some ⟨.inst ⟨3⟩, false⟩ && (m.text ⟨6⟩ == discarded &&
        m.env.scopes.own? ⟨1⟩ ⟨6⟩ == some (.constant (.inst ⟨3⟩)))) = true := by decide +kernel
  obtain ⟨m, hrun, htest⟩ :=
    @Interpreter.exists_runSource_of_passes _ ⟨"a", _⟩ _ _ _ _ hparse htest
  simp only [Bool.and_eq_true, beq_iff_eq] at htest
  exact ⟨m, hrun, htest⟩

end IslandScript
