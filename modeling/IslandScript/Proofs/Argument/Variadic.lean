import IslandScript.Proofs.Argument.Evaluation
import IslandScript.Proofs.Argument.Resolution
import IslandScript.Proofs.Logic.Elementary
import IslandScript.Proofs.Scope.Update

/-!
# What a variadic parameter receives

The arguments that are left for the variadic parameter are collected in a list that is made last of
all, when the expressions of the call have been evaluated: its table is none that was there, so
whoever changes it changes no other list. Only an argument with the name of the parameter gets past
that. Its value is what the parameter receives, be it a list of the caller or no list at all.
-/

namespace IslandScript

/-! ## Tables behind a new one -/

namespace Tables

variable {ts : Tables} {t : TableId} {items : List Value}

theorem get_alloc_of_lt (h : t.index < ts.size) : (ts.alloc items).2.get t = ts.get t := by
  unfold get alloc
  rw [Array.getElem?_push_lt h, Array.getElem?_eq_getElem h]

theorem get_alloc_self : (ts.alloc items).2.get (ts.alloc items).1 = Table.ofList items := by
  unfold get alloc
  rw [Array.getElem?_push_size]
  rfl

end Tables

namespace Eval

variable {ev : Evaluator} {m m' : Interpreter} {span : Span}
variable {params : List (Param Name (Expr Name))} {args : List (Arg Name (Expr Name))}

/-! ## Lists that are new -/

/-- From `before` to `after` nothing happens but that the list `v` is made. -/
structure NewList (before after : Interpreter) (v : Value) (items : List Value) : Prop where
  /-- The list is none of those that were there. -/
  table : v = .list ⟨before.store.tables.size⟩
  made : after = (before.newList items).2
  /-- It has the items that were collected. -/
  holds : after.store.tables.items ⟨before.store.tables.size⟩ = items
  /-- Whatever is done to it, the lists that were there stay as they were. -/
  apart : ∀ (t : TableId) (f : Table → Table), t.index < before.store.tables.size →
    (after.store.update ⟨before.store.tables.size⟩ f).tables.get t = before.store.tables.get t
  /-- It has a size, now and later. -/
  sized : ∀ ts : Tables, UnaryOp.size.apply? ts v =
    some (.value (.ofSize (ts.length ⟨before.store.tables.size⟩)))
  /-- It can be iterated over, now and later. -/
  iterated : ∀ (m : Interpreter) (span : Span), spread v span m =
    .done (m.store.tables.items ⟨before.store.tables.size⟩) m

theorem newList_newList (m : Interpreter) (items : List Value) :
    NewList m (m.newList items).2 (m.newList items).1 items where
  table := rfl
  made := rfl
  holds := by
    have halloc : (m.newList items).2.store.tables.get ⟨m.store.tables.size⟩ = .ofList items :=
      Tables.get_alloc_self
    exact congrArg (·.items.toList) halloc
  apart t f h := by
    have hne : t ≠ ⟨m.store.tables.size⟩ := fun heq => Nat.lt_irrefl _ (heq ▸ h)
    exact (Tables.get_update_of_ne hne f).trans (Tables.get_alloc_of_lt h)
  sized _ := rfl
  iterated _ _ := rfl

/-! ## The value of the last parameter -/

/-- The value of an entry. -/
def entryValue (ev : Evaluator) : Resolved (Expr Name) → Eval Value
  | .single e => ev.expr e
  | .rest items => do
    let values ← restArgs ev items
    take (·.newList values)

/-- The values of entries are those of each of them in order. -/
theorem resolvedArgs_cons_eq_done {entry : Resolved (Expr Name)}
    {entries : List (Resolved (Expr Name))} {values : List Value} :
    resolvedArgs ev (entry :: entries) m = .done values m' ↔
      ∃ v m₁ rest, entryValue ev entry m = .done v m₁ ∧
        resolvedArgs ev entries m₁ = .done rest m' ∧ v :: rest = values := by
  cases entry with
  | single e =>
    simp only [resolvedArgs, entryValue, bind_eq_done]
    constructor
    · rintro ⟨v, m₁, hv, rest, m₂, hrest, h⟩
      cases h
      exact ⟨v, m₁, rest, hv, hrest, rfl⟩
    · rintro ⟨v, m₁, rest, hv, hrest, rfl⟩
      exact ⟨v, m₁, hv, rest, m', hrest, rfl⟩
  | rest items =>
    simp only [resolvedArgs, entryValue, bind_eq_done]
    constructor
    · rintro ⟨vs, m₁, hvs, v, m₂, hv, rest, m₃, hrest, h⟩
      cases h
      exact ⟨v, m₂, rest, ⟨vs, m₁, hvs, hv⟩, hrest, rfl⟩
    · rintro ⟨v, m₂, rest, ⟨vs, m₁, hvs, hv⟩, hrest, rfl⟩
      exact ⟨vs, m₁, hvs, v, m₂, hv, rest, m', hrest, rfl⟩

theorem length_of_resolvedArgs {entries : List (Resolved (Expr Name))} {values : List Value}
    (h : resolvedArgs ev entries m = .done values m') : values.length = entries.length := by
  induction entries generalizing m values with
  | nil =>
    cases h
    rfl
  | cons entry entries ih =>
    obtain ⟨v, m₁, rest, -, hrest, rfl⟩ := resolvedArgs_cons_eq_done.mp h
    simp [ih hrest]

/-- The last entry is evaluated last. -/
theorem resolvedArgs_concat {entries : List (Resolved (Expr Name))} {entry : Resolved (Expr Name)}
    {values : List Value} (h : resolvedArgs ev (entries ++ [entry]) m = .done values m') :
    ∃ front m₁ v, resolvedArgs ev entries m = .done front m₁ ∧
      entryValue ev entry m₁ = .done v m' ∧ values = front ++ [v] := by
  induction entries generalizing m values with
  | nil =>
    obtain ⟨v, m₁, rest, hv, hrest, rfl⟩ := resolvedArgs_cons_eq_done.mp h
    cases hrest
    exact ⟨[], m, v, rfl, hv, rfl⟩
  | cons first entries ih =>
    obtain ⟨w, m₁, rest, hw, hrest, rfl⟩ := resolvedArgs_cons_eq_done.mp h
    obtain ⟨front, m₂, v, hfront, hv, rfl⟩ := ih hrest
    exact ⟨w :: front, m₂, v, resolvedArgs_cons_eq_done.mpr ⟨w, m₁, front, hw, hfront, rfl⟩, hv, rfl⟩

end Eval

/-! ## The entry of a variadic parameter at the end -/

namespace Arguments

variable {ν ε : Type} [DecidableEq ν]
variable {params : List (Param ν ε)} {args : List (Arg ν ε)}

/-- The arguments that are left for a variadic parameter at the end. -/
def leftOver (params : List (Param ν ε)) (args : List (Arg ν ε)) : List (Arg ν ε) :=
  (positionals args).drop (turn params args (params.length - 1))

/-- A variadic parameter at the end receives the argument that has its name, or else the collected
rest. -/
theorem entryAt_last (h : takesRest params) :
    entryAt params args (params.length - 1) =
      ((byName? params args (params.length - 1)).map fun a => .single a.expr).or
        (some (collected (leftOver params args))) := by
  rw [takesRest, List.getLast?_eq_getElem?] at h
  obtain ⟨p, hp, hv⟩ := (Option.any_eq_true _ _).mp h
  have hlen : params.length - 1 + 1 = params.length := by
    have := (List.getElem?_eq_some_iff.mp hp).1
    omega
  simp only [entryAt, hp, Option.bind_some, unnamedEntry, hv, if_true, hlen, leftOver]

/-- Entries end with that of the last parameter. -/
theorem resolve_last {entries : List (Resolved ε)} (hrest : takesRest params)
    (h : resolve params args = some entries) :
    ∃ front entry, entries = front ++ [entry] ∧ front.length + 1 = params.length ∧
      entryAt params args (params.length - 1) = some entry := by
  obtain ⟨-, -, -, hmap⟩ := resolve_eq_some.mp h
  have hlen : params.length = entries.length := by simpa using congrArg List.length hmap
  have hne : params ≠ [] := by
    rintro rfl
    simp [takesRest] at hrest
  have hpos : 0 < params.length := List.length_pos_iff.mpr hne
  rcases List.eq_nil_or_concat' entries with rfl | ⟨front, entry, rfl⟩
  · simp_all
  · have hfront : front.length + 1 = params.length := by simpa using hlen.symm
    refine ⟨front, entry, rfl, hfront, ?_⟩
    have hlast : params.length - 1 = front.length := by omega
    have hat := congrArg (·[params.length - 1]?) hmap
    simp only [List.getElem?_map, List.getElem?_range (Nat.sub_lt hpos Nat.one_pos),
      Option.map_some, List.map_append] at hat
    simpa [hlast] using hat

end Arguments

namespace Eval

variable {ev : Evaluator} {m m' : Interpreter} {span : Span}
variable {params : List (Param Name (Expr Name))} {args : List (Arg Name (Expr Name))}

/-- How a variadic parameter at the end comes by its value while the arguments of a call are
evaluated, from `m` to `m'`. -/
inductive ReceivesRest (ev : Evaluator) (params : List (Param Name (Expr Name)))
    (args : List (Arg Name (Expr Name))) (m m' : Interpreter) (v : Value) : Prop
  /-- It is not taken by name. When what the other parameters receive and then the arguments that
  are left have been evaluated, a list of what they come to is made. -/
  | collected {es : List (Expr Name)} {items : List Value} {m₁ m₂ : Interpreter}
      (free : Arguments.byName? params args (params.length - 1) = none)
      (others : Evaluates ev es m m₁)
      (left : restArgs ev ((Arguments.leftOver params args).map fun a => (a.spread, a.expr)) m₁ =
        .done items m₂)
      (fresh : NewList m₂ m' v items)
  /-- It is taken by name, and receives what that argument comes to. -/
  | named {es : List (Expr Name)} {a : Arg Name (Expr Name)} {m₁ : Interpreter}
      (taken : Arguments.byName? params args (params.length - 1) = some a)
      (others : Evaluates ev es m m₁)
      (value : ev.expr a.expr m₁ = .done v m')

theorem receivesRest_of_arguments {name : String} {values : List Value}
    (hrest : Arguments.takesRest params)
    (h : arguments ev params name args span m = .done values m') :
    values.length = params.length ∧
      ∃ v, values.getLast? = some v ∧ ReceivesRest ev params args m m' v := by
  unfold arguments at h
  cases hr : Arguments.resolve params args with
  | none => simp [hr, fail, raise] at h
  | some entries =>
    rw [hr] at h
    obtain ⟨front, entry, rfl, hlen, hentry⟩ := Arguments.resolve_last hrest hr
    obtain ⟨before, m₁, v, hbefore, hv, rfl⟩ := resolvedArgs_concat h
    refine ⟨by simpa [length_of_resolvedArgs hbefore] using hlen, v, by simp, ?_⟩
    rw [Arguments.entryAt_last hrest] at hentry
    cases hn : Arguments.byName? params args (params.length - 1) with
    | some a =>
      rw [hn] at hentry
      cases hentry
      exact .named hn (evaluates_resolvedArgs hbefore) hv
    | none =>
      rw [hn] at hentry
      cases hentry
      obtain ⟨items, m₂, hitems, hmade⟩ := bind_eq_done.mp hv
      cases hmade
      exact .collected hn (evaluates_resolvedArgs hbefore) hitems (newList_newList m₂ items)

/-! ## The binding of the last parameter -/

/-- The last parameter is bound to the last value. -/
theorem own?_of_bindParams {values : List Value} {p : Param Name (Expr Name)} {v : Value}
    (hlen : values.length = params.length) (hp : params.getLast? = some p)
    (hv : values.getLast? = some v) (hcur : m.env.current.index < m.env.scopes.size)
    (hname : m.text p.name ≠ discarded) (h : bindParams span params values m = .done () m') :
    m'.env.own? p.name = some ⟨.constant, p.mutable, v⟩ := by
  induction params generalizing m values with
  | nil => cases hp
  | cons q params ih =>
    obtain _ | ⟨w, values⟩ := values
    · cases hlen
    simp only [bindParams, bind_eq_done] at h
    obtain ⟨_, m₁, hbind, hdone⟩ := h
    obtain ⟨htext, hcur₁⟩ : m₁.text = m.text ∧ m₁.env.current.index < m₁.env.scopes.size := by
      rcases bindName_eq_done.mp hbind with ⟨-, rfl⟩ | ⟨-, -, rfl⟩
      · exact ⟨rfl, hcur⟩
      · exact ⟨rfl, Nat.lt_of_lt_of_eq hcur (Scopes.size_update _).symm⟩
    obtain _ | ⟨q', params⟩ := params
    · obtain rfl : values = [] := List.length_eq_zero_iff.mp (by simpa using hlen)
      obtain rfl : q = p := Option.some.inj hp
      obtain rfl : w = v := Option.some.inj hv
      cases hdone
      rcases bindName_eq_done.mp hbind with ⟨hd, -⟩ | ⟨-, -, rfl⟩
      · exact absurd hd hname
      · exact Environment.own?_bindIn_self hcur
    · obtain ⟨w', values, rfl⟩ := List.exists_cons_of_length_pos
        (l := values) (by simp at hlen; omega)
      rw [List.getLast?_cons_cons] at hp hv
      exact ih (by simpa using hlen) hp hv hcur₁ (by rwa [htext]) hdone

theorem current_pushChildOf_lt (env : Environment) (s : ScopeId) :
    (env.pushChildOf s).current.index < (env.pushChildOf s).scopes.size := by
  simp [Environment.pushChildOf, Environment.create, Environment.push, Environment.current]

end Eval

open Eval

/-- **A variadic parameter receives a fresh list, unless an argument has its name.** When the
arguments of a call whose last parameter is variadic are evaluated, the last value is that of this
parameter. It is a list made for this call after all the expressions were evaluated, so no change of
it shows in a list that was there, and its size and its items can be taken. If an argument of the
call has the name of the parameter, it is that argument's value instead, as it is. Either way it is
what the name is bound to in the scope of the call. -/
theorem variadic_receives_fresh_list (ev : Evaluator) (params : List (Param Name (Expr Name)))
    (name : String) (args : List (Arg Name (Expr Name))) (span : Span) (m m' : Interpreter)
    (values : List Value) (hrest : Arguments.takesRest params)
    (h : arguments ev params name args span m = .done values m') :
    ∃ p v, params.getLast? = some p ∧ values.getLast? = some v ∧ values.length = params.length ∧
      ReceivesRest ev params args m m' v ∧
      ∀ scope m₁, bindParams span params values (m'.onEnv (·.pushChildOf scope)) = .done () m₁ →
        m'.text p.name ≠ discarded → m₁.env.own? p.name = some ⟨.constant, p.mutable, v⟩ := by
  obtain ⟨hlen, v, hv, hreceives⟩ := receivesRest_of_arguments hrest h
  obtain ⟨p, hp, -⟩ := (Option.any_eq_true _ _).mp hrest
  refine ⟨p, v, hp, hv, hlen, hreceives, fun scope m₁ hbind hname => ?_⟩
  exact own?_of_bindParams (m := m'.onEnv (·.pushChildOf scope)) hlen hp hv
    (current_pushChildOf_lt m'.env scope) hname hbind

/-- `(a, *rest)`. -/
def restParams : List (Param Name (Expr Name)) :=
  [⟨.none, none, false, false, ⟨5⟩, none⟩, ⟨.none, none, false, true, ⟨6⟩, none⟩]

/-- `(1, *"ab", 3)`. -/
def spreadCall : List (Arg Name (Expr Name)) :=
  [⟨.none, false, none, .value .none (.number 1)⟩, ⟨.none, true, none, .value .none (.string "ab")⟩,
    ⟨.none, false, none, .value .none (.number 3)⟩]

theorem variadic_receives_fresh_list_spread :
    Arguments.takesRest restParams ∧
      ∃ m', arguments (evaluator 2) restParams "f" spreadCall .none (.new .empty default) =
          .done [.number 1, .list ⟨0⟩] m' ∧
        m'.store.tables.items ⟨0⟩ = [.string "a", .string "b", .number 3] ∧
        ReceivesRest (evaluator 2) restParams spreadCall (.new .empty default) m' (.list ⟨0⟩) := by
  refine ⟨rfl, _, rfl, rfl, ?_⟩
  obtain ⟨_, _, -, hv, -, hreceives, -⟩ :=
    variadic_receives_fresh_list (evaluator 2) restParams "f" spreadCall .none (.new .empty default)
      _ [.number 1, .list ⟨0⟩] rfl rfl
  cases hv
  exact hreceives

/-- A state with one list, to which the name 7 is bound. -/
def holdingList : Interpreter :=
  ((Interpreter.new .empty default).newList []).2.onEnv
    (·.define Environment.global ⟨7⟩ (.constant (.list ⟨0⟩)))

/-- `(1, rest = e)`. -/
def namedCall (e : Expr Name) : List (Arg Name (Expr Name)) :=
  [⟨.none, false, none, .value .none (.number 1)⟩, ⟨.none, false, some ⟨6⟩, e⟩]

/-- By its name a variadic parameter receives a list of the caller, which grows when it is pushed
to, or a number, which has no size. -/
theorem named_variadic_receives_argument :
    Arguments.takesRest restParams ∧
      (holdingList.env.lookup? ⟨7⟩ = some (.list ⟨0⟩) ∧
        arguments (evaluator 2) restParams "f" (namedCall (.name .none ⟨7⟩)) .none holdingList =
          .done [.number 1, .list ⟨0⟩] holdingList ∧
        (holdingList.store.update ⟨0⟩ (·.push .unit)).tables.length ⟨0⟩ ≠
          holdingList.store.tables.length ⟨0⟩) ∧
      arguments (evaluator 2) restParams "f" (namedCall (.value .none (.number 5))) .none
          holdingList = .done [.number 1, .number 5] holdingList ∧
        UnaryOp.size.apply? holdingList.store.tables (.number 5) = none :=
  ⟨rfl, ⟨rfl, rfl, by decide⟩, rfl, rfl⟩

end IslandScript
