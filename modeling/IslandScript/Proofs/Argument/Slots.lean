import Mathlib.Data.List.Basic
import IslandScript.Syntax.Arguments

/-!
# The slots of a call

What each parameter of a call is to receive, said of the parameters and the arguments alone, and
what each of the passes of `resolve` does to a slot.

* A slot is taken by name by the last argument whose name is that of the slot, if the slot is the
  first of its name (`byName?`).
* A slot that is neither variadic nor taken by name waits for an argument without a name
  (`waits`). The waiting slots are served in order, so the turn of a slot is the number of
  waiting slots before it (`turn`).
* From both follows the entry of a slot (`entryAt`).
-/

namespace IslandScript.Arguments

variable {ν ε : Type} [DecidableEq ν]

/-! ## What a slot is to receive -/

/-- The arguments without a name, in the order of the call. -/
def positionals (args : List (Arg ν ε)) : List (Arg ν ε) := args.filter (·.name.isNone)

/-- The slot of a name: the first parameter that has it. -/
def slotOf? (params : List (Param ν ε)) (n : ν) : Option Nat := params.findIdx? (·.name == n)

/-- The argument that takes a slot by name. -/
def byName? (params : List (Param ν ε)) (args : List (Arg ν ε)) (i : Nat) : Option (Arg ν ε) :=
  params[i]?.bind fun p =>
    if slotOf? params p.name = some i then args.reverse.find? (·.name == some p.name) else none

/-- Whether a slot waits for an argument without a name. -/
def waits (params : List (Param ν ε)) (args : List (Arg ν ε)) (i : Nat) : Bool :=
  params[i]?.any fun p => (byName? params args i).isNone && !p.variadic

/-- The number of waiting slots before a slot. -/
def turn (params : List (Param ν ε)) (args : List (Arg ν ε)) (i : Nat) : Nat :=
  (List.range i).countP (waits params args)

/-- Whether the last parameter takes the rest of the arguments and is not taken by name. -/
def restWaits (params : List (Param ν ε)) (args : List (Arg ν ε)) : Bool :=
  takesRest params && (byName? params args (params.length - 1)).isNone

/-- What a variadic parameter receives when it is given arguments. -/
def collected (args : List (Arg ν ε)) : Resolved ε :=
  .rest (args.map fun a => (a.spread, a.expr))

/-- The entry of a slot that is not taken by name. A variadic parameter that is not the last one
is given no arguments. -/
def unnamedEntry (params : List (Param ν ε)) (args : List (Arg ν ε)) (i : Nat)
    (p : Param ν ε) : Option (Resolved ε) :=
  if p.variadic then
    if i + 1 = params.length then
      some (collected ((positionals args).drop (turn params args i)))
    else p.default.map .single
  else
    (((positionals args)[turn params args i]?).map fun a => .single a.expr).or
      (p.default.map .single)

/-- The entry of a slot: the argument that takes it by name, else the next argument without a
name, else the default; for a variadic parameter at the end all arguments without a name that are
left. -/
def entryAt (params : List (Param ν ε)) (args : List (Arg ν ε)) (i : Nat) :
    Option (Resolved ε) :=
  params[i]?.bind fun p =>
    ((byName? params args i).map fun a => .single a.expr).or (unnamedEntry params args i p)

/-! ## The pass over the names -/

/-- The slot an argument takes by its name. -/
def target? (params : List (Param ν ε)) (a : Arg ν ε) : Option Nat := a.name.bind (slotOf? params)

/-- Every name of an argument is that of a parameter. -/
def NamesKnown (params : List (Param ν ε)) (args : List (Arg ν ε)) : Prop :=
  ∀ a ∈ args, ∀ n, a.name = some n → ∃ p ∈ params, p.name = n

theorem slotOf?_isSome (params : List (Param ν ε)) (n : ν) :
    (slotOf? params n).isSome ↔ ∃ p ∈ params, p.name = n := by
  simp [slotOf?, List.findIdx?_isSome]

theorem param_of_slotOf? {params : List (Param ν ε)} {n : ν} {i : Nat}
    (h : slotOf? params n = some i) : ∃ p, params[i]? = some p ∧ p.name = n := by
  obtain ⟨hi, hp, -⟩ := List.findIdx?_eq_some_iff_getElem.mp h
  exact ⟨params[i], List.getElem?_eq_getElem hi, by simpa using hp⟩

@[simp] theorem byName?_nil (params : List (Param ν ε)) (i : Nat) :
    byName? params [] i = none := by
  cases h : params[i]? <;> simp [byName?, h]

/-- A later argument that takes the slot counts more than an earlier one. -/
theorem byName?_cons (params : List (Param ν ε)) (a : Arg ν ε) (args : List (Arg ν ε)) (i : Nat) :
    byName? params (a :: args) i =
      (byName? params args i).or (if target? params a = some i then some a else none) := by
  cases hp : params[i]? with
  | none =>
    have : target? params a ≠ some i := by
      intro h
      obtain ⟨n, -, hn⟩ := Option.bind_eq_some_iff.mp h
      obtain ⟨p, hi, -⟩ := param_of_slotOf? hn
      simp [hp] at hi
    simp [byName?, hp, this]
  | some p =>
    by_cases hs : slotOf? params p.name = some i
    · have : target? params a = some i ↔ a.name = some p.name := by
        constructor
        · intro h
          obtain ⟨n, ha, hn⟩ := Option.bind_eq_some_iff.mp h
          obtain ⟨q, hi, rfl⟩ := param_of_slotOf? hn
          rw [ha, show q = p by simpa [hp] using hi.symm]
        · intro h
          simpa [target?, h] using hs
      by_cases ha : a.name = some p.name
        <;> simp [byName?, hp, hs, this, ha, List.find?_append]
    · have : target? params a ≠ some i := by
        intro h
        obtain ⟨n, -, hn⟩ := Option.bind_eq_some_iff.mp h
        obtain ⟨q, hi, rfl⟩ := param_of_slotOf? hn
        rw [show q = p by simpa [hp] using hi.symm] at hn
        exact hs hn
      simp [byName?, hp, hs, this]

theorem placeNamed_isSome (params : List (Param ν ε)) (slots : List (Option (Resolved ε)))
    (args : List (Arg ν ε)) :
    (placeNamed params slots args).isSome ↔ NamesKnown params args := by
  induction args generalizing slots with
  | nil => simp [placeNamed, NamesKnown]
  | cons a args ih =>
    cases ha : a.name with
    | none => simpa [placeNamed, ha, NamesKnown] using ih slots
    | some n =>
      have hn := slotOf?_isSome params n
      cases hs : slotOf? params n with
      | none =>
        rw [slotOf?] at hs
        simp only [placeNamed, ha, hs, Option.isSome_none, Bool.false_eq_true, false_iff]
        intro h
        simpa [slotOf?, hs] using hn.mpr (h a (by simp) n ha)
      | some i =>
        simp only [hs, Option.isSome_some, true_iff] at hn
        rw [slotOf?] at hs
        simp only [placeNamed, ha, hs, ih]
        simp only [NamesKnown, List.forall_mem_cons, ha, Option.some.injEq, forall_eq', hn,
          true_and]

/-- After the pass over the names, a slot that an argument takes by name holds that argument, and
any other slot holds what it held. -/
theorem placeNamed_slots {params : List (Param ν ε)} {args : List (Arg ν ε)}
    {slots named : List (Option (Resolved ε))} (hlen : slots.length = params.length)
    (h : placeNamed params slots args = some named) :
    named.length = slots.length ∧
      ∀ i < params.length,
        named[i]? = (((byName? params args i).map fun a => some (.single a.expr)).or slots[i]?) := by
  induction args generalizing slots with
  | nil =>
    obtain rfl : slots = named := by simpa [placeNamed] using h
    simp
  | cons a args ih =>
    cases ha : a.name with
    | none =>
      simp only [placeNamed, ha] at h
      simpa [byName?_cons, target?, ha] using ih hlen h
    | some n =>
      cases hs : slotOf? params n with
      | none =>
        rw [slotOf?] at hs
        simp [placeNamed, ha, hs] at h
      | some j =>
        have hj : target? params a = some j := by simpa [target?, ha] using hs
        rw [slotOf?] at hs
        simp only [placeNamed, ha, hs] at h
        obtain ⟨hl, hi⟩ := ih (by simpa using hlen) h
        refine ⟨by simpa using hl, fun i hlt => ?_⟩
        rw [hi i hlt, byName?_cons, hj, List.getElem?_set]
        cases byName? params args i with
        | some b => rfl
        | none => by_cases hij : j = i <;> simp [hij, hlen, hlt]

/-! ## The pass over the arguments without names -/

/-- Whether a slot that holds something or nothing is filled by the second pass. -/
def open? (slot : Param ν ε × Option (Resolved ε)) : Bool := slot.2.isNone && !slot.1.variadic

omit [DecidableEq ν] in
/-- The second pass fills the open slots in order, and what it leaves of the arguments are those
behind the number of open slots. -/
theorem placePositional_slots (slots : List (Param ν ε × Option (Resolved ε)))
    (args : List (Arg ν ε)) :
    (placePositional slots args).2 = args.drop (slots.countP open?) ∧
      ∀ i, (placePositional slots args).1[i]? = slots[i]?.map fun slot =>
        if open? slot then
          (args[(slots.take i).countP open?]?.map fun a => .single a.expr).or
            (slot.1.default.map .single)
        else slot.2 := by
  induction slots generalizing args with
  | nil => simp [placePositional]
  | cons slot slots ih =>
    obtain ⟨p, s⟩ := slot
    by_cases ho : open? (p, s)
    · have hs : (s.isSome || p.variadic) = false := by
        cases s <;> simp_all [open?]
      cases args with
      | nil =>
        obtain ⟨hl, hi⟩ := ih []
        refine ⟨by simp [placePositional, hs, hl], fun i => ?_⟩
        cases i with
        | zero => simp [placePositional, hs, ho]
        | succ i => simp [placePositional, hs, hi]
      | cons a args =>
        obtain ⟨hl, hi⟩ := ih args
        refine ⟨by simp [placePositional, hs, hl, ho], fun i => ?_⟩
        cases i with
        | zero => simp [placePositional, hs, ho]
        | succ i => simp [placePositional, hs, hi, ho]
    · have hs : (s.isSome || p.variadic) = true := by
        cases s <;> simp_all [open?]
      obtain ⟨hl, hi⟩ := ih args
      refine ⟨by simp [placePositional, hs, hl, ho], fun i => ?_⟩
      cases i with
      | zero => simp [placePositional, hs, ho]
      | succ i => simp [placePositional, hs, hi, ho]

/-- Counting over the front of a list counts the positions of it. -/
theorem countP_take {α : Type} {q : α → Bool} {w : Nat → Bool} {l : List α}
    (h : ∀ i, w i = l[i]?.any q) (i : Nat) : (l.take i).countP q = (List.range i).countP w := by
  induction i with
  | zero => simp
  | succ i ih =>
    rw [List.take_add_one, List.range_succ, List.countP_append, List.countP_append, ih]
    congr 1
    cases hi : l[i]? <;> simp [h i, hi]

/-! ## The pass over what is left -/

/-- Whether the last slot is empty and is to take the rest of the arguments. -/
def openEnd (params : List (Param ν ε)) (slots : List (Option (Resolved ε))) : Bool :=
  takesRest params && slots.getLast?.any (·.isNone)

omit [DecidableEq ν] in
/-- The third pass fails if it has arguments and nowhere to put them, and else changes the last
slot only, if that is empty and takes them. -/
theorem placeRest_eq_some {params : List (Param ν ε)} {slots filled : List (Option (Resolved ε))}
    {left : List (Arg ν ε)} :
    placeRest params slots left = some filled ↔
      (left = [] ∨ openEnd params slots) ∧
        (if openEnd params slots then slots.dropLast ++ [some (collected left)] else slots) =
          filled := by
  cases ht : takesRest params with
  | false => simp [placeRest, openEnd, ht]
  | true =>
    match hl : slots.getLast? with
    | none => simp [placeRest, openEnd, ht, hl]
    | some none => simp [placeRest, openEnd, ht, hl, collected]
    | some (some entry) => simp [placeRest, openEnd, ht, hl]

end IslandScript.Arguments
