import IslandScript.Proofs.Argument.Slots

/-!
# Which calls match, and what the parameters receive

`resolve` in one equivalence: when it succeeds, and with which entries (`resolve_eq_some`), put
together from its passes. For parameters of which only the last may be variadic, its success is
the four conditions of `Matches`.
-/

namespace IslandScript.Arguments

variable {ν ε : Type} [DecidableEq ν]
variable {params : List (Param ν ε)} {args : List (Arg ν ε)}

/-! ## The slots after each pass -/

/-- What the first pass leaves in a slot. -/
def namedSlot (params : List (Param ν ε)) (args : List (Arg ν ε)) (i : Nat) :
    Option (Resolved ε) :=
  (byName? params args i).map fun a => .single a.expr

theorem slots_named {named : List (Option (Resolved ε))}
    (h : placeNamed params (params.map fun _ => none) args = some named) :
    named = (List.range params.length).map (namedSlot params args) := by
  obtain ⟨hl, hi⟩ := placeNamed_slots (by simp) h
  apply List.ext_getElem? fun i => ?_
  by_cases hlt : i < params.length
  · rw [hi i hlt, List.getElem?_map, List.getElem?_map, List.getElem?_range hlt,
      List.getElem?_eq_getElem hlt]
    cases ha : byName? params args i <;> simp [namedSlot, ha]
  · rw [List.getElem?_eq_none (by simpa [hl] using hlt), List.getElem?_eq_none (by simpa using hlt)]

/-- The slots after the first pass, with their parameters. -/
theorem zip_named_getElem? (i : Nat) :
    (params.zip ((List.range params.length).map (namedSlot params args)))[i]? =
      params[i]?.map fun p => (p, namedSlot params args i) := by
  by_cases hlt : i < params.length
  · rw [List.getElem?_eq_getElem hlt, Option.map_some, List.getElem?_zip_eq_some,
      List.getElem?_eq_getElem hlt, List.getElem?_map, List.getElem?_range hlt]
    exact ⟨rfl, rfl⟩
  · rw [List.getElem?_eq_none (by simpa using hlt), List.getElem?_eq_none (by simpa using hlt)]
    rfl

theorem waits_eq_open (i : Nat) :
    waits params args i =
      ((params.zip ((List.range params.length).map (namedSlot params args)))[i]?).any open? := by
  rw [zip_named_getElem?]
  cases hp : params[i]? <;> simp [waits, open?, namedSlot, hp]

/-- What the second pass leaves in a slot. -/
def filledSlot (params : List (Param ν ε)) (args : List (Arg ν ε)) (i : Nat) (p : Param ν ε) :
    Option (Resolved ε) :=
  if waits params args i then
    (((positionals args)[turn params args i]?).map fun a => .single a.expr).or
      (p.default.map .single)
  else namedSlot params args i

theorem slots_filled (i : Nat) :
    (placePositional (params.zip ((List.range params.length).map (namedSlot params args)))
        (positionals args)).1[i]? =
      params[i]?.map (filledSlot params args i) := by
  rw [(placePositional_slots _ _).2, countP_take waits_eq_open, zip_named_getElem?]
  cases hp : params[i]? with
  | none => rfl
  | some p =>
    have : open? (p, namedSlot params args i) = waits params args i := by
      rw [waits_eq_open, zip_named_getElem?, hp]
      rfl
    simp [filledSlot, this, turn]

theorem args_left :
    (placePositional (params.zip ((List.range params.length).map (namedSlot params args)))
        (positionals args)).2 =
      (positionals args).drop (turn params args params.length) := by
  rw [(placePositional_slots _ _).1, turn, ← countP_take waits_eq_open, List.take_of_length_le]
  simp

theorem length_filled {filled : List (Option (Resolved ε))}
    (h : ∀ i, filled[i]? = params[i]?.map (filledSlot params args i)) :
    filled.length = params.length := by
  apply Nat.le_antisymm
  · exact Nat.not_lt.mp fun hlt => by simpa [List.getElem?_eq_getElem hlt] using h params.length
  · exact Nat.not_lt.mp fun hlt => by simpa [List.getElem?_eq_getElem hlt] using h filled.length

/-- The last parameter is variadic if it takes the rest of the arguments, so its slot is empty
unless it is taken by name. -/
theorem openEnd_filled {filled : List (Option (Resolved ε))}
    (h : ∀ i, filled[i]? = params[i]?.map (filledSlot params args i)) :
    openEnd params filled = restWaits params args := by
  rw [openEnd, restWaits, List.getLast?_eq_getElem?, length_filled h, h]
  cases hp : params[params.length - 1]? with
  | none => simp [takesRest, List.getLast?_eq_getElem?, hp]
  | some p =>
    cases hv : p.variadic with
    | false => simp [takesRest, List.getLast?_eq_getElem?, hp, hv]
    | true => simp [takesRest, List.getLast?_eq_getElem?, hp, hv, filledSlot, waits, namedSlot]

/-- What the third pass leaves in a slot. -/
def finalSlot (params : List (Param ν ε)) (args : List (Arg ν ε)) (i : Nat) (p : Param ν ε) :
    Option (Resolved ε) :=
  if restWaits params args ∧ i + 1 = params.length then
    some (collected ((positionals args).drop (turn params args params.length)))
  else filledSlot params args i p

theorem slots_final {filled : List (Option (Resolved ε))}
    (h : ∀ i, filled[i]? = params[i]?.map (filledSlot params args i)) (i : Nat) :
    (if restWaits params args then
        filled.dropLast ++
          [some (collected ((positionals args).drop (turn params args params.length)))]
      else filled)[i]? =
      params[i]?.map (finalSlot params args i) := by
  have hl := length_filled h
  by_cases hr : restWaits params args
  · have hpos : 0 < params.length := by
      by_contra h0
      obtain rfl : params = [] := List.length_eq_zero_iff.mp (by omega)
      simp [restWaits, takesRest] at hr
    rw [if_pos hr]
    rcases Nat.lt_trichotomy (i + 1) params.length with hlt | heq | hgt
    · rw [List.getElem?_append_left (by simp; omega), List.getElem?_dropLast,
        if_pos (by omega), h, List.getElem?_eq_getElem (by omega : i < params.length)]
      simp [finalSlot, show ¬i + 1 = params.length by omega]
    · rw [List.getElem?_append_right (by simp; omega),
        List.getElem?_eq_getElem (by omega : i < params.length)]
      simp [finalSlot, hr, heq, show i - (filled.length - 1) = 0 by omega]
    · rw [List.getElem?_eq_none (by simp; omega), List.getElem?_eq_none (by omega)]
      rfl
  · rw [if_neg hr, h]
    exact congrArg (Option.map · params[i]?) (funext fun p => by simp [finalSlot, hr])

/-! ## The entries -/

theorem turn_succ {i : Nat} (h : waits params args i = false) :
    turn params args (i + 1) = turn params args i := by
  simp [turn, List.range_succ, h]

theorem variadic_of_restWaits (h : restWaits params args) {i : Nat}
    {p : Param ν ε} (hp : params[i]? = some p) (hi : i + 1 = params.length) :
    p.variadic ∧ byName? params args i = none := by
  obtain rfl : i = params.length - 1 := by omega
  simpa [restWaits, takesRest, List.getLast?_eq_getElem?, hp] using h

/-- What is in a slot after the third pass, or the default behind it, is the entry. -/
theorem orDefault_final {i : Nat} {p : Param ν ε} (hp : params[i]? = some p) :
    orDefault p (finalSlot params args i p) = entryAt params args i := by
  have hentry : entryAt params args i =
      (namedSlot params args i).or (unnamedEntry params args i p) := by
    rw [entryAt, hp]
    rfl
  rw [hentry]
  by_cases hr : restWaits params args ∧ i + 1 = params.length
  · obtain ⟨hv, hn⟩ := variadic_of_restWaits hr.1 hp hr.2
    have hw : waits params args i = false := by simp [waits, hp, hv]
    simp [finalSlot, hr, orDefault, namedSlot, hn, unnamedEntry, hv, ← turn_succ hw]
  · rw [finalSlot, if_neg hr]
    cases ha : byName? params args i with
    | some a => simp [filledSlot, waits, hp, ha, namedSlot, orDefault]
    | none =>
      cases hv : p.variadic with
      | false =>
        cases hg : (positionals args)[turn params args i]? <;> cases hd : p.default <;>
          simp [filledSlot, waits, hp, ha, hv, namedSlot, unnamedEntry, orDefault, hg, hd]
      | true =>
        have hlast : ¬i + 1 = params.length := by
          intro heq
          refine hr ⟨?_, heq⟩
          obtain rfl : i = params.length - 1 := by omega
          simp [restWaits, takesRest, List.getLast?_eq_getElem?, hp, hv, ha]
        simp [filledSlot, waits, hp, hv, namedSlot, ha, unnamedEntry, hlast, orDefault]

theorem mapM_eq_some_iff {α β : Type} {f : α → Option β} {l : List α} {bs : List β} :
    l.mapM f = some bs ↔ l.map f = bs.map some := by
  induction l generalizing bs with
  | nil => cases bs <;> simp
  | cons a l ih =>
    cases bs with
    | nil => simp [Option.bind_eq_some_iff]
    | cons b bs => simp [ih, Option.bind_eq_some_iff]

theorem map_orDefault_final {slots : List (Option (Resolved ε))}
    (h : ∀ i, slots[i]? = params[i]?.map (finalSlot params args i)) :
    (params.zip slots).map (fun slot => orDefault slot.1 slot.2) =
      (List.range params.length).map (entryAt params args) := by
  apply List.ext_getElem? fun i => ?_
  by_cases hlt : i < params.length
  · have hp := List.getElem?_eq_getElem hlt
    have hz : (params.zip slots)[i]? = some (params[i], finalSlot params args i params[i]) :=
      List.getElem?_zip_eq_some.mpr ⟨hp, by rw [h i, hp]; rfl⟩
    rw [List.getElem?_map, hz, List.getElem?_map, List.getElem?_range hlt, Option.map_some,
      Option.map_some, orDefault_final hp]
  · rw [List.getElem?_eq_none (by simp; omega), List.getElem?_eq_none (by simpa using hlt)]

/-- What the passes after the first make of the slots it leaves. -/
theorem resolve_of_named {entries : List (Resolved ε)} :
    ((placeRest params
        (placePositional (params.zip ((List.range params.length).map (namedSlot params args)))
          (positionals args)).1
        (placePositional (params.zip ((List.range params.length).map (namedSlot params args)))
          (positionals args)).2).bind
      fun slots => (params.zip slots).mapM fun slot => orDefault slot.1 slot.2) = some entries ↔
      ((positionals args).length ≤ turn params args params.length ∨ restWaits params args) ∧
        (List.range params.length).map (entryAt params args) = entries.map some := by
  have hfilled := @slots_filled _ _ _ params args
  simp only [Option.bind_eq_some_iff, placeRest_eq_some, openEnd_filled hfilled, args_left,
    List.drop_eq_nil_iff, and_assoc, exists_and_left, exists_eq_left', mapM_eq_some_iff,
    map_orDefault_final (slots_final hfilled)]

/-- When arguments match parameters, and what the parameters receive. -/
theorem resolve_eq_some {entries : List (Resolved ε)} :
    resolve params args = some entries ↔
      (args.length ≤ params.length ∨ takesRest params) ∧ NamesKnown params args ∧
        ((positionals args).length ≤ turn params args params.length ∨ restWaits params args) ∧
        (List.range params.length).map (entryAt params args) = entries.map some := by
  have hfits : (args.length > params.length && !takesRest params) = true ↔
      ¬(args.length ≤ params.length ∨ takesRest params) := by
    simp [not_or]
  have hknown := placeNamed_isSome params (params.map fun _ => none) args
  by_cases h : args.length ≤ params.length ∨ takesRest params
  · rw [resolve, if_neg (by rwa [hfits, not_not])]
    cases hn : placeNamed params (params.map fun _ => none) args with
    | none =>
      rw [hn] at hknown
      simp [← hknown]
    | some named =>
      obtain rfl := slots_named hn
      have hk : NamesKnown params args := hknown.mp (by rw [hn, Option.isSome_some])
      simp only [h, hk, true_and]
      exact resolve_of_named
  · rw [resolve, if_pos (hfits.mpr h)]
    simp [h]

/-! ## Calls of parameters of which only the last may be variadic -/

/-- When a call matches:

* it has no more arguments than there are parameters, or the last parameter is variadic;
* every name of an argument is that of a parameter;
* the arguments without a name are no more than the slots that wait for one, or the variadic
  parameter is free for them;
* every slot that waits in vain has a default. -/
structure Matches (params : List (Param ν ε)) (args : List (Arg ν ε)) : Prop where
  fits : args.length ≤ params.length ∨ takesRest params
  named : NamesKnown params args
  seated : (positionals args).length ≤ turn params args params.length ∨ restWaits params args
  filled : ∀ i p, params[i]? = some p → waits params args i →
    (positionals args).length ≤ turn params args i → p.default.isSome

omit [DecidableEq ν] in
theorem last_of_variadic (h : ∀ p ∈ params.dropLast, p.variadic = false) {i : Nat}
    {p : Param ν ε} (hp : params[i]? = some p) (hv : p.variadic) : i + 1 = params.length := by
  have hi : i < params.length := (List.getElem?_eq_some_iff.mp hp).1
  by_contra hne
  have hmem : p ∈ params.dropLast :=
    List.mem_iff_getElem?.mpr ⟨i, by rw [List.getElem?_dropLast, if_pos (by omega), hp]⟩
  simp [h p hmem] at hv

/-- A slot has an entry unless it waits in vain and has no default. -/
theorem entryAt_isSome (h : ∀ p ∈ params.dropLast, p.variadic = false) {i : Nat} {p : Param ν ε}
    (hp : params[i]? = some p) :
    (entryAt params args i).isSome ↔
      (waits params args i → (positionals args).length ≤ turn params args i →
        p.default.isSome) := by
  cases ha : byName? params args i with
  | some a => simp [entryAt, hp, ha, waits]
  | none =>
    cases hv : p.variadic with
    | true => simp [entryAt, hp, ha, hv, waits, unnamedEntry, last_of_variadic h hp hv]
    | false =>
      rcases Nat.lt_or_ge (turn params args i) (positionals args).length with hlt | hge
      · simp [entryAt, hp, ha, hv, waits, unnamedEntry, hlt, Nat.not_le.mpr hlt]
      · simp [entryAt, hp, ha, hv, waits, unnamedEntry, hge]

theorem exists_map_some {α : Type} {l : List (Option α)} :
    (∃ as : List α, l = as.map some) ↔ ∀ o ∈ l, o.isSome := by
  induction l with
  | nil => exact ⟨by simp, fun _ => ⟨[], rfl⟩⟩
  | cons o l ih =>
    constructor
    · rintro ⟨as, h⟩
      rw [h]
      simp
    · intro h
      obtain ⟨a, rfl⟩ := Option.isSome_iff_exists.mp (h o (by simp))
      obtain ⟨as, rfl⟩ := ih.mpr fun o ho => h o (List.mem_cons_of_mem _ ho)
      exact ⟨a :: as, rfl⟩

/-- Where only the last parameter may be variadic, a call gives entries exactly when it matches,
and then each parameter receives the entry of its slot. -/
theorem resolve_meets_spec (params : List (Param ν ε)) (args : List (Arg ν ε))
    (h : ∀ p ∈ params.dropLast, p.variadic = false) :
    ((resolve params args).isSome ↔ Matches params args) ∧
      ∀ entries, resolve params args = some entries →
        entries.length = params.length ∧
          ∀ i < params.length, entries[i]? = entryAt params args i := by
  have hall : (∃ entries : List (Resolved ε),
        (List.range params.length).map (entryAt params args) = entries.map some) ↔
      ∀ i p, params[i]? = some p → waits params args i →
        (positionals args).length ≤ turn params args i → p.default.isSome := by
    rw [exists_map_some]
    simp only [List.forall_mem_map, List.mem_range]
    constructor
    · intro hs i p hp
      exact (entryAt_isSome h hp).mp (hs i (List.getElem?_eq_some_iff.mp hp).1)
    · intro hs i hi
      exact (entryAt_isSome h (List.getElem?_eq_getElem hi)).mpr
        (hs i _ (List.getElem?_eq_getElem hi))
  refine ⟨?_, fun entries hr => ?_⟩
  · rw [Option.isSome_iff_exists]
    simp only [resolve_eq_some, exists_and_left, hall]
    exact ⟨fun ⟨h1, h2, h3, h4⟩ => ⟨h1, h2, h3, h4⟩, fun ⟨h1, h2, h3, h4⟩ => ⟨h1, h2, h3, h4⟩⟩
  · obtain ⟨-, -, -, hmap⟩ := resolve_eq_some.mp hr
    refine ⟨by simpa using (congrArg List.length hmap).symm, fun i hi => ?_⟩
    have := congrArg (·[i]?) hmap
    simp only [List.getElem?_map, List.getElem?_range hi, Option.map_some] at this
    cases he : entries[i]? with
    | none => simp [he] at this
    | some e => simpa [he, eq_comm] using this

/-- `fun f(a, b = 9, *c)`, the names and expressions being numbers. -/
def mixedParams : List (Param Nat Nat) :=
  [⟨.none, none, false, false, 0, none⟩, ⟨.none, none, false, false, 1, some 9⟩,
    ⟨.none, none, false, true, 2, none⟩]

/-- `f(b = 5, 1, *2, b = 7, 3)`. -/
def mixedArgs : List (Arg Nat Nat) :=
  [⟨.none, false, some 1, 5⟩, ⟨.none, false, none, 1⟩, ⟨.none, true, none, 2⟩,
    ⟨.none, false, some 1, 7⟩, ⟨.none, false, none, 3⟩]

theorem resolve_meets_spec_mixed :
    (∀ p ∈ mixedParams.dropLast, p.variadic = false) ∧
      resolve mixedParams mixedArgs =
        some [.single 1, .single 7, .rest [(true, 2), (false, 3)]] ∧
      Matches mixedParams mixedArgs ∧
      ∀ i < 3, [.single 1, .single 7, .rest [(true, 2), (false, 3)]][i]? =
        entryAt mixedParams mixedArgs i := by
  have hlast : ∀ p ∈ mixedParams.dropLast, p.variadic = false := by decide
  have hr : resolve mixedParams mixedArgs =
      some [.single 1, .single 7, .rest [(true, 2), (false, 3)]] := by decide
  obtain ⟨hiff, hentries⟩ := resolve_meets_spec mixedParams mixedArgs hlast
  exact ⟨hlast, hr, hiff.mp (by rw [hr]; rfl), (hentries _ hr).2⟩

end IslandScript.Arguments
