import Mathlib.Data.List.Perm.Basic
import IslandScript.Proofs.Argument.Resolution

/-!
# No argument is lost

An argument with a name is replaced by a later one of the same name; all others are kept (`kept`).
When a call matches, every argument that is kept is in exactly one entry, and those replaced are in
none (`resolve_delivers`). So the expressions of the entries are those of the arguments that are
kept, each once, and defaults (`exprs_of_resolve`).
-/

namespace IslandScript

/-- The expressions an entry holds, in order. -/
def Resolved.exprs {ε : Type} : Resolved ε → List ε
  | single e => [e]
  | rest items => items.map (·.2)

namespace Arguments

variable {ν ε : Type} [DecidableEq ν]
variable {params : List (Param ν ε)} {args : List (Arg ν ε)}

/-- The arguments a call keeps: all but those with a name that a later one has too. -/
def kept : List (Arg ν ε) → List (Arg ν ε)
  | [] => []
  | a :: args =>
    if a.name.isSome && args.any (·.name == a.name) then kept args else a :: kept args

theorem mem_of_mem_kept {a : Arg ν ε} (h : a ∈ kept args) : a ∈ args := by
  induction args with
  | nil => exact h
  | cons b args ih =>
    unfold kept at h
    split at h
    · exact List.mem_cons_of_mem _ (ih h)
    · rcases List.mem_cons.mp h with rfl | h
      · exact List.mem_cons_self
      · exact List.mem_cons_of_mem _ (ih h)

/-- What a slot takes of the arguments, to hold an entry: the argument that bears the name of the
parameter, if this is the first parameter of the name; one argument without a name, or several if
the parameter is variadic; or none, for a default. -/
inductive Takes (params : List (Param ν ε)) (i : Nat) (p : Param ν ε) :
    List (Arg ν ε) → Resolved ε → Prop where
  | named {a : Arg ν ε} (slot : slotOf? params p.name = some i) (name : a.name = some p.name) :
      Takes params i p [a] (.single a.expr)
  | positional {a : Arg ν ε} (single : p.variadic = false) (name : a.name = none) :
      Takes params i p [a] (.single a.expr)
  | rest {as : List (Arg ν ε)} (variadic : p.variadic) (names : ∀ a ∈ as, a.name = none) :
      Takes params i p as (collected as)
  | default {e : ε} (default : p.default = some e) : Takes params i p [] (.single e)

/-- Every argument that is kept is in exactly one entry, as the entry of a slot that may hold it. -/
def Delivered (params : List (Param ν ε)) (args : List (Arg ν ε))
    (entries : List (Resolved ε)) : Prop :=
  ∃ given : Nat → List (Arg ν ε),
    ((List.range params.length).flatMap given).Perm (kept args) ∧
      entries.length = params.length ∧
      ∀ i p entry, params[i]? = some p → entries[i]? = some entry →
        Takes params i p (given i) entry

/-! ## What the slots are given -/

/-- The arguments without a name that a slot is given. -/
def seated (params : List (Param ν ε)) (args : List (Arg ν ε)) (i : Nat) : List (Arg ν ε) :=
  if waits params args i then (positionals args)[turn params args i]?.toList
  else if restWaits params args ∧ i + 1 = params.length then
    (positionals args).drop (turn params args i)
  else []

/-- The arguments a slot is given. -/
def given (params : List (Param ν ε)) (args : List (Arg ν ε)) (i : Nat) : List (Arg ν ε) :=
  (byName? params args i).toList ++ seated params args i

theorem name_of_byName? {i : Nat} {p : Param ν ε} {a : Arg ν ε} (hp : params[i]? = some p)
    (ha : byName? params args i = some a) :
    slotOf? params p.name = some i ∧ a.name = some p.name := by
  simp only [byName?, hp, Option.bind_some, Option.ite_none_right_eq_some] at ha
  exact ⟨ha.1, by simpa using List.find?_some ha.2⟩

omit [DecidableEq ν] in
theorem name_of_mem_positionals {a : Arg ν ε} (h : a ∈ positionals args) : a.name = none := by
  simpa using (List.mem_filter.mp h).2

theorem takes_given {i : Nat} {p : Param ν ε} {entry : Resolved ε} (hp : params[i]? = some p)
    (h : entryAt params args i = some entry) : Takes params i p (given params args i) entry := by
  simp only [entryAt, hp, Option.bind_some] at h
  cases ha : byName? params args i with
  | some a =>
    have hw : waits params args i = false := by simp [waits, hp, ha]
    have hr : ¬(restWaits params args ∧ i + 1 = params.length) := by
      rintro ⟨hr, hi⟩
      simpa [ha] using (variadic_of_restWaits hr hp hi).2
    obtain ⟨hs, hn⟩ := name_of_byName? hp ha
    obtain rfl : Resolved.single a.expr = entry := by simpa [ha] using h
    simpa [given, seated, ha, hw, hr] using Takes.named hs hn
  | none =>
    simp only [ha, Option.map_none, Option.none_or] at h
    cases hv : p.variadic with
    | true =>
      have hw : waits params args i = false := by simp [waits, hp, hv]
      by_cases hi : i + 1 = params.length
      · have hr : restWaits params args := by
          obtain rfl : i = params.length - 1 := by omega
          simp [restWaits, takesRest, List.getLast?_eq_getElem?, hp, hv, ha]
        obtain rfl : collected ((positionals args).drop (turn params args i)) = entry := by
          simpa [unnamedEntry, hv, hi] using h
        simp only [given, ha, seated, hw, hr, hi]
        exact .rest hv fun a ha => name_of_mem_positionals (List.mem_of_mem_drop ha)
      · obtain ⟨e, hd, rfl⟩ := Option.map_eq_some_iff.mp (by simpa [unnamedEntry, hv, hi] using h)
        simpa [given, ha, seated, hw, hi] using Takes.default hd
    | false =>
      have hw : waits params args i := by simp [waits, hp, ha, hv]
      cases hg : (positionals args)[turn params args i]? with
      | some a =>
        obtain rfl : Resolved.single a.expr = entry := by simpa [unnamedEntry, hv, hg] using h
        simpa [given, ha, seated, hw, hg] using
          Takes.positional hv (name_of_mem_positionals (List.mem_of_getElem? hg))
      | none =>
        obtain ⟨e, hd, rfl⟩ := Option.map_eq_some_iff.mp (by simpa [unnamedEntry, hv, hg] using h)
        simpa [given, ha, seated, hw, hg] using Takes.default hd

/-! ## Every argument that is kept is given to one slot -/

/-- The waiting slots among the first are given the first arguments without a name. -/
theorem flatMap_waiting (params : List (Param ν ε)) (args : List (Arg ν ε)) (k : Nat) :
    (List.range k).flatMap
        (fun i => if waits params args i then (positionals args)[turn params args i]?.toList
          else []) =
      (positionals args).take (turn params args k) := by
  induction k with
  | zero => simp [turn]
  | succ k ih =>
    rw [List.range_succ, List.flatMap_append, ih]
    cases hw : waits params args k with
    | false => simp [hw, turn_succ hw]
    | true =>
      have : turn params args (k + 1) = turn params args k + 1 := by
        simp [turn, List.range_succ, hw]
      simp [hw, this, List.take_add_one]

/-- The arguments without a name are given in order, and all of them. -/
theorem flatMap_seated
    (h : (positionals args).length ≤ turn params args params.length ∨ restWaits params args) :
    (List.range params.length).flatMap (seated params args) = positionals args := by
  by_cases hr : restWaits params args
  · obtain ⟨n, hn⟩ : ∃ n, params.length = n + 1 := by
      refine Nat.exists_eq_succ_of_ne_zero fun h0 => ?_
      obtain rfl : params = [] := List.length_eq_zero_iff.mp h0
      simp [restWaits, takesRest] at hr
    have hfront : (List.range n).flatMap (seated params args) =
        (positionals args).take (turn params args n) := by
      rw [← flatMap_waiting]
      refine List.flatMap_congr fun i hi => ?_
      have : i + 1 ≠ params.length := by
        have := List.mem_range.mp hi
        omega
      simp [seated, this]
    have hlast : seated params args n = (positionals args).drop (turn params args n) := by
      have hp := List.getElem?_eq_getElem (by omega : n < params.length)
      have hw : waits params args n = false := by
        simp [waits, hp, (variadic_of_restWaits hr hp hn.symm).1]
      simp [seated, hw, hr, hn]
    rw [hn, List.range_succ, List.flatMap_append, hfront, List.flatMap_singleton, hlast,
      List.take_append_drop]
  · rw [← List.take_of_length_le (h.resolve_right hr), ← flatMap_waiting]
    exact List.flatMap_congr fun i _ => by simp [seated, hr]

theorem flatMap_singleton_at {α : Type} (a : α) {j n : Nat} (h : j < n) :
    (List.range n).flatMap (fun i => if j = i then [a] else []) = [a] := by
  induction n with
  | zero => omega
  | succ n ih =>
    rw [List.range_succ, List.flatMap_append, List.flatMap_singleton]
    rcases Nat.lt_or_eq_of_le (Nat.lt_succ_iff.mp h) with hlt | rfl
    · simp [ih hlt, Nat.ne_of_lt hlt]
    · have : (List.range j).flatMap (fun i => if j = i then [a] else []) = [] :=
        List.flatMap_eq_nil_iff.mpr fun i hi => if_neg (by have := List.mem_range.mp hi; omega)
      simp [this]

theorem byName?_of_slotOf? {n : ν} {j : Nat} (h : slotOf? params n = some j) :
    byName? params args j = args.reverse.find? (·.name == some n) := by
  obtain ⟨p, hp, rfl⟩ := param_of_slotOf? h
  simp [byName?, hp, h]

/-- Each argument with a name that is kept takes one slot by name. -/
theorem flatMap_byName? (h : NamesKnown params args) :
    ((List.range params.length).flatMap fun i => (byName? params args i).toList).Perm
      ((kept args).filter (·.name.isSome)) := by
  induction args with
  | nil => simp [kept]
  | cons a args ih =>
    obtain ⟨ha, hargs⟩ := List.forall_mem_cons.mp h
    cases hn : a.name with
    | none => simpa [byName?_cons, target?, hn, kept] using ih hargs
    | some n =>
      obtain ⟨j, hj⟩ := Option.isSome_iff_exists.mp ((slotOf?_isSome params n).mpr (ha n hn))
      have htarget : target? params a = some j := by simpa [target?, hn] using hj
      have hlt : j < params.length := by
        obtain ⟨p, hp, -⟩ := param_of_slotOf? hj
        exact (List.getElem?_eq_some_iff.mp hp).1
      by_cases hlater : args.any (·.name == some n)
      · -- a later argument has the name, so this one takes no slot
        have hsame (i : Nat) : byName? params (a :: args) i = byName? params args i := by
          by_cases hij : j = i
          · subst hij
            obtain ⟨b, hb⟩ : ∃ b, byName? params args j = some b := by
              rw [byName?_of_slotOf? hj, ← Option.isSome_iff_exists, List.find?_isSome]
              simpa using hlater
            simp [byName?_cons, hb]
          · simp [byName?_cons, htarget, hij]
        simpa [hsame, kept, hn, hlater] using ih hargs
      · have hfree : byName? params args j = none := by
          rw [byName?_of_slotOf? hj, List.find?_eq_none]
          simpa using hlater
        have hnew (i : Nat) : (byName? params (a :: args) i).toList =
            (byName? params args i).toList ++ if j = i then [a] else [] := by
          by_cases hij : j = i
          · subst hij
            simp [byName?_cons, htarget, hfree]
          · simp [byName?_cons, htarget, hij]
        calc (List.range params.length).flatMap (fun i => (byName? params (a :: args) i).toList)
          _ = (List.range params.length).flatMap (fun i =>
                (byName? params args i).toList ++ if j = i then [a] else []) := by
              simp only [hnew]
          _ |>.Perm ((List.range params.length).flatMap (fun i => (byName? params args i).toList) ++
                (List.range params.length).flatMap (fun i => if j = i then [a] else [])) :=
              (List.flatMap_append_perm _ _ _).symm
          _ |>.Perm ((kept args).filter (·.name.isSome) ++ [a]) := by
              rw [flatMap_singleton_at a hlt]
              exact (ih hargs).append_right [a]
          _ |>.Perm ((kept (a :: args)).filter (·.name.isSome)) := by
              simp [kept, hn, hlater, List.perm_append_singleton]

omit [DecidableEq ν] in
theorem positionals_cons (a : Arg ν ε) (args : List (Arg ν ε)) :
    positionals (a :: args) = if a.name.isNone then a :: positionals args else positionals args :=
  List.filter_cons

theorem positionals_kept (args : List (Arg ν ε)) : positionals (kept args) = positionals args := by
  induction args with
  | nil => rfl
  | cons a args ih =>
    cases hn : a.name with
    | none => simp [kept, hn, positionals_cons, ih]
    | some n =>
      by_cases hlater : args.any (·.name == some n) <;>
        simp [kept, hn, positionals_cons, ih, hlater]

/-- The slots are given the arguments that are kept, each to one slot. -/
theorem flatMap_given (hnames : NamesKnown params args)
    (h : (positionals args).length ≤ turn params args params.length ∨ restWaits params args) :
    ((List.range params.length).flatMap (given params args)).Perm (kept args) := by
  have hunnamed : positionals (kept args) = (kept args).filter (!·.name.isSome) := by
    simp [positionals]
  have hparts := List.flatMap_append_perm (List.range params.length)
    (fun i => (byName? params args i).toList) (seated params args)
  have hnamed := (flatMap_byName? hnames).append_right (positionals args)
  rw [flatMap_seated h] at hparts
  rw [← positionals_kept args, hunnamed] at hparts hnamed
  exact hparts.symm.trans (hnamed.trans (List.filter_append_perm _ _))

/-- A match delivers the arguments that are kept. -/
theorem resolve_delivers {entries : List (Resolved ε)} (h : resolve params args = some entries) :
    Delivered params args entries := by
  obtain ⟨-, hnames, hseated, hmap⟩ := resolve_eq_some.mp h
  refine ⟨given params args, flatMap_given hnames hseated,
    by simpa using (congrArg List.length hmap).symm, fun i p entry hp he => takes_given hp ?_⟩
  have hi := congrArg (·[i]?) hmap
  simpa [List.getElem?_range (List.getElem?_eq_some_iff.mp hp).1, he] using hi

/-! ## The expressions of the entries -/

theorem Takes.exprs_eq {i : Nat} {p : Param ν ε} {as : List (Arg ν ε)}
    {entry : Resolved ε} (h : Takes params i p as entry) :
    ∃ defaults, entry.exprs = as.map (·.expr) ++ defaults ∧
      ∀ e ∈ defaults, p.default = some e := by
  cases h with
  | named | positional => exact ⟨[], by simp [Resolved.exprs]⟩
  | rest => exact ⟨[], by simp [Resolved.exprs, collected]⟩
  | default hd => exact ⟨_, rfl, by simpa using hd⟩

theorem Takes.expr_mem {i : Nat} {p : Param ν ε} {as : List (Arg ν ε)} {entry : Resolved ε}
    (h : Takes params i p as entry) {a : Arg ν ε} (ha : a ∈ as) : a.expr ∈ entry.exprs := by
  obtain ⟨defaults, hexprs, -⟩ := h.exprs_eq
  rw [hexprs]
  exact List.mem_append_left _ (List.mem_map_of_mem ha)

theorem flatMap_append_of_forall {α β : Type} {l : List α} {f g : α → List β} {P : β → Prop}
    (h : ∀ a ∈ l, ∃ bs, f a = g a ++ bs ∧ ∀ b ∈ bs, P b) :
    ∃ bs, (l.flatMap f).Perm (l.flatMap g ++ bs) ∧ ∀ b ∈ bs, P b := by
  induction l with
  | nil => exact ⟨[], by simp⟩
  | cons a l ih =>
    obtain ⟨bs, hbs, hb⟩ := h a (by simp)
    obtain ⟨cs, hcs, hc⟩ := ih fun a ha => h a (List.mem_cons_of_mem _ ha)
    refine ⟨bs ++ cs, ?_, List.forall_mem_append.mpr ⟨hb, hc⟩⟩
    rw [List.flatMap_cons, List.flatMap_cons, hbs, List.append_assoc, List.append_assoc]
    refine List.Perm.append_left _ ((hcs.append_left bs).trans ?_)
    rw [← List.append_assoc, ← List.append_assoc]
    exact List.perm_append_comm.append_right cs

theorem flatMap_getElem? {α : Type} (l : List α) (k : Nat) :
    (List.range k).flatMap (fun i => l[i]?.toList) = l.take k := by
  induction k with
  | zero => simp
  | succ k ih => rw [List.range_succ, List.flatMap_append, ih, List.take_add_one]; simp

/-- The expressions of the entries are those of the arguments that are kept, each once, and some
defaults. -/
theorem exprs_of_resolve {entries : List (Resolved ε)} (h : resolve params args = some entries) :
    ∃ defaults, (entries.flatMap Resolved.exprs).Perm ((kept args).map (·.expr) ++ defaults) ∧
      ∀ e ∈ defaults, ∃ p ∈ params, p.default = some e := by
  obtain ⟨given, hperm, hlen, htakes⟩ := resolve_delivers h
  have hentries : entries.flatMap Resolved.exprs =
      (List.range params.length).flatMap fun i => entries[i]?.toList.flatMap Resolved.exprs := by
    rw [← List.flatMap_assoc, flatMap_getElem?, List.take_of_length_le (Nat.le_of_eq hlen)]
  obtain ⟨defaults, hd, hmem⟩ := flatMap_append_of_forall
    (l := List.range params.length) (f := fun i => entries[i]?.toList.flatMap Resolved.exprs)
    (g := fun i => (given i).map (·.expr)) (P := fun e => ∃ p ∈ params, p.default = some e) (by
      intro i hi
      have hp := List.getElem?_eq_getElem (List.mem_range.mp hi)
      obtain ⟨entry, he⟩ : ∃ entry, entries[i]? = some entry :=
        ⟨_, List.getElem?_eq_getElem (by rw [hlen]; exact List.mem_range.mp hi)⟩
      obtain ⟨ds, hds, hd⟩ := (htakes i _ _ hp he).exprs_eq
      exact ⟨ds, by simpa [he] using hds, fun e hmem => ⟨_, List.getElem_mem _, hd e hmem⟩⟩)
  refine ⟨defaults, ?_, hmem⟩
  rw [hentries]
  refine hd.trans (List.Perm.append_right _ ?_)
  rw [← List.map_flatMap]
  exact hperm.map _

end Arguments
end IslandScript
