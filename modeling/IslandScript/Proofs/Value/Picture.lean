import Mathlib.Data.List.Basic
import IslandScript.Value.Display

/-!
# What is shown of a list that may hold itself

A value that is shown is drawn as a tree: a text at each leaf, and a placeholder for a list on the way
from the root to itself. The tree may be seen in two ways. `Depicts` follows the drawing level by
level, along the lists that are being shown; `Occurs` says of a place in the value by which lists it is
come to, without a drawing, and so without a bound.
-/

namespace IslandScript

/-- What is drawn of a value. -/
inductive Picture where
  | text (s : String)
  | again
  | list (ps : List Picture)

namespace Picture

/-- A picture as text. -/
def render : Picture → String
  | text s => s
  | again => selfReference
  | list ps => "[" ++ ", ".intercalate (ps.map render) ++ "]"

/-- The part of a picture at an address, the positions to go down by. -/
def at? : Picture → List Nat → Option Picture
  | p, [] => some p
  | list ps, i :: address => ps[i]?.bind (at? · address)
  | _, _ :: _ => none

end Picture

namespace Objects

variable {o : Objects} {ts : Tables}

/-- A picture shows a value inside the lists `path`: of a list that is none of them it shows the
elements, inside that list too, and of one that is among them it shows only that it is met again. -/
inductive Depicts (o : Objects) (ts : Tables) : List TableId → Value → Picture → Prop where
  | text {path : List TableId} {v : Value} {s : String} (hface : o.face v = .text s) :
      Depicts o ts path v (.text s)
  | again {path : List TableId} {v : Value} {t : TableId} (hface : o.face v = .list t)
      (hmem : t ∈ path) : Depicts o ts path v .again
  | list {path : List TableId} {v : Value} {t : TableId} {ps : List Picture}
      (hface : o.face v = .list t) (hmem : t ∉ path) (hlength : ps.length = (ts.items t).length)
      (hitems : ∀ (i : Nat) w p, (ts.items t)[i]? = some w → ps[i]? = some p →
        Depicts o ts (t :: path) w p) :
      Depicts o ts path v (.list ps)

/-- A picture shows all of a value: every list with its elements. -/
inductive Unfolds (o : Objects) (ts : Tables) : Value → Picture → Prop where
  | text {v : Value} {s : String} (hface : o.face v = .text s) : Unfolds o ts v (.text s)
  | list {v : Value} {t : TableId} {ps : List Picture} (hface : o.face v = .list t)
      (hlength : ps.length = (ts.items t).length)
      (hitems : ∀ (i : Nat) w p, (ts.items t)[i]? = some w → ps[i]? = some p → Unfolds o ts w p) :
      Unfolds o ts v (.list ps)

/-- At an address inside a value there is a value, come to by the lists `path'`, when the value itself
was come to by `path`. The innermost list is the first. -/
inductive Occurs (o : Objects) (ts : Tables) :
    List TableId → Value → List Nat → List TableId → Value → Prop where
  | here {path : List TableId} {v : Value} : Occurs o ts path v [] path v
  | inside {path path' : List TableId} {v w u : Value} {t : TableId} {i : Nat}
      {address : List Nat} (hface : o.face v = .list t) (hitem : (ts.items t)[i]? = some w)
      (hrest : Occurs o ts (t :: path) w address path' u) :
      Occurs o ts path v (i :: address) path' u

/-- No list occurs inside itself. -/
def Acyclic (o : Objects) (ts : Tables) (v : Value) : Prop :=
  ∀ address path u t, Occurs o ts [] v address path u → o.face u = .list t → t ∉ path

end Objects

/-! ## The lists that are being shown -/

namespace Showing

variable {t : TableId} {path path' : List TableId} {contents : Showing String}

theorem run_bind {α β : Type} {x : Showing α} {f : α → Showing β} {a : α}
    (h : x.run path = (a, path')) : (x >>= f).run path = (f a).run path' := by
  rw [StateT.run_bind, h]
  rfl

/-- A list that is being shown gets the placeholder. -/
theorem run_guarded_of_mem (h : t ∈ path) :
    (guarded t contents).run path = (selfReference, path) := by
  unfold guarded
  rw [run_bind (show (get : Showing _).run path = (path, path) from rfl), if_pos h]
  rfl

/-- Another list is shown among those that are being shown, and then counts as shown no more. -/
theorem run_guarded_of_not_mem {s : String} (h : t ∉ path)
    (hcontents : contents.run (t :: path) = (s, t :: path)) :
    (guarded t contents).run path = (s, path) := by
  unfold guarded
  rw [run_bind (show (get : Showing _).run path = (path, path) from rfl), if_neg h,
    run_bind (show (modify (t :: ·) : Showing _).run path = ((), t :: path) from rfl),
    run_bind hcontents]
  rfl

/-- Values are shown one after the other if each is shown and leaves the lists that are being shown as
they were. -/
theorem run_mapM {f : Value → Showing String} {shows : Value → Picture → Prop} {vs : List Value}
    (h : ∀ v ∈ vs, ∃ p, shows v p ∧ (f v).run path = (p.render, path)) :
    ∃ ps : List Picture, ps.length = vs.length ∧
      (∀ (i : Nat) w p, vs[i]? = some w → ps[i]? = some p → shows w p) ∧
      (vs.mapM f).run path = (ps.map Picture.render, path) := by
  induction vs with
  | nil => exact ⟨[], rfl, by simp, rfl⟩
  | cons v vs ih =>
      obtain ⟨p, hshows, hrun⟩ := h v List.mem_cons_self
      obtain ⟨ps, hlength, hitems, hruns⟩ := ih fun w hw => h w (List.mem_cons_of_mem v hw)
      refine ⟨p :: ps, by simp [hlength], ?_, ?_⟩
      · intro i w q hw hq
        cases i with
        | zero =>
            cases hw
            cases hq
            exact hshows
        | succ i => exact hitems i w q hw hq
      · rw [List.mapM_cons, run_bind hrun, run_bind hruns]
        rfl

end Showing

namespace Tables

/-- The tables that are not being shown. -/
def unshown (ts : Tables) (path : List TableId) : List Nat :=
  (List.range ts.size).filter fun i => ⟨i⟩ ∉ path

/-- To show another list leaves fewer tables. -/
theorem length_unshown_cons {ts : Tables} {path : List TableId} {t : TableId}
    (hplaced : t.index < ts.size) (h : t ∉ path) :
    (ts.unshown (t :: path)).length < (ts.unshown path).length := by
  have hcons : ts.unshown (t :: path) = (ts.unshown path).filter fun i => ⟨i⟩ ≠ t := by
    unfold unshown
    rw [List.filter_filter]
    refine List.filter_congr fun i _ => ?_
    simp [not_or]
  rw [hcons, List.length_filter_lt_length_iff_exists]
  refine ⟨t.index, ?_, by simp⟩
  simp [unshown, hplaced, h]

/-- Only a table that was made has elements. -/
theorem placed_of_mem_items {ts : Tables} {t : TableId} {v : Value} (h : v ∈ ts.items t) :
    t.index < ts.size := by
  by_contra hplaced
  unfold items get at h
  rw [Array.getElem?_eq_none (Nat.le_of_not_lt hplaced)] at h
  cases h

end Tables

namespace Objects

variable {o : Objects} {ts : Tables}

/-- What is shown of a value depicts it, as long as there are more levels than tables that are not
being shown, and the lists that are being shown are afterwards as they were. -/
theorem run_showBy {levels : Nat} {path : List TableId}
    (hlevels : (ts.unshown path).length < levels) (v : Value) :
    ∃ p, o.Depicts ts path v p ∧
      (o.showBy (o.showTable ts levels) v).run path = (p.render, path) := by
  induction levels generalizing path v with
  | zero => exact absurd hlevels (Nat.not_lt_zero _)
  | succ levels ih =>
      unfold showBy
      cases hface : o.face v with
      | text s => exact ⟨.text s, .text hface, by rw [Picture.render]; rfl⟩
      | list t =>
          by_cases hmem : t ∈ path
          · refine ⟨.again, .again hface hmem, ?_⟩
            rw [Picture.render]
            exact Showing.run_guarded_of_mem hmem
          have helement : ∀ w ∈ ts.items t, ∃ p, o.Depicts ts (t :: path) w p ∧
              (o.showBy (o.showTable ts levels) w).run (t :: path) = (p.render, t :: path) := by
            intro w hw
            have hfewer := ts.length_unshown_cons (Tables.placed_of_mem_items hw) hmem
            exact ih (by omega) w
          obtain ⟨ps, hlength, hitems, hrun⟩ := Showing.run_mapM helement
          refine ⟨.list ps, .list hface hmem hlength hitems, ?_⟩
          refine Showing.run_guarded_of_not_mem hmem ?_
          rw [Showing.run_bind hrun, Picture.render]
          rfl

/-- Inside any lists, what is shown of a value depicts it there. -/
theorem run_showValue (o : Objects) (ts : Tables) (path : List TableId) (v : Value) :
    ∃ p, o.Depicts ts path v p ∧ (o.showValue ts v).run path = (p.render, path) := by
  refine run_showBy ?_ v
  have hle : (ts.unshown path).length ≤ (List.range ts.size).length := List.length_filter_le _ _
  rw [List.length_range] at hle
  omega

/-! ## Where a list is met again -/

/-- Going down adds to the lists by which a value is come to. -/
theorem Occurs.suffix {path path' : List TableId} {v u : Value} {address : List Nat}
    (h : o.Occurs ts path v address path' u) : path <:+ path' := by
  induction h with
  | here => exact List.suffix_rfl
  | inside _ _ _ ih => exact (List.suffix_cons _ _).trans ih

/-- The placeholder stands exactly where a list is among those by which it is come to, the first time
this is so on the way down. -/
theorem Depicts.at?_eq_again_iff {path : List TableId} {v : Value} {p : Picture}
    (h : o.Depicts ts path v p) (hnodup : path.Nodup) (address : List Nat) :
    p.at? address = some .again ↔ ∃ path' u t, o.Occurs ts path v address path' u ∧
      path'.Nodup ∧ o.face u = .list t ∧ t ∈ path' := by
  induction h generalizing address with
  | @text path v s hface =>
      -- A text has no inside, and is not a list.
      constructor
      · cases address <;> simp [Picture.at?]
      · rintro ⟨_, _, _, hoccurs, -, hface', -⟩
        cases hoccurs with
        | here => cases hface.symm.trans hface'
        | inside hface'' => cases hface.symm.trans hface''
  | @again path v t hface hmem =>
      cases address with
      | nil => exact iff_of_true rfl ⟨path, v, t, .here, hnodup, hface, hmem⟩
      | cons i address =>
          -- Inside a list that is met again, the lists come to repeat.
          refine iff_of_false (by simp [Picture.at?]) ?_
          rintro ⟨_, _, _, hoccurs, hnodup', -, -⟩
          cases hoccurs with
          | inside hface' _ hrest =>
              cases hface.symm.trans hface'
              exact (List.nodup_cons.mp (hnodup'.sublist hrest.suffix.sublist)).1 hmem
  | @list path v t ps hface hmem hlength hitems ih =>
      have hnodup' : (t :: path).Nodup := List.nodup_cons.mpr ⟨hmem, hnodup⟩
      cases address with
      | nil =>
          refine iff_of_false (by simp [Picture.at?]) ?_
          rintro ⟨_, _, _, hoccurs, -, hface', hmem'⟩
          cases hoccurs
          cases hface.symm.trans hface'
          exact hmem hmem'
      | cons i address =>
          rw [Picture.at?, Option.bind_eq_some_iff]
          constructor
          · rintro ⟨p, hp, hat⟩
            have hi : i < (ts.items t).length := hlength ▸ (List.getElem?_eq_some_iff.mp hp).1
            have hw := List.getElem?_eq_getElem hi
            obtain ⟨path', u, t', hoccurs, hrest⟩ := (ih i _ p hw hp hnodup' address).mp hat
            exact ⟨path', u, t', .inside hface hw hoccurs, hrest⟩
          · rintro ⟨path', u, t', hoccurs, hrest⟩
            cases hoccurs with
            | @inside _ _ _ w _ _ _ _ hface' hw hoccurs =>
                cases hface.symm.trans hface'
                have hi : i < ps.length := hlength ▸ (List.getElem?_eq_some_iff.mp hw).1
                have hp := List.getElem?_eq_getElem hi
                exact ⟨ps[i], hp, (ih i w _ hw hp hnodup' address).mpr ⟨path', u, t', hoccurs, hrest⟩⟩

/-- A value in which no list occurs inside itself is shown with all its lists. -/
theorem Depicts.unfolds {path : List TableId} {v : Value} {p : Picture}
    (h : o.Depicts ts path v p)
    (hacyclic : ∀ address path' u t, o.Occurs ts path v address path' u → o.face u = .list t →
      t ∉ path') : o.Unfolds ts v p := by
  induction h with
  | text hface => exact .text hface
  | again hface hmem => exact absurd hmem (hacyclic _ _ _ _ .here hface)
  | list hface hmem hlength hitems ih =>
      refine .list hface hlength fun i w p hw hp => ih i w p hw hp ?_
      exact fun address path' u t hoccurs =>
        hacyclic (i :: address) path' u t (.inside hface hw hoccurs)

end Objects

/-- To show a value comes to an end inside any lists, draws it, and leaves the lists that are being
shown as they were. The placeholder stands exactly where a list is among those by which it is come to,
so a value in which no list occurs inside itself is shown with all its lists, each as often as it
occurs. -/
theorem display_marks_cycles (o : Objects) (ts : Tables) (v : Value) :
    (∀ path, ∃ p, o.Depicts ts path v p ∧ (o.showValue ts v).run path = (p.render, path)) ∧
    (∃ p, o.Depicts ts [] v p ∧ o.display ts v = p.render ∧
      ∀ address, p.at? address = some .again ↔ ∃ path u t, o.Occurs ts [] v address path u ∧
        path.Nodup ∧ o.face u = .list t ∧ t ∈ path) ∧
    (o.Acyclic ts v → ∃ p, o.Unfolds ts v p ∧ o.display ts v = p.render) := by
  obtain ⟨p, hdepicts, hrun⟩ := o.run_showValue ts [] v
  have hdisplay : o.display ts v = p.render := congrArg Prod.fst hrun
  refine ⟨fun path => o.run_showValue ts path v, ?_, fun hacyclic => ?_⟩
  · exact ⟨p, hdepicts, hdisplay, hdepicts.at?_eq_again_iff List.nodup_nil⟩
  · exact ⟨p, hdepicts.unfolds hacyclic, hdisplay⟩

/-- A list that holds another one twice. -/
def sharedPair : Tables := #[.ofList [.list ⟨1⟩, .list ⟨1⟩], .ofList []]

/-- A list that is shared but not inside itself is shown each time. -/
theorem sharedPair_shown : Objects.empty.Acyclic sharedPair (.list ⟨0⟩) ∧
    ∃ p, Objects.empty.Unfolds sharedPair (.list ⟨0⟩) p ∧
      Objects.empty.display sharedPair (.list ⟨0⟩) = p.render := by
  have hacyclic : Objects.empty.Acyclic sharedPair (.list ⟨0⟩) := by
    intro address path u t hoccurs hface
    cases hoccurs with
    | here => exact List.not_mem_nil
    | @inside _ _ _ w _ t' i _ hface' hitem hrest =>
        cases hface'
        have hw : w = .list ⟨1⟩ := by
          have hmem := List.mem_of_getElem? hitem
          simpa [sharedPair, Tables.items, Tables.get, Table.ofList] using hmem
        subst hw
        cases hrest with
        | here =>
            cases hface
            decide
        | inside hface' hitem' _ =>
            cases hface'
            have hmem := List.mem_of_getElem? hitem'
            simp [sharedPair, Tables.items, Tables.get, Table.ofList] at hmem
  exact ⟨hacyclic, (display_marks_cycles Objects.empty sharedPair (.list ⟨0⟩)).2.2 hacyclic⟩

example : Objects.empty.display sharedPair (.list ⟨0⟩) = "[[], []]" := by rfl

end IslandScript
