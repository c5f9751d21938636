import IslandScript.Proofs.Link.History

/-!
# The core link alone

A linker that was offered no link but the core link either knows no native or all of its functions,
each under its path. What was registered keeps its place when links are closed or imported again.
-/

namespace IslandScript.Linker

variable {l l' : Linker} {actions : List Action} {path name : String} {id : NativeFunctionId}
variable {f : NativeFunction} {prelude : Option Source}

/-! ## Places -/

/-- Natives keep their places. -/
def Keeps (l l' : Linker) : Prop :=
  ∀ id f, l.nativeFunction? id = some f → l'.nativeFunction? id = some f

theorem Keeps.refl (l : Linker) : l.Keeps l := fun _ _ h => h

theorem Keeps.trans {l'' : Linker} (h : l.Keeps l') (h' : l'.Keeps l'') : l.Keeps l'' :=
  fun id f hf => h' id f (h id f hf)

theorem keeps_registerFunction (l : Linker) (path : String) (f : NativeFunction) :
    l.Keeps (l.registerFunction path f) := by
  unfold registerFunction
  split
  · exact .refl l
  · exact fun id g hg => getElem?_push_of_some hg

theorem keeps_registerClass (l : Linker) (name : String) (c : NativeClass) :
    l.Keeps (l.registerClass name c) := by
  unfold registerClass
  split <;> exact .refl _

theorem keeps_foldl {α : Type} {g : Linker → α → Linker} (hg : ∀ l a, Keeps l (g l a)) (xs : List α)
    (l : Linker) : l.Keeps (xs.foldl g l) := by
  induction xs generalizing l with
  | nil => exact .refl l
  | cons x xs ih => exact (hg l x).trans (ih (g l x))

theorem keeps_register (l : Linker) (link : Link) : l.Keeps (l.register link) :=
  (keeps_foldl (fun l f => keeps_registerFunction l f.1 f.2) link.functions l).trans
    (keeps_foldl (fun l c => keeps_registerClass l c.1 c.2) link.classes _)

theorem keeps_importLink (h : l.importLink name = .ok (prelude, l')) : l.Keeps l' := by
  unfold importLink at h
  split at h
  · cases h
    exact .refl l
  · split at h
    · cases h
    · cases h
      exact keeps_register l _

theorem keeps_close (l : Linker) : l.Keeps l.close.2 := fun _ _ h => h

/-! ## Only the core link -/

/-- A new linker was offered no further link. -/
def Sole (l : Linker) : Prop := ∃ actions, (∀ link, .add link ∉ actions) ∧ l = after actions

theorem Sole.new : Linker.new.Sole := ⟨[], fun _ => List.not_mem_nil, rfl⟩

theorem Sole.importLink (h : l.Sole) (hl : l.importLink name = .ok (prelude, l')) : l'.Sole := by
  obtain ⟨actions, hadd, rfl⟩ := h
  refine ⟨.importLink name :: actions, fun link hlink => ?_, ?_⟩
  · rcases List.mem_cons.mp hlink with hlink | hlink
    · cases hlink
    · exact hadd link hlink
  · rw [after, perform, hl]

theorem Sole.close (h : l.Sole) : l.close.2.Sole := by
  obtain ⟨actions, hadd, rfl⟩ := h
  refine ⟨.close :: actions, fun link hlink => ?_, rfl⟩
  rcases List.mem_cons.mp hlink with hlink | hlink
  · cases hlink
  · exact hadd link hlink

theorem offers_sole (hadd : ∀ link, .add link ∉ actions) : offers actions = [Core.link] := by
  induction actions with
  | nil => rfl
  | cons action earlier ih =>
      have hearlier := ih fun link hlink => hadd link (List.mem_cons_of_mem _ hlink)
      cases action with
      | add link => exact absurd List.mem_cons_self (hadd link)
      | importLink | close => exact hearlier

/-- What is imported is the core link, or nothing. -/
theorem imports_sole (hadd : ∀ link, .add link ∉ actions) :
    imports actions = [] ∨ imports actions = [Core.link] := by
  induction actions with
  | nil => exact .inl rfl
  | cons action earlier ih =>
      have hearlier : ∀ link, .add link ∉ earlier :=
        fun link hlink => hadd link (List.mem_cons_of_mem _ hlink)
      cases action with
      | add link => exact absurd List.mem_cons_self (hadd link)
      | close => exact .inl rfl
      | importLink name =>
          rw [imports]
          split
          · exact ih hearlier
          next hnew =>
            unfold offer?
            rw [offers_sole hearlier, List.find?_singleton]
            split
            next hname =>
              rcases ih hearlier with hnone | hcore
              · exact .inr (by rw [hnone]; rfl)
              · -- it was imported before
                rw [hcore, ← eq_of_beq hname] at hnew
                exact absurd List.mem_cons_self hnew
            next => simpa using ih hearlier

/-- Under a path stands the function that the core link registers for it. -/
theorem Sole.function_ok (h : l.Sole) (hid : l.function path = .ok id) :
    l.isImported Core.name = true ∧
      ∃ f, Core.link.functions.lookup path = some f ∧ l.nativeFunction? id = some f := by
  obtain ⟨actions, hadd, rfl⟩ := h
  have hremembers := remembers_after actions
  have hlookup : (after actions).functions.lookup path = some id := by
    unfold Linker.function at hid
    split at hid
    · cases hid
      assumption
    · cases hid
  have hfirst := hremembers.functions path
  rw [hlookup, Option.map_some] at hfirst
  rcases imports_sole hadd with hnone | hcore
  · rw [hnone] at hfirst
    cases hfirst
  · rw [hcore, List.flatMap_singleton] at hfirst
    obtain ⟨f, hf, hplace⟩ := Option.map_eq_some_iff.mp hfirst.symm
    refine ⟨?_, f, hf, hplace.symm⟩
    rw [isImported, hremembers.imported, hcore]
    rfl

/-- While the core link is imported, all its functions are registered. -/
theorem Sole.function_isOk (h : l.Sole) (himported : l.isImported Core.name = true)
    (hpath : (Core.link.functions.lookup path).isSome) : ∃ id, l.function path = .ok id := by
  obtain ⟨actions, hadd, rfl⟩ := h
  have hremembers := remembers_after actions
  have hfirst := hremembers.functions path
  rcases imports_sole hadd with hnone | hcore
  · rw [isImported, hremembers.imported, hnone] at himported
    cases himported
  · rw [hcore, List.flatMap_singleton] at hfirst
    obtain ⟨f, hf⟩ := Option.isSome_iff_exists.mp hpath
    rw [hf] at hfirst
    obtain ⟨id, hid, -⟩ := Option.map_eq_some_iff.mp hfirst
    exact ⟨id, by rw [Linker.function, hid]⟩

end IslandScript.Linker
