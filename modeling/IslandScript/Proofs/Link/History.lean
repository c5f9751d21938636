import Mathlib.Data.List.Nodup
import IslandScript.Link.Core
import IslandScript.Proofs.Logic.Within

/-!
# What a linker knows

A linker is asked to offer links, to import them and to close. All it ever answers follows from what
it was asked: which links are on offer under which names, and which of them were imported since the
last close, in which order. `Linker.Meets` says how, and `linker_meets_history` that it is so after
any actions. The first link of a name is the one on offer, and the first registration of a path among
the links imported since the last close is the one that is found.
-/

namespace IslandScript

/-! ## Registers

A register finds places by key, and a store keeps what stands there. -/

section Register

variable {ι α : Type} {place : ι → Nat} {entries : List (String × ι)} {store : Array α}
variable {registered : List (String × α)} {key : String} {a : α}

/-- Under each key the register finds what was registered under it first. -/
def FindsFirst (place : ι → Nat) (entries : List (String × ι)) (store : Array α)
    (registered : List (String × α)) : Prop :=
  ∀ key, (entries.lookup key).map (store[place ·]?) = (registered.lookup key).map some

theorem FindsFirst.nil : FindsFirst place [] store [] := fun _ => rfl

/-- What is registered under a key that is taken is not found. -/
theorem FindsFirst.taken (h : FindsFirst place entries store registered)
    (hkey : (entries.lookup key).isSome) :
    FindsFirst place entries store (registered ++ [(key, a)]) := by
  intro k
  rw [h k, List.lookup_append]
  cases hk : registered.lookup k with
  | some b => rfl
  | none =>
      -- nothing was found under `k`, so it is another key
      have hne : k ≠ key := by
        rintro rfl
        have hnone := h k
        rw [hk, Option.map_none, Option.map_eq_none_iff] at hnone
        rw [hnone] at hkey
        cases hkey
      rw [Option.none_or, List.lookup_cons, beq_false_of_ne hne]
      rfl

/-- What is registered last goes to the end of the store and is found under a key that is free. -/
theorem FindsFirst.added {new : ι} (h : FindsFirst place entries store registered)
    (hnew : place new = store.size) :
    FindsFirst place (entries ++ [(key, new)]) (store.push a) (registered ++ [(key, a)]) := by
  intro k
  rw [List.lookup_append, List.lookup_append]
  have hk := h k
  cases hentry : entries.lookup k with
  | some i =>
      rw [hentry, Option.map_some] at hk
      obtain ⟨b, hb, hplace⟩ := Option.map_eq_some_iff.mp hk.symm
      rw [hb, Option.some_or, Option.some_or, Option.map_some, Option.map_some,
        getElem?_push_of_some hplace.symm]
  | none =>
      rw [hentry, Option.map_none] at hk
      rw [Option.map_eq_none_iff.mp hk.symm, Option.none_or, Option.none_or, List.lookup_cons,
        List.lookup_cons]
      split
      · rw [Option.map_some, Option.map_some, hnew, Array.getElem?_push_size]
      · rfl

end Register

namespace Linker

/-! ## What was asked -/

/-- What can be asked of a linker. -/
inductive Action where
  | add (link : Link)
  | importLink (name : String)
  | close

/-- The linker after an action. An import that fails leaves it as it is. -/
def perform (l : Linker) : Action → Linker
  | .add link => (l.add link).2
  | .importLink name =>
    match l.importLink name with
    | .ok (_, l') => l'
    | .error _ => l
  | .close => l.close.2

/-- A new linker after actions, of which the last comes first. -/
def after : List Action → Linker
  | [] => Linker.new
  | action :: earlier => (after earlier).perform action

/-- The links that were offered by actions, in order. -/
def offers : List Action → List Link
  | [] => [Core.link]
  | .add link :: earlier => offers earlier ++ [link]
  | _ :: earlier => offers earlier

/-- The link on offer under a name: the first that was offered under it. -/
def offer? (actions : List Action) (name : String) : Option Link :=
  (offers actions).find? (·.name == name)

/-- The links imported since the last close, in order: each that was asked for while it was on offer,
once. -/
def imports : List Action → List Link
  | [] => []
  | .add _ :: earlier => imports earlier
  | .close :: _ => []
  | .importLink name :: earlier =>
    if name ∈ (imports earlier).map (·.name) then imports earlier
    else imports earlier ++ (offer? earlier name).toList

/-- A look-up finds what it has to find, or fails for a reason if there is nothing. -/
def Finds {ι α : Type} (found : Except LinkErrorKind ι) (get : ι → Option α)
    (reason : LinkErrorKind) : Option α → Prop
  | some a => ∃ i, found = .ok i ∧ get i = some a
  | none => found = .error reason

/-- All that a linker answers, and becomes, is told by the actions before. -/
structure Meets (l : Linker) (actions : List Action) : Prop where
  /-- No two links are on offer under one name. -/
  distinct : (l.available.map (·.name)).Nodup
  /-- The link on offer under a name is the first that was offered. -/
  offered : ∀ name, l.find? name = offer? actions name
  /-- No name is imported twice. -/
  importedOnce : l.imported.Nodup
  /-- What is imported is what was imported since the last close. -/
  imported : l.imported = (imports actions).map (·.name)
  /-- A link was imported since the last close if it was asked for, while it was on offer, and no close
  came after. -/
  sinceClose : ∀ link, link ∈ imports actions ↔ ∃ later earlier,
    actions = later ++ .importLink link.name :: earlier ∧ .close ∉ later ∧
      offer? earlier link.name = some link
  /-- What is imported is available. -/
  available : ∀ link ∈ imports actions, link ∈ l.available
  /-- A path stands for the first function registered for it by the first link that registers one. -/
  function : ∀ path, Finds (l.function path) l.nativeFunction? (.missingFunction path)
    ((imports actions).findSome? (·.functions.lookup path))
  /-- A name stands for the first class registered for it by the first link that registers one. -/
  cls : ∀ name, Finds (l.cls name) l.nativeClass? (.missingClass name)
    ((imports actions).findSome? (·.classes.lookup name))
  /-- An import of what is imported changes nothing and gives no prelude. -/
  importAgain : ∀ name ∈ l.imported, l.importLink name = .ok (none, l)
  /-- An import of what is not on offer changes nothing and fails. -/
  importMissing : ∀ name, offer? actions name = none →
    l.importLink name = .error (.missingLink name) ∧ l.perform (.importLink name) = l
  /-- Any other import gives the prelude of the link. -/
  importNew : ∀ name link, name ∉ l.imported → offer? actions name = some link →
    l.importLink name = .ok (some link.prelude, l.perform (.importLink name))
  /-- A close closes the imported links, each once. -/
  closes : l.close.1 = imports actions
  /-- After a close nothing is imported or registered, and what was available still is. -/
  closed : l.close.2.imported = [] ∧ l.close.2.functions = [] ∧ l.close.2.classes = [] ∧
    l.close.2.available = l.available

/-! ## Registration -/

variable {l : Linker} {actions earlier : List Action} {name path : String} {link : Link}
variable {functions : List (String × NativeFunction)} {classes : List (String × NativeClass)}

/-- The paths of a linker find the functions registered for them first. -/
def FindsFunctions (l : Linker) (registered : List (String × NativeFunction)) : Prop :=
  FindsFirst NativeFunctionId.index l.functions l.nativeFunctions registered

/-- The names of a linker find the classes registered under them first. -/
def FindsClasses (l : Linker) (registered : List (String × NativeClass)) : Prop :=
  FindsFirst NativeClassId.index l.classes l.nativeClasses registered

theorem FindsFunctions.registerFunction {f : NativeFunction} (h : l.FindsFunctions functions) :
    (l.registerFunction path f).FindsFunctions (functions ++ [(path, f)]) := by
  unfold Linker.registerFunction
  split
  next htaken => exact h.taken htaken
  next => exact h.added rfl

theorem FindsClasses.registerClass {c : NativeClass} (h : l.FindsClasses classes) :
    (l.registerClass name c).FindsClasses (classes ++ [(name, c)]) := by
  unfold Linker.registerClass
  split
  next htaken => exact h.taken htaken
  next => exact h.added rfl

/-- Registering functions changes nothing but the functions. -/
theorem registerFunctions_others (fs : List (String × NativeFunction)) (l : Linker) :
    let l' := fs.foldl (fun l (path, f) => l.registerFunction path f) l
    l'.available = l.available ∧ l'.imported = l.imported ∧
      ∀ classes, l.FindsClasses classes → l'.FindsClasses classes := by
  induction fs generalizing l with
  | nil => exact ⟨rfl, rfl, fun _ h => h⟩
  | cons f fs ih =>
      obtain ⟨ha, hi, hc⟩ := ih (l.registerFunction f.1 f.2)
      have hone : (l.registerFunction f.1 f.2).available = l.available ∧
          (l.registerFunction f.1 f.2).imported = l.imported ∧
          (l.registerFunction f.1 f.2).classes = l.classes ∧
          (l.registerFunction f.1 f.2).nativeClasses = l.nativeClasses := by
        unfold Linker.registerFunction
        split <;> exact ⟨rfl, rfl, rfl, rfl⟩
      refine ⟨ha.trans hone.1, hi.trans hone.2.1, fun classes h => hc classes ?_⟩
      unfold FindsClasses
      rw [hone.2.2.1, hone.2.2.2]
      exact h

/-- Registering classes changes nothing but the classes. -/
theorem registerClasses_others (cs : List (String × NativeClass)) (l : Linker) :
    let l' := cs.foldl (fun l (name, c) => l.registerClass name c) l
    l'.available = l.available ∧ l'.imported = l.imported ∧
      ∀ functions, l.FindsFunctions functions → l'.FindsFunctions functions := by
  induction cs generalizing l with
  | nil => exact ⟨rfl, rfl, fun _ h => h⟩
  | cons c cs ih =>
      obtain ⟨ha, hi, hf⟩ := ih (l.registerClass c.1 c.2)
      have hone : (l.registerClass c.1 c.2).available = l.available ∧
          (l.registerClass c.1 c.2).imported = l.imported ∧
          (l.registerClass c.1 c.2).functions = l.functions ∧
          (l.registerClass c.1 c.2).nativeFunctions = l.nativeFunctions := by
        unfold Linker.registerClass
        split <;> exact ⟨rfl, rfl, rfl, rfl⟩
      refine ⟨ha.trans hone.1, hi.trans hone.2.1, fun functions h => hf functions ?_⟩
      unfold FindsFunctions
      rw [hone.2.2.1, hone.2.2.2]
      exact h

theorem FindsFunctions.registerFunctions (h : l.FindsFunctions functions)
    (fs : List (String × NativeFunction)) :
    (fs.foldl (fun l (path, f) => l.registerFunction path f) l).FindsFunctions
      (functions ++ fs) := by
  induction fs generalizing l functions with
  | nil => rwa [List.append_nil]
  | cons f fs ih =>
      rw [List.append_cons]
      exact ih h.registerFunction

theorem FindsClasses.registerClasses (h : l.FindsClasses classes)
    (cs : List (String × NativeClass)) :
    (cs.foldl (fun l (name, c) => l.registerClass name c) l).FindsClasses (classes ++ cs) := by
  induction cs generalizing l classes with
  | nil => rwa [List.append_nil]
  | cons c cs ih =>
      rw [List.append_cons]
      exact ih h.registerClass

theorem register_available : (l.register link).available = l.available :=
  (registerClasses_others link.classes _).1.trans (registerFunctions_others link.functions l).1

theorem register_imported : (l.register link).imported = l.imported :=
  (registerClasses_others link.classes _).2.1.trans (registerFunctions_others link.functions l).2.1

theorem FindsFunctions.register (h : l.FindsFunctions functions) :
    (l.register link).FindsFunctions (functions ++ link.functions) :=
  (registerClasses_others link.classes _).2.2 _ (h.registerFunctions link.functions)

theorem FindsClasses.register (h : l.FindsClasses classes) :
    (l.register link).FindsClasses (classes ++ link.classes) :=
  ((registerFunctions_others link.functions l).2.2 _ h).registerClasses link.classes

/-! ## One action -/

/-- What a linker holds after actions: enough to tell what the next one does. -/
structure Remembers (l : Linker) (actions : List Action) : Prop where
  distinct : (l.available.map (·.name)).Nodup
  offered : ∀ name, l.find? name = offer? actions name
  imported : l.imported = (imports actions).map (·.name)
  importedOnce : l.imported.Nodup
  available : ∀ link ∈ imports actions, offer? actions link.name = some link
  functions : l.FindsFunctions ((imports actions).flatMap (·.functions))
  classes : l.FindsClasses ((imports actions).flatMap (·.classes))

theorem Remembers.new : Linker.new.Remembers [] where
  distinct := List.nodup_singleton _
  offered _ := rfl
  imported := rfl
  importedOnce := List.nodup_nil
  available _ h := (List.not_mem_nil h).elim
  functions := .nil
  classes := .nil

theorem offer?_add : offer? (.add link :: earlier) name =
    (offer? earlier name).or (if link.name == name then some link else none) := by
  unfold offer?
  rw [offers, List.find?_append, List.find?_singleton]

/-- What is on offer stays on offer. -/
theorem offer?_cons {action : Action} (h : offer? earlier name = some link) :
    offer? (action :: earlier) name = some link := by
  cases action with
  | add new => rw [offer?_add, h, Option.some_or]
  | importLink _ => exact h
  | close => exact h

theorem name_of_offer? (h : offer? earlier name = some link) : link.name = name := by
  unfold offer? at h
  exact eq_of_beq (List.find?_some h :)

/-- A name stands for none of the links available, or for the only one. -/
theorem name_not_mem_of_find?_eq_none (h : l.find? name = none) :
    name ∉ l.available.map (·.name) := by
  intro hmem
  obtain ⟨link, hlink, rfl⟩ := List.mem_map.mp hmem
  have := List.find?_eq_none.mp h link hlink
  simp at this

theorem find?_withAvailable (l : Linker) (link : Link) (name : String) :
    ({ l with available := l.available ++ [link] } : Linker).find? name =
      (l.find? name).or (if link.name == name then some link else none) := by
  unfold Linker.find?
  rw [List.find?_append, List.find?_singleton]

theorem Remembers.add (h : l.Remembers earlier) (link : Link) :
    (l.perform (.add link)).Remembers (.add link :: earlier) := by
  have havailable : ∀ used ∈ imports earlier, offer? (.add link :: earlier) used.name = some used :=
    fun used hused => offer?_cons (h.available used hused)
  rw [perform, Linker.add]
  split
  next htaken =>
    refine ⟨h.distinct, fun name => ?_, h.imported, h.importedOnce, havailable, h.functions,
      h.classes⟩
    rw [offer?_add, ← h.offered]
    split
    next hname =>
      obtain ⟨first, hfirst⟩ := Option.isSome_iff_exists.mp htaken
      rw [← eq_of_beq hname, hfirst, Option.some_or]
    next => rw [Option.or_none]
  next hfree =>
    refine ⟨?_, fun name => ?_, h.imported, h.importedOnce, havailable, h.functions, h.classes⟩
    · rw [List.map_append, List.map_singleton]
      exact List.concat_eq_append ▸ h.distinct.concat
        (name_not_mem_of_find?_eq_none (Option.not_isSome_iff_eq_none.mp hfree))
    · rw [find?_withAvailable, offer?_add, h.offered]

theorem imports_again (h : l.Remembers earlier) (hname : name ∈ l.imported) :
    imports (.importLink name :: earlier) = imports earlier := by
  rw [imports, if_pos (h.imported ▸ hname)]

theorem imports_new (h : l.Remembers earlier) (hname : name ∉ l.imported) :
    imports (.importLink name :: earlier) = imports earlier ++ (offer? earlier name).toList := by
  rw [imports, if_neg (h.imported ▸ hname)]

theorem importLink_again (hname : name ∈ l.imported) : l.importLink name = .ok (none, l) := by
  rw [importLink, isImported, if_pos (List.contains_iff_mem.mpr hname)]

theorem importLink_missing (hname : name ∉ l.imported) (hlink : l.find? name = none) :
    l.importLink name = .error (.missingLink name) := by
  rw [importLink, isImported, if_neg (fun h => hname (List.contains_iff_mem.mp h)), hlink]

theorem importLink_new (hname : name ∉ l.imported) (hlink : l.find? name = some link) :
    l.importLink name =
      .ok (some link.prelude, { l.register link with imported := l.imported ++ [name] }) := by
  rw [importLink, isImported, if_neg (fun h => hname (List.contains_iff_mem.mp h)), hlink]
  simp only [register_imported]

theorem Remembers.importLink (h : l.Remembers earlier) (name : String) :
    (l.perform (.importLink name)).Remembers (.importLink name :: earlier) := by
  by_cases hname : name ∈ l.imported
  · rw [perform, importLink_again hname]
    refine ⟨h.distinct, h.offered, ?_, h.importedOnce, ?_, ?_, ?_⟩ <;> rw [imports_again h hname]
    · exact h.imported
    · exact h.available
    · exact h.functions
    · exact h.classes
  cases hlink : l.find? name with
  | none =>
      have himports : imports (.importLink name :: earlier) = imports earlier := by
        rw [imports_new h hname, ← h.offered, hlink, Option.toList_none, List.append_nil]
      rw [perform, importLink_missing hname hlink]
      refine ⟨h.distinct, h.offered, ?_, h.importedOnce, ?_, ?_, ?_⟩ <;> rw [himports]
      · exact h.imported
      · exact h.available
      · exact h.functions
      · exact h.classes
  | some link =>
      have hoffer : offer? earlier name = some link := h.offered name ▸ hlink
      have himports : imports (.importLink name :: earlier) = imports earlier ++ [link] := by
        rw [imports_new h hname, hoffer, Option.toList_some]
      rw [perform, importLink_new hname hlink]
      refine ⟨?_, fun other => ?_, ?_, ?_, ?_, ?_, ?_⟩
      · rw [register_available]
        exact h.distinct
      · unfold Linker.find?
        rw [register_available]
        exact h.offered other
      · rw [himports, List.map_append, ← h.imported, List.map_singleton, name_of_offer? hoffer]
      · exact List.concat_eq_append ▸ h.importedOnce.concat hname
      · rw [himports]
        intro used hused
        rcases List.mem_append.mp hused with hold | hnew
        · exact offer?_cons (h.available used hold)
        · rw [List.mem_singleton.mp hnew, name_of_offer? hoffer]
          exact offer?_cons hoffer
      · rw [himports, List.flatMap_append, List.flatMap_singleton]
        exact h.functions.register
      · rw [himports, List.flatMap_append, List.flatMap_singleton]
        exact h.classes.register

theorem Remembers.close (h : l.Remembers earlier) :
    (l.perform .close).Remembers (.close :: earlier) where
  distinct := h.distinct
  offered := h.offered
  imported := rfl
  importedOnce := List.nodup_nil
  available _ hused := (List.not_mem_nil hused).elim
  functions := .nil
  classes := .nil

theorem remembers_after (actions : List Action) : (after actions).Remembers actions := by
  induction actions with
  | nil => exact .new
  | cons action earlier ih =>
      cases action with
      | add link => exact ih.add link
      | importLink name => exact ih.importLink name
      | close => exact ih.close

/-! ## All actions -/

/-- A link was imported since the last close if it was asked for while it was on offer. -/
theorem mem_imports_iff : link ∈ imports actions ↔ ∃ later earlier,
    actions = later ++ .importLink link.name :: earlier ∧ .close ∉ later ∧
      offer? earlier link.name = some link := by
  constructor
  · intro h
    induction actions with
    | nil => cases h
    | cons action actions ih =>
        have hbefore : link ∈ imports actions → action ≠ .close → ∃ later earlier,
            action :: actions = later ++ .importLink link.name :: earlier ∧ .close ∉ later ∧
              offer? earlier link.name = some link := by
          intro hold hclose
          obtain ⟨later, earlier, rfl, hlater, hoffer⟩ := ih hold
          exact ⟨action :: later, earlier, rfl, List.not_mem_cons_of_ne_of_not_mem hclose.symm hlater, hoffer⟩
        cases action with
        | add new => exact hbefore h nofun
        | close => cases h
        | importLink name =>
            rw [imports] at h
            split at h
            · exact hbefore h nofun
            · rcases List.mem_append.mp h with hold | hnew
              · exact hbefore hold nofun
              · have hoffer : offer? actions name = some link := Option.mem_toList.mp hnew
                obtain rfl := name_of_offer? hoffer
                exact ⟨[], actions, rfl, List.not_mem_nil, hoffer⟩
  · rintro ⟨later, earlier, rfl, hlater, hoffer⟩
    induction later with
    | nil =>
        rw [List.nil_append, imports]
        split
        next hagain =>
          -- the link that was imported under the name was the one on offer
          obtain ⟨used, hused, hname⟩ := List.mem_map.mp hagain
          have := (remembers_after earlier).available used hused
          rw [hname, hoffer] at this
          exact Option.some.inj this ▸ hused
        next => exact List.mem_append_right _ (Option.mem_toList.mpr hoffer)
    | cons action later ih =>
        have hclose := List.ne_of_not_mem_cons hlater
        have hold := ih (List.not_mem_of_not_mem_cons hlater)
        cases action with
        | add new => exact hold
        | close => exact (hclose rfl).elim
        | importLink name =>
            rw [List.cons_append, imports]
            split
            · exact hold
            · exact List.mem_append_left _ hold

/-- What is first among the entries of lists one after another is what the first list finds. -/
theorem lookup_flatMap {α β : Type} (entries : α → List (String × β)) (key : String)
    (xs : List α) : (xs.flatMap entries).lookup key = xs.findSome? fun x => (entries x).lookup key := by
  induction xs with
  | nil => rfl
  | cons x xs ih =>
      rw [List.flatMap_cons, List.lookup_append, ih, List.findSome?_cons]
      cases (entries x).lookup key <;> rfl

/-- A look-up in a register finds what was registered first, or fails. -/
theorem finds_of_findsFirst {ι α : Type} {place : ι → Nat} {entries : List (String × ι)}
    {store : Array α} {registered : List (String × α)} {key : String}
    {found : Except LinkErrorKind ι} {reason : LinkErrorKind}
    (h : FindsFirst place entries store registered)
    (hsome : ∀ i, entries.lookup key = some i → found = .ok i)
    (hnone : entries.lookup key = none → found = .error reason) :
    Finds found (store[place ·]?) reason (registered.lookup key) := by
  have hkey := h key
  cases ha : registered.lookup key with
  | none =>
      rw [ha, Option.map_none, Option.map_eq_none_iff] at hkey
      exact hnone hkey
  | some a =>
      rw [ha] at hkey
      obtain ⟨i, hi, hplace⟩ := Option.map_eq_some_iff.mp hkey
      exact ⟨i, hsome i hi, hplace⟩

theorem Remembers.closes (h : l.Remembers actions) : l.close.1 = imports actions := by
  have hfind : ∀ link ∈ imports actions, (l.find? ∘ (·.name)) link = some link :=
    fun link hlink => (h.offered link.name).trans (h.available link hlink)
  rw [Linker.close, h.imported, List.filterMap_map, List.filterMap_congr hfind, List.filterMap_some]

/-- A linker knows what it was asked for, in whatever order it was offered links, imported them and
was closed. -/
theorem linker_meets_history (actions : List Action) : (after actions).Meets actions := by
  have h := remembers_after actions
  refine
    { distinct := h.distinct
      offered := h.offered
      importedOnce := h.importedOnce
      imported := h.imported
      sinceClose := fun _ => mem_imports_iff
      available := fun link hlink =>
        List.mem_of_find?_eq_some ((h.offered link.name).trans (h.available link hlink))
      function := fun path => lookup_flatMap Link.functions path _ ▸
        finds_of_findsFirst h.functions (fun _ hi => by rw [Linker.function, hi])
          (fun hi => by rw [Linker.function, hi])
      cls := fun name => lookup_flatMap Link.classes name _ ▸
        finds_of_findsFirst h.classes (fun _ hi => by rw [Linker.cls, hi])
          (fun hi => by rw [Linker.cls, hi])
      importAgain := fun _ hname => importLink_again hname
      importMissing := fun name hname => ?_
      importNew := fun name link hname hlink => ?_
      closes := h.closes
      closed := ⟨rfl, rfl, rfl, rfl⟩ }
  · have hmissing : name ∉ (after actions).imported := by
      rw [h.imported]
      intro hmem
      obtain ⟨link, hlink, rfl⟩ := List.mem_map.mp hmem
      cases hname.symm.trans (h.available link hlink)
    have himport := importLink_missing hmissing ((h.offered name).trans hname)
    exact ⟨himport, by rw [perform, himport]⟩
  · have himport := importLink_new hname ((h.offered name).trans hlink)
    rw [perform, himport]

end Linker
end IslandScript
