import Mathlib.Data.Finset.Card
import IslandScript.Proofs.Syntax.Names

/-!
# Interning, call by call

An interner is used by one call after another: `internAll` interns texts in order and gives the name
that each call returned. Through all calls the names that a text is looked up by and the texts that
stand at their places remain inverse to each other, so that interning is a bijection which only grows
(`internAll_new`).
-/

namespace IslandScript.Interner

variable {i j : Interner} {texts : List String} {text : String} {n : Name} {l : Nat}

/-- Interns texts, one after the other: the names that were returned, and the interner that knows
all of them. -/
def internAll (i : Interner) : List String → List Name × Interner
  | [] => ([], i)
  | text :: texts =>
    let (n, j) := i.intern text
    let (ns, k) := j.internAll texts
    (n :: ns, k)

theorem internAll_cons (i : Interner) (text : String) (texts : List String) :
    i.internAll (text :: texts) =
      ((i.intern text).1 :: ((i.intern text).2.internAll texts).1,
        ((i.intern text).2.internAll texts).2) :=
  rfl

theorem length_internAll (i : Interner) (texts : List String) :
    (i.internAll texts).1.length = texts.length := by
  induction texts generalizing i with
  | nil => rfl
  | cons text texts ih => simp [internAll_cons, ih]

/-- Whatever is interned, the interner grows. -/
theorem grows_internAll (i : Interner) (texts : List String) : i.Grows (i.internAll texts).2 := by
  induction texts generalizing i with
  | nil => exact .refl
  | cons text texts ih => exact (Grows.refl.intern text).trans (ih _)

/-! ## Names of texts -/

/-- A text that has a name keeps it. -/
theorem Grows.get? (h : i.Grows j) (hn : i.get? text = some n) : j.get? text = some n :=
  get?_eq_some_iff.mpr (h.getElem? (get?_eq_some_iff.mp hn))

theorem get?_intern (i : Interner) (text : String) :
    (i.intern text).2.get? text = some (i.intern text).1 :=
  get?_eq_some_iff.mpr (getElem?_intern i text)

/-- Interning gives no other text a name. -/
theorem get?_intern_of_ne {other : String} (h : other ≠ text) :
    (i.intern text).2.get? other = i.get? other := by
  cases hget : i.get? text with
  | some n => rw [intern_of_get? hget]
  | none =>
      rw [intern_of_none hget]
      show List.lookup other ((text, _) :: i.names) = i.names.lookup other
      rw [List.lookup_cons, beq_eq_false_iff_ne.mpr h]

/-- After texts were interned, exactly those that were and those that had one before have a name: the
one that was returned, or that they had. -/
theorem get?_internAll :
    (i.internAll texts).2.get? text = some n ↔
      (text, n) ∈ texts.zip (i.internAll texts).1 ∨ i.get? text = some n := by
  induction texts generalizing i with
  | nil => simp [internAll]
  | cons first texts ih =>
      rw [internAll_cons, List.zip_cons_cons, List.mem_cons, ih, Prod.mk.injEq]
      by_cases hfirst : text = first
      · subst hfirst
        rw [get?_intern, Option.some.injEq]
        constructor
        · rintro (hmem | rfl)
          · exact .inl (.inr hmem)
          · exact .inl (.inl ⟨rfl, rfl⟩)
        · rintro ((⟨-, rfl⟩ | hmem) | hbefore)
          · exact .inr rfl
          · exact .inl hmem
          -- It had a name already, and that is what was returned.
          · exact .inr (congrArg Prod.fst (intern_of_get? hbefore))
      · rw [get?_intern_of_ne hfirst]
        simp [hfirst]

/-- A text has a name exactly if it is among the texts. -/
theorem get?_isSome_iff : (i.get? text).isSome ↔ text ∈ i.texts := by
  rw [Option.isSome_iff_exists, Array.mem_iff_getElem?]
  constructor
  · rintro ⟨n, hn⟩
    exact ⟨n.index, get?_eq_some_iff.mp hn⟩
  · rintro ⟨l, hl⟩
    exact ⟨⟨l⟩, get?_eq_some_iff.mpr hl⟩

theorem mem_texts_internAll :
    text ∈ (i.internAll texts).2.texts ↔ text ∈ texts ∨ text ∈ i.texts := by
  have hlength := i.length_internAll texts
  rw [← get?_isSome_iff, ← get?_isSome_iff, Option.isSome_iff_exists, Option.isSome_iff_exists]
  simp only [get?_internAll, exists_or]
  have hmem : (∃ n, (text, n) ∈ texts.zip (i.internAll texts).1) ↔ text ∈ texts := by
    have hfst : (texts.zip (i.internAll texts).1).map Prod.fst = texts :=
      List.map_fst_zip (Nat.le_of_eq hlength.symm)
    constructor
    · rintro ⟨n, hn⟩
      exact (List.of_mem_zip hn).1
    · intro htext
      rw [← hfst] at htext
      obtain ⟨⟨other, n⟩, hn, rfl⟩ := List.mem_map.mp htext
      exact ⟨n, hn⟩
  rw [hmem]

/-! ## How many texts there are -/

/-- No text stands at two places. -/
theorem nodup_texts (i : Interner) : i.texts.toList.Nodup := by
  rw [List.nodup_iff_injective_get]
  intro a b hab
  have ha : i.texts[a.val]? = some (i.texts.toList.get a) := by simp
  have hb : i.texts[b.val]? = some (i.texts.toList.get a) := by
    rw [hab]
    simp
  have hname : i.get? (i.texts.toList.get a) = some ⟨a.val⟩ := get?_eq_some_iff.mpr ha
  have hname' : i.get? (i.texts.toList.get a) = some ⟨b.val⟩ := get?_eq_some_iff.mpr hb
  have heq : (⟨a.val⟩ : Name) = ⟨b.val⟩ := Option.some.inj (hname.symm.trans hname')
  exact Fin.ext (congrArg Name.index heq)

/-- There are as many texts as there were, and one for each that was interned and is new. -/
theorem size_internAll (i : Interner) (texts : List String) :
    (i.internAll texts).2.size = i.size + (texts.toFinset \ i.texts.toList.toFinset).card := by
  have hcard (k : Interner) : k.size = k.texts.toList.toFinset.card := by
    rw [List.toFinset_card_of_nodup k.nodup_texts]
    rfl
  have hunion : (i.internAll texts).2.texts.toList.toFinset =
      i.texts.toList.toFinset ∪ texts.toFinset := by
    ext text
    simp [mem_texts_internAll, or_comm]
  rw [hcard, hcard i, hunion, ← Finset.union_sdiff_self_eq_union,
    Finset.card_union_of_disjoint Finset.disjoint_sdiff]

/-! ## From a new interner -/

theorem get?_new : new.get? text = some n ↔ fixedTexts[n.index]? = some text := get?_eq_some_iff

/-- How names and texts belong together once texts were interned in a new interner and the calls
returned names, in the same order. -/
structure Bijective (texts : List String) (names : List Name) (i : Interner) : Prop where
  length : names.length = texts.length
  /-- Two calls return the same name exactly if their texts are equal. -/
  eq_iff : ∀ a n b m, (a, n) ∈ texts.zip names → (b, m) ∈ texts.zip names → (n = m ↔ a = b)
  /-- A name stands for its text, whatever is interned further. -/
  text : ∀ a n more, (a, n) ∈ texts.zip names → (i.internAll more).2.text n = a
  /-- A name is found for the texts that were interned and for the fixed ones, and for no other. -/
  get? : ∀ a n,
    i.get? a = some n ↔ (a, n) ∈ texts.zip names ∨ fixedTexts[n.index]? = some a
  get?_none : ∀ a, i.get? a = none ↔ a ∉ texts ∧ a ∉ fixedTexts
  /-- The fixed texts keep their places, whether they are interned again or not. -/
  fixed : ∀ l a, fixedTexts[l]? = some a →
    i.get? a = some ⟨l⟩ ∧ i.text ⟨l⟩ = a ∧ (i.intern a).1 = ⟨l⟩
  /-- There are five texts, and one more for each that is not fixed. -/
  size : i.size = 5 + (texts.toFinset \ fixedTexts.toList.toFinset).card
  /-- Names are indices of texts, so they fit into as many bits as the number of texts does. -/
  index_lt : ∀ n ∈ names, n.index < i.size
  /-- A name that was never given reads as empty. -/
  beyond : ∀ n : Name, i.size ≤ n.index → i.text n = ""

theorem text_of_get? (h : i.get? text = some n) : i.text n = text := by
  rw [Interner.text, get?_eq_some_iff.mp h]
  rfl

theorem index_lt_of_get? (h : i.get? text = some n) : n.index < i.size :=
  (Array.getElem?_eq_some_iff.mp (get?_eq_some_iff.mp h)).1

/-- **Interning is a stable bijection.** -/
theorem internAll_new (texts : List String) :
    Bijective texts (new.internAll texts).1 (new.internAll texts).2 := by
  have hlength := new.length_internAll texts
  have hnamed {a : String} {n : Name} (h : (a, n) ∈ texts.zip (new.internAll texts).1) :
      (new.internAll texts).2.get? a = some n :=
    get?_internAll.mpr (.inl h)
  have hfixed {l : Nat} {a : String} (h : fixedTexts[l]? = some a) :
      (new.internAll texts).2.get? a = some ⟨l⟩ :=
    get?_internAll.mpr (.inr (get?_new.mpr h))
  constructor
  case length => exact hlength
  case eq_iff =>
    intro a n b m hn hm
    constructor
    · rintro rfl
      rw [← text_of_get? (hnamed hn), text_of_get? (hnamed hm)]
    · rintro rfl
      exact Option.some.inj ((hnamed hn).symm.trans (hnamed hm))
  case text =>
    intro a n more hn
    exact text_of_get? ((grows_internAll _ more).get? (hnamed hn))
  case get? =>
    intro a n
    rw [get?_internAll, get?_new]
  case get?_none =>
    intro a
    rw [← Option.not_isSome_iff_eq_none, get?_isSome_iff, mem_texts_internAll, not_or]
    rfl
  case fixed =>
    intro l a h
    exact ⟨hfixed h, text_of_get? (hfixed h), congrArg Prod.fst (intern_of_get? (hfixed h))⟩
  case size => exact size_internAll new texts
  case index_lt =>
    intro n hn
    have hsnd : (texts.zip (new.internAll texts).1).map Prod.snd = (new.internAll texts).1 :=
      List.map_snd_zip (Nat.le_of_eq hlength)
    rw [← hsnd] at hn
    obtain ⟨⟨a, n⟩, hmem, rfl⟩ := List.mem_map.mp hn
    exact index_lt_of_get? (hnamed hmem)
  case beyond =>
    intro n hn
    rw [Interner.text, Array.getElem?_eq_none hn]
    rfl

end IslandScript.Interner
