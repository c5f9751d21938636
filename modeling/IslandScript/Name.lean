/-!
# Names and their interner

A name is the index of its text in an interner, so names compare as numbers. Equal texts get
equal names, and a name keeps its text for good: the interner only grows. The first five entries
of every interner are fixed, so that names the language itself uses need no interner at hand.
-/

namespace IslandScript

/-- An interned text. -/
structure Name where
  index : Nat
  deriving DecidableEq, Repr, Inhabited

namespace Name

/-- The empty name, which lambdas bear. -/
def empty : Name := ⟨0⟩
/-- The member that is the instance itself. -/
def this : Name := ⟨1⟩
/-- The member that is the base instance. -/
def base : Name := ⟨2⟩
/-- The member of an enum entry that holds its name. -/
def name : Name := ⟨3⟩
/-- The member of an enum entry that holds its place. -/
def ordinal : Name := ⟨4⟩

/-- Whether programs may not declare a name. -/
def isReserved (n : Name) : Bool := n == this || n == base

end Name

/-- The texts every interner starts with, at the indices of the fixed names. -/
def Interner.fixedTexts : Array String := #["", "this", "base", "name", "ordinal"]

/-- The texts interned so far, in order, and the names of texts: a text has a name exactly if it
stands there. The fixed texts stand first. -/
structure Interner where
  texts : Array String
  names : List (String × Name)
  inverse : ∀ text n, names.lookup text = some n ↔ texts[n.index]? = some text
  fixed : ∀ (l : Nat) (text : String), Interner.fixedTexts[l]? = some text → texts[l]? = some text
  deriving DecidableEq, Repr

namespace Interner

/-- A text without a name may be put behind the others. -/
theorem inverse_push {texts : Array String} {names : List (String × Name)} (text : String)
    (h : ∀ t n, names.lookup t = some n ↔ texts[n.index]? = some t)
    (hnone : names.lookup text = none) (t : String) (n : Name) :
    ((text, Name.mk texts.size) :: names).lookup t = some n ↔
      (texts.push text)[n.index]? = some t := by
  obtain ⟨k⟩ := n
  rw [Array.getElem?_push, List.lookup_cons]
  by_cases ht : t = text
  · -- at no earlier place does the text stand already
    have hnew : texts[k]? ≠ some text := by
      rw [Ne, ← h text ⟨k⟩, hnone]
      exact nofun
    subst ht
    simp only [beq_self_eq_true, Option.some.injEq, Name.mk.injEq]
    grind
  · have hbeq : (t == text) = false := by simpa using ht
    rw [hbeq, h]
    split
    next hsize =>
      have hk : k = texts.size := hsize
      simp [hk, Ne.symm ht]
    next => rfl

/-- What stands at a place stays there when a text is put behind the others. -/
theorem getElem?_push_of_eq_some {texts : Array String} {l : Nat} {t : String} (text : String)
    (h : texts[l]? = some t) : (texts.push text)[l]? = some t := by
  have hlt := (Array.getElem?_eq_some_iff.mp h).1
  exact (Array.getElem?_push_lt hlt).trans ((Array.getElem?_eq_getElem hlt).symm.trans h)

/-- Puts a text that has no name yet behind the others. -/
def add (i : Interner) (text : String) (h : i.names.lookup text = none) : Interner where
  texts := i.texts.push text
  names := (text, ⟨i.texts.size⟩) :: i.names
  inverse := inverse_push text i.inverse h
  fixed l t hl := getElem?_push_of_eq_some text (i.fixed l t hl)

/-- The names of the fixed texts, the last one first. -/
def fixedNames : List (String × Name) :=
  [("ordinal", .ordinal), ("name", .name), ("base", .base), ("this", .this), ("", .empty)]

/-- An interner that holds only the fixed names. -/
def new : Interner where
  texts := fixedTexts
  names := fixedNames
  inverse := by
    have hnone : ∀ t n, ([] : List (String × Name)).lookup t = some n ↔
        (#[] : Array String)[n.index]? = some t := by simp
    have hempty := inverse_push "" hnone rfl
    have hthis := inverse_push "this" hempty rfl
    have hbase := inverse_push "base" hthis rfl
    have hname := inverse_push "name" hbase rfl
    exact inverse_push "ordinal" hname rfl
  fixed _ _ h := h

instance : Inhabited Interner := ⟨new⟩

/-- The number of texts interned. -/
def size (i : Interner) : Nat := i.texts.size

/-- The name of a text that was interned before. -/
def get? (i : Interner) (text : String) : Option Name := i.names.lookup text

/-- The text of a name; a name of another interner may have none and reads as empty. -/
def text (i : Interner) (n : Name) : String :=
  (i.texts[n.index]?).getD ""

/-- Interns a text: its name, and the interner that knows it. -/
def intern (i : Interner) (text : String) : Name × Interner :=
  match h : i.get? text with
  | some n => (n, i)
  | none => (⟨i.texts.size⟩, i.add text h)

section

variable {i : Interner} {text : String} {n : Name}

/-- A text has a name exactly if it stands there. -/
theorem get?_eq_some_iff : i.get? text = some n ↔ i.texts[n.index]? = some text := i.inverse text n

theorem intern_of_get? (h : i.get? text = some n) : i.intern text = (n, i) := by
  unfold intern
  split
  next m hm => rw [Option.some.inj (hm.symm.trans h)]
  next hnone => cases hnone.symm.trans h

theorem intern_of_none (h : i.get? text = none) :
    i.intern text = (⟨i.texts.size⟩, i.add text h) := by
  unfold intern
  split
  next m hm => cases hm.symm.trans h
  next => rfl

end

end Interner

/-- What a parser is told of names: their texts, and which of them belong to the language. -/
class Naming (ν : Type) where
  text : ν → String
  isReserved : ν → Bool

/-- The names of an interner. -/
@[reducible] def Interner.naming (i : Interner) : Naming Name where
  text := i.text
  isReserved := Name.isReserved

end IslandScript
