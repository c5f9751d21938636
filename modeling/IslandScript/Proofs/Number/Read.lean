import Mathlib.Data.List.TakeWhile
import IslandScript.Number.Read

/-!
# Texts that are no numbers

Only digits and letters, a point and signs stand in the text of a number, and no decimal ends with the
marker of its exponent. Both are about the texts that the readers of numbers refuse.
-/

namespace IslandScript.Number

/-- Whether a character may stand in the text of a number. -/
def isNumeral (x : Char) : Bool :=
  (digitValue? x).isSome || x == '.' || x == '+' || x == '-'

theorem isNumeral_of_digitValue? {x : Char} {d : Nat} (h : digitValue? x = some d) :
    isNumeral x = true := by
  simp [isNumeral, h]

theorem isNumeral_of_isDigit {x : Char} (h : x.isDigit = true) : isNumeral x = true :=
  isNumeral_of_digitValue? (if_pos h)

/-! ## Digits -/

theorem isNumeral_of_readDigits {radix value n : Nat} {cs : List Char}
    (h : readDigits radix value cs = some n) : ∀ x ∈ cs, isNumeral x = true := by
  induction cs generalizing value with
  | nil => exact fun x hx => nomatch hx
  | cons c cs ih =>
      rw [readDigits] at h
      cases hc : digitValue? c with
      | none => simp [hc] at h
      | some d =>
          simp only [hc] at h
          split at h
          next =>
            intro x hx
            rcases List.mem_cons.mp hx with rfl | hx
            · exact isNumeral_of_digitValue? hc
            · exact ih h x hx
          next => cases h

theorem isNumeral_of_readNat? {radix n : Nat} {cs : List Char}
    (h : readNat? radix cs = some n) : ∀ x ∈ cs, isNumeral x = true := by
  unfold readNat? at h
  split at h
  next => cases h
  next => exact isNumeral_of_readDigits h

/-- Digits below a radix are read up to a character that is none. -/
theorem readDigits_append_eq_none {radix : Nat} {c : Char}
    (hc : ∀ d, digitValue? c = some d → radix ≤ d) (value : Nat) (cs : List Char) :
    readDigits radix value (cs ++ [c]) = none := by
  induction cs generalizing value with
  | nil =>
      rw [List.nil_append, readDigits]
      cases hd : digitValue? c with
      | none => rfl
      | some d => exact if_neg (Nat.not_lt.mpr (hc d hd))
  | cons x cs ih =>
      rw [List.cons_append, readDigits]
      cases digitValue? x with
      | none => rfl
      | some d =>
          dsimp only
          split
          next => exact ih _
          next => rfl

theorem readNat?_append_eq_none {radix : Nat} {c : Char}
    (hc : ∀ d, digitValue? c = some d → radix ≤ d) (cs : List Char) :
    readNat? radix (cs ++ [c]) = none := by
  unfold readNat?
  rw [readDigits_append_eq_none hc, ite_self]

/-! ## Integers with a radix -/

/-- A sign in front of digits makes no other text of a number. -/
theorem isNumeral_cons {sign : Char} {digits : List Char} {radix n : Nat}
    (hsign : isNumeral sign = true) (h : readNat? radix digits = some n) :
    ∀ x ∈ sign :: digits, isNumeral x = true := by
  intro x hx
  rcases List.mem_cons.mp hx with rfl | hx
  · exact hsign
  · exact isNumeral_of_readNat? h x hx

theorem isNumeral_of_readInt64? {radix : Nat} {n : Int} {cs : List Char}
    (h : readInt64? radix cs = some n) : ∀ x ∈ cs, isNumeral x = true := by
  unfold readInt64? at h
  have hvalue := (Option.filter_eq_some_iff.mp h).1
  split at hvalue
  · obtain ⟨m, hm, -⟩ := Option.map_eq_some_iff.mp hvalue
    obtain ⟨d, hd, -⟩ := Option.bind_eq_some_iff.mp hm
    exact isNumeral_cons (by decide) hd
  · obtain ⟨m, hm, -⟩ := Option.map_eq_some_iff.mp hvalue
    exact isNumeral_cons (by decide) hm
  · obtain ⟨m, hm, -⟩ := Option.map_eq_some_iff.mp hvalue
    exact isNumeral_of_readNat? hm

/-! ## Decimals -/

/-- Whether a character marks an exponent. -/
def isMarker (x : Char) : Bool := x == 'e' || x == 'E'

theorem isDigit_eq_false_of_isMarker {x : Char} (h : isMarker x = true) : x.isDigit = false := by
  rw [isMarker, Bool.or_eq_true, beq_iff_eq, beq_iff_eq] at h
  rcases h with rfl | rfl <;> rfl

theorem digitValue?_of_isMarker {x : Char} (h : isMarker x = true) : digitValue? x = some 14 := by
  rw [isMarker, Bool.or_eq_true, beq_iff_eq, beq_iff_eq] at h
  rcases h with rfl | rfl <;> rfl

theorem isNumeral_of_readExponent? {n : Int} {cs : List Char} (h : readExponent? cs = some n) :
    ∀ x ∈ cs, isNumeral x = true := by
  unfold readExponent? at h
  split at h
  next => exact fun x hx => nomatch hx
  next marker cs =>
    split at h
    next hmarker =>
      have hrest : ∀ x ∈ cs, isNumeral x = true := by
        split at h
        · obtain ⟨m, hm, -⟩ := Option.map_eq_some_iff.mp h
          obtain ⟨d, hd, -⟩ := Option.bind_eq_some_iff.mp hm
          exact isNumeral_cons (by decide) hd
        · obtain ⟨m, hm, -⟩ := Option.map_eq_some_iff.mp h
          exact isNumeral_cons (by decide) hm
        · obtain ⟨m, hm, -⟩ := Option.map_eq_some_iff.mp h
          exact isNumeral_of_readNat? hm
      intro x hx
      rcases List.mem_cons.mp hx with rfl | hx
      · exact isNumeral_of_digitValue? (digitValue?_of_isMarker hmarker)
      · exact hrest x hx
    next => cases h

/-- A text that ends with a marker and starts with another character ends with it behind that. -/
theorem exists_append_of_cons_eq {marker x : Char} {cs ds : List Char} (hx : x ≠ marker)
    (h : cs ++ [marker] = x :: ds) : ∃ more, ds = more ++ [marker] := by
  cases cs with
  | nil =>
      rw [List.nil_append, List.cons.injEq] at h
      exact absurd h.1.symm hx
  | cons y ys => exact ⟨ys, (List.cons.inj h).2.symm⟩

/-- An exponent does not end with a marker: behind one there are digits. -/
theorem readExponent?_append_eq_none {marker : Char} (h : isMarker marker = true)
    (cs : List Char) : readExponent? (cs ++ [marker]) = none := by
  have hne {x : Char} (hx : isMarker x = false) : x ≠ marker := by
    rintro rfl
    exact absurd h (by rw [hx]; decide)
  have hdigits : ∀ ds, readNat? 10 (ds ++ [marker]) = none := by
    apply readNat?_append_eq_none
    intro d hd
    rw [digitValue?_of_isMarker h] at hd
    cases hd
    decide
  cases cs with
  | nil =>
      unfold readExponent?
      exact ite_self _
  | cons x cs =>
      unfold readExponent?
      rw [List.cons_append]
      dsimp only
      split
      next =>
        split
        next ds hds =>
          obtain ⟨more, rfl⟩ := exists_append_of_cons_eq (hne (by decide)) hds
          rw [hdigits]
          rfl
        next ds hds =>
          obtain ⟨more, rfl⟩ := exists_append_of_cons_eq (hne (by decide)) hds
          rw [hdigits]
          rfl
        next =>
          rw [hdigits]
          rfl
      next => rfl

/-- What stands behind the digits of a decimal that ends with a marker ends with it. -/
theorem dropWhile_isDigit_append {marker : Char} (h : isMarker marker = true) (cs : List Char) :
    (cs ++ [marker]).dropWhile Char.isDigit = cs.dropWhile Char.isDigit ++ [marker] := by
  rw [List.dropWhile_append]
  split
  next hempty =>
    rw [List.isEmpty_iff] at hempty
    rw [hempty, List.nil_append, List.dropWhile_cons_of_neg]
    simp [isDigit_eq_false_of_isMarker h]
  next => rfl

/-- What stands behind the whole digits of a decimal: the digits of its fraction, and what is behind
these. -/
def splitFraction (rest : List Char) : List Char × List Char :=
  match rest with
  | '.' :: rest => (rest.takeWhile Char.isDigit, rest.dropWhile Char.isDigit)
  | rest => ([], rest)

theorem readDecimal?_eq (cs : List Char) :
    readDecimal? cs =
      match readNat? 10 (cs.takeWhile Char.isDigit ++ (splitFraction (cs.dropWhile Char.isDigit)).1),
        readExponent? (splitFraction (cs.dropWhile Char.isDigit)).2 with
      | some digits, some exponent =>
        some (ofDecimal digits (exponent - (splitFraction (cs.dropWhile Char.isDigit)).1.length))
      | _, _ => none := rfl

/-- A decimal does not end with the marker of an exponent. -/
theorem readDecimal?_append_eq_none {marker : Char} (h : isMarker marker = true)
    (cs : List Char) : readDecimal? (cs ++ [marker]) = none := by
  have hend : ∃ ds, (splitFraction ((cs ++ [marker]).dropWhile Char.isDigit)).2 =
      ds ++ [marker] := by
    rw [dropWhile_isDigit_append h]
    unfold splitFraction
    split
    next more hmore =>
      have hpoint : '.' ≠ marker := by
        rintro rfl
        exact absurd h (by decide)
      obtain ⟨ds, rfl⟩ := exists_append_of_cons_eq hpoint hmore
      exact ⟨_, dropWhile_isDigit_append h ds⟩
    next => exact ⟨_, rfl⟩
  obtain ⟨ds, hds⟩ := hend
  rw [readDecimal?_eq, hds, readExponent?_append_eq_none h]
  split
  next hnone => cases hnone
  next => rfl

theorem isNumeral_of_dropWhile {cs : List Char}
    (h : ∀ x ∈ cs.dropWhile Char.isDigit, isNumeral x = true) :
    ∀ x ∈ cs, isNumeral x = true := by
  intro x hx
  rw [← List.takeWhile_append_dropWhile (p := Char.isDigit) (l := cs), List.mem_append] at hx
  rcases hx with hx | hx
  · exact isNumeral_of_isDigit (List.mem_takeWhile_imp hx)
  · exact h x hx

theorem isNumeral_of_readDecimal? {n : Float} {cs : List Char} (h : readDecimal? cs = some n) :
    ∀ x ∈ cs, isNumeral x = true := by
  rw [readDecimal?_eq] at h
  apply isNumeral_of_dropWhile
  split at h
  next digits exponent hdigits hexponent =>
    have hrest := isNumeral_of_readExponent? hexponent
    unfold splitFraction at hrest
    split at hrest
    next more hmore =>
      intro x hx
      rw [hmore] at hx
      rcases List.mem_cons.mp hx with rfl | hx
      · decide
      · exact isNumeral_of_dropWhile hrest x hx
    next => exact hrest
  next => cases h

end IslandScript.Number
