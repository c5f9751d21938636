import Mathlib

/-!
# Comparing numbers

Numbers are compared by value. A number that is not a number equals nothing, itself included, and
the two zeros are equal; apart from that two numbers are equal only if they are the same. So the
comparison is symmetric and transitive, and reflexive wherever there is a number to compare.

The order of two numbers is that of the two the other way round, turned over. So two tests of it, made in
different places, do not contradict each other.
-/

namespace IslandScript.Number

open Float.Model

/-- A number taken apart, without the sign of a zero. -/
def unsignedZero : UnpackedFloat → UnpackedFloat
  | .zero _ => .zero .positive
  | u => u

/-- Numbers taken apart are equal if there is a number, and the same one but for the sign of a
zero. -/
theorem unpacked_beq_iff (u v : UnpackedFloat) :
    u.beq v = true ↔ u ≠ .notANumber ∧ unsignedZero u = unsignedZero v := by
  cases u with
  | notANumber => simp [UnpackedFloat.beq, UnpackedFloat.compare]
  | infinity s =>
      cases v with
      | infinity s' =>
          have hs : compare s s' = .eq ↔ s = s' := by
            cases s <;> cases s' <;> simp [compare]
          simp [UnpackedFloat.beq, UnpackedFloat.compare, unsignedZero, hs]
      | _ => cases s <;> simp [UnpackedFloat.beq, UnpackedFloat.compare, unsignedZero]
  | zero s =>
      cases v with
      | finite s' _ _ _ =>
          cases s' <;> simp [UnpackedFloat.beq, UnpackedFloat.compare, unsignedZero]
      | infinity s' => cases s' <;> simp [UnpackedFloat.beq, UnpackedFloat.compare, unsignedZero]
      | _ => simp [UnpackedFloat.beq, UnpackedFloat.compare, unsignedZero]
  | finite s m e _ =>
      cases v with
      | finite s' m' e' _ =>
          cases s <;> cases s' <;>
            simp [UnpackedFloat.beq, UnpackedFloat.compare, unsignedZero, Ordering.swap_eq_eq,
              Ordering.then_eq_eq, and_comm]
      | infinity s' =>
          cases s <;> cases s' <;> simp [UnpackedFloat.beq, UnpackedFloat.compare, unsignedZero]
      | _ => cases s <;> simp [UnpackedFloat.beq, UnpackedFloat.compare, unsignedZero]

/-- What two equal numbers have in common. -/
def magnitude (n : Float) : UnpackedFloat := unsignedZero n.toModel.unpack

theorem isNaN_eq_false_iff (n : Float) : n.isNaN = false ↔ n.toModel.unpack ≠ .notANumber := by
  change n.toModel.unpack.isNaN = false ↔ _
  cases n.toModel.unpack <;> simp [UnpackedFloat.isNaN]

theorem beq_iff (m n : Float) : (m == n) = true ↔ m.isNaN = false ∧ magnitude m = magnitude n := by
  rw [isNaN_eq_false_iff]
  exact unpacked_beq_iff _ _

theorem beq_self {n : Float} (h : n.isNaN = false) : (n == n) = true :=
  (beq_iff n n).mpr ⟨h, rfl⟩

/-- A number that has the same magnitude as a number is one. -/
theorem isNaN_eq_false_of_beq {m n : Float} (h : (m == n) = true) : n.isNaN = false := by
  obtain ⟨hm, hmag⟩ := (beq_iff m n).mp h
  rw [isNaN_eq_false_iff] at hm ⊢
  intro hn
  apply hm
  unfold magnitude at hmag
  rw [hn] at hmag
  cases hu : m.toModel.unpack <;> simp_all [unsignedZero]

theorem beq_symm {m n : Float} (h : (m == n) = true) : (n == m) = true :=
  (beq_iff n m).mpr ⟨isNaN_eq_false_of_beq h, ((beq_iff m n).mp h).2.symm⟩

theorem beq_trans {k m n : Float} (hkm : (k == m) = true) (hmn : (m == n) = true) :
    (k == n) = true := by
  obtain ⟨hk, hkm⟩ := (beq_iff k m).mp hkm
  obtain ⟨-, hmn⟩ := (beq_iff m n).mp hmn
  exact (beq_iff k n).mpr ⟨hk, hkm.trans hmn⟩

/-! ## Order -/

/-- Magnitudes are compared by exponent first. -/
theorem magnitudes_compare_swap (m n : Nat) (e f : Int) :
    (compare f e).then (compare n m) = ((compare e f).then (compare m n)).swap := by
  rw [Ordering.swap_then, ← Std.OrientedOrd.eq_swap, ← Std.OrientedOrd.eq_swap]

/-- Numbers taken apart, compared the other way round, give the answer turned over. -/
theorem unpacked_compare_swap (u v : UnpackedFloat) : v.compare u = (u.compare v).map Ordering.swap := by
  cases u with
  | notANumber => cases v <;> rfl
  | infinity s =>
      cases v with
      | infinity s' => cases s <;> cases s' <;> rfl
      | _ => cases s <;> rfl
  | zero s =>
      cases v with
      | infinity s' => cases s' <;> rfl
      | finite s' _ _ _ => cases s' <;> rfl
      | _ => rfl
  | finite s m e _ =>
      cases v with
      | infinity s' => cases s <;> cases s' <;> rfl
      | finite s' m' e' _ =>
          have hmagnitudes := magnitudes_compare_swap m m' e e'
          cases s <;> cases s'
          case negative.negative => exact congrArg (some ∘ Ordering.swap) hmagnitudes
          case positive.positive => exact congrArg some hmagnitudes
          all_goals rfl
      | _ => cases s <;> rfl

/-- A number is not both at most another and greater. -/
theorem not_lt_of_le {a b : Float} (h : a ≤ b) : ¬b < a := by
  have hle : (a.toModel.unpack.compare b.toModel.unpack).any (·.isLE) = true := of_decide_eq_true h
  intro hlt
  have hgt : (b.toModel.unpack.compare a.toModel.unpack == some .lt) = true := of_decide_eq_true hlt
  rw [unpacked_compare_swap, beq_iff_eq] at hgt
  cases hcompare : a.toModel.unpack.compare b.toModel.unpack with
  | none =>
      rw [hcompare] at hle
      cases hle
  | some order =>
      rw [hcompare] at hle hgt
      obtain rfl : order = .gt := Ordering.swap_eq_lt.mp (Option.some_inj.mp hgt)
      cases hle

end IslandScript.Number
