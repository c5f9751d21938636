import IslandScript.Value.Operator

/-!
# The operand at fault

An infix operator has a use for left operands of some kinds. One that it has no use for is at fault
whatever stands on the right; with any other there is a right operand that gives a result, so it is the
right one that is at fault where there is none. This is shown of each table of operators by itself
(`Judges`), and what it says of blame follows for all of them.
-/

namespace IslandScript

/-- An operation with two operands blames the left one exactly if it has no use for it, and has a result for
every left operand that it has a use for. -/
structure Judges (f : Value → Value → Except Side Value) (useful : Value → Prop) : Prop where
  refuses : ∀ v w, ¬useful v → f v w = .error .left
  keeps : ∀ v w, useful v → f v w ≠ .error .left
  succeeds : ∀ v, useful v → ∃ w r, f v w = .ok r

namespace Judges

variable {f : Value → Value → Except Side Value} {useful : Value → Prop}

/-- The left operand is at fault with one right operand if it is with all of them, if none gives a result,
and if it is of no use. -/
theorem left_iff (h : Judges f useful) (v : Value) :
    ((∃ w, f v w = .error .left) ↔ ∀ w, f v w = .error .left) ∧
      ((∃ w, f v w = .error .left) ↔ ∀ w r, f v w ≠ .ok r) ∧
      ((∃ w, f v w = .error .left) ↔ ¬useful v) := by
  by_cases hv : useful v
  · obtain ⟨w, r, hresult⟩ := h.succeeds v hv
    have hnever : ¬∃ w, f v w = .error .left := fun ⟨w, hw⟩ => h.keeps v w hv hw
    refine ⟨iff_of_false hnever fun hall => hnever ⟨w, hall w⟩,
      iff_of_false hnever fun hnone => hnone w r hresult, iff_of_false hnever (not_not_intro hv)⟩
  · have hall := fun w => h.refuses v w hv
    have hsome : ∃ w, f v w = .error .left := ⟨.unit, hall .unit⟩
    refine ⟨iff_of_true hsome hall, iff_of_true hsome fun w r hr => ?_, iff_of_true hsome hv⟩
    rw [hall w] at hr
    cases hr

/-- The right operand is at fault if there is no result, and another right operand would give one. -/
theorem right_iff (h : Judges f useful) (v w : Value) :
    f v w = .error .right ↔ (∀ r, f v w ≠ .ok r) ∧ ∃ w' r, f v w' = .ok r := by
  constructor
  · intro hright
    by_cases hv : useful v
    · refine ⟨fun r hr => ?_, h.succeeds v hv⟩
      rw [hright] at hr
      cases hr
    · rw [h.refuses v w hv] at hright
      cases hright
  · rintro ⟨hnone, w', r, hresult⟩
    have hv : useful v := by
      refine Classical.byContradiction fun hv => ?_
      rw [h.refuses v w' hv] at hresult
      cases hresult
    match hw : f v w with
    | .ok r => exact absurd hw (hnone r)
    | .error .left => exact absurd hw (h.keeps v w hv)
    | .error .right => rfl

end Judges

/-! ## The tables of operators -/

/-- Logic has a use for booleans, arithmetic for numbers. -/
def Value.IsBool (v : Value) : Prop := ∃ b, v = .bool b

def Value.IsNumber (v : Value) : Prop := ∃ n, v = .number n

/-- Comparisons, sums and products have a use for numbers and strings. -/
def Value.IsNumberOrString (v : Value) : Prop := v.IsNumber ∨ ∃ s, v = .string s

namespace BinaryOp

theorem judges_logic (g : Bool → Bool → Bool) : Judges (logic g) Value.IsBool where
  refuses v w hv := by
    cases v with
    | bool b => exact absurd ⟨b, rfl⟩ hv
    | _ => rfl
  keeps := by
    rintro _ w ⟨b, rfl⟩
    cases w <;> exact nofun
  succeeds := by
    rintro _ ⟨b, rfl⟩
    exact ⟨.bool b, _, rfl⟩

theorem judges_arithmetic (g : Float → Float → Float) : Judges (arithmetic g) Value.IsNumber where
  refuses v w hv := by
    cases v with
    | number n => exact absurd ⟨n, rfl⟩ hv
    | _ => rfl
  keeps := by
    rintro _ w ⟨n, rfl⟩
    cases w <;> exact nofun
  succeeds := by
    rintro _ ⟨n, rfl⟩
    exact ⟨.number n, _, rfl⟩

theorem judges_comparison (onNumbers : Float → Float → Bool) (onStrings : String → String → Bool) :
    Judges (comparison onNumbers onStrings) Value.IsNumberOrString where
  refuses v w hv := by
    cases v with
    | number n => exact absurd (.inl ⟨n, rfl⟩) hv
    | string s => exact absurd (.inr ⟨s, rfl⟩) hv
    | _ => rfl
  keeps := by
    rintro _ w (⟨n, rfl⟩ | ⟨s, rfl⟩) <;> cases w <;> exact nofun
  succeeds := by
    rintro _ (⟨n, rfl⟩ | ⟨s, rfl⟩)
    · exact ⟨.number n, _, rfl⟩
    · exact ⟨.string s, _, rfl⟩

theorem judges_sum : Judges sum Value.IsNumberOrString where
  refuses v w hv := by
    cases v with
    | number n => exact absurd (.inl ⟨n, rfl⟩) hv
    | string s => exact absurd (.inr ⟨s, rfl⟩) hv
    | _ => rfl
  keeps := by
    rintro _ w (⟨n, rfl⟩ | ⟨s, rfl⟩) <;> cases w <;> exact nofun
  succeeds := by
    rintro _ (⟨n, rfl⟩ | ⟨s, rfl⟩)
    · exact ⟨.number n, _, rfl⟩
    · exact ⟨.string s, _, rfl⟩

theorem repeatCount_zero : repeatCount 0 = 0 := by
  have hshape : Number.Shape.of 0 = .finite false 0 (-1074) := by decide
  have hwhole : Number.wholePart 0 (-1074) = 0 := Nat.zero_div _
  unfold repeatCount Number.truncateTo
  rw [hshape]
  dsimp only
  rw [hwhole]
  rfl

theorem product_string_number (s : String) (n : Float) :
    product (.string s) (.number n) =
      if s.utf8ByteSize * repeatCount n ≤ maxRepeatedBytes then
        .ok (.string (Text.times s (repeatCount n)))
      else .error .right := rfl

/-- Not every number of repetitions is accepted, but none at all is, of a string of any length. -/
theorem judges_product : Judges product Value.IsNumberOrString where
  refuses v w hv := by
    cases v with
    | number n => exact absurd (.inl ⟨n, rfl⟩) hv
    | string s => exact absurd (.inr ⟨s, rfl⟩) hv
    | _ => rfl
  keeps := by
    rintro _ w (⟨n, rfl⟩ | ⟨s, rfl⟩)
    · cases w <;> exact nofun
    · cases w with
      | number n =>
          rw [product_string_number]
          split <;> exact nofun
      | _ => exact nofun
  succeeds := by
    rintro _ (⟨n, rfl⟩ | ⟨s, rfl⟩)
    · exact ⟨.number n, _, rfl⟩
    · refine ⟨.number 0, .string (Text.times s 0), ?_⟩
      rw [product_string_number, repeatCount_zero, Nat.mul_zero, if_pos (Nat.zero_le _)]

/-- The left operands that an operator has a use for. -/
def Uses : BinaryOp → Value → Prop
  | or | and => Value.IsBool
  | equal | notEqual => fun _ => True
  | less | lessEqual | greater | greaterEqual => Value.IsNumberOrString
  | add | multiply => Value.IsNumberOrString
  | subtract | divide | modulus => Value.IsNumber

theorem judges_apply (ts : Tables) (op : BinaryOp) : Judges (op.apply ts) op.Uses := by
  cases op with
  | or => exact judges_logic _
  | and => exact judges_logic _
  | equal => exact ⟨fun _ _ hv => absurd trivial hv, fun _ _ _ => nofun, fun v _ => ⟨v, _, rfl⟩⟩
  | notEqual => exact ⟨fun _ _ hv => absurd trivial hv, fun _ _ _ => nofun, fun v _ => ⟨v, _, rfl⟩⟩
  | less => exact judges_comparison _ _
  | lessEqual => exact judges_comparison _ _
  | greater => exact judges_comparison _ _
  | greaterEqual => exact judges_comparison _ _
  | add => exact judges_sum
  | multiply => exact judges_product
  | subtract => exact judges_arithmetic _
  | divide => exact judges_arithmetic _
  | modulus => exact judges_arithmetic _

/-- **The operand at fault is blamed.** An operator blames a left operand with one right operand exactly if
it does with every one, and exactly if no right operand gives a result: these are the left operands that it
has no use for. It blames a right operand exactly if there is no result, and another right operand would
give one with that left operand. -/
theorem operand_blamed (ts : Tables) (op : BinaryOp) (v : Value) :
    ((∃ w, op.apply ts v w = .error .left) ↔ ∀ w, op.apply ts v w = .error .left) ∧
      ((∃ w, op.apply ts v w = .error .left) ↔ ∀ w r, op.apply ts v w ≠ .ok r) ∧
      ((∃ w, op.apply ts v w = .error .left) ↔ ¬op.Uses v) ∧
      ∀ w, op.apply ts v w = .error .right ↔
        (∀ r, op.apply ts v w ≠ .ok r) ∧ ∃ w' r, op.apply ts v w' = .ok r := by
  have hjudges := judges_apply ts op
  obtain ⟨hall, hnone, huses⟩ := hjudges.left_iff v
  exact ⟨hall, hnone, huses, hjudges.right_iff v⟩

end BinaryOp
end IslandScript
