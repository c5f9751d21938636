import IslandScript.Command.Characters
import IslandScript.Proofs.Lexer.Spelling
import IslandScript.Proofs.Lexer.Written

/-!
# Number literals

What a number is read from and what it comes to, in terms of the digits and their values. Behind the
marker of a binary or hexadecimal number stands the longest run of its digits and underscores, and the
number is what the digits make up. As the first character behind the marker is taken whatever it is, and
the reader of integers allows a sign, one sign may stand between the marker and the run. A point behind
the digits of a decimal belongs to the number if a digit comes next, and an underscore counts as one.
-/

namespace IslandScript.Lexer

/-! ## Numbers with a radix -/

/-- The radices that have a marker. -/
inductive Radix where
  | binary
  | hexadecimal

namespace Radix

def base : Radix → Nat
  | binary => 2
  | hexadecimal => 16

/-- The characters that a number of the radix starts with. -/
def marker : Radix → List Char
  | binary => ['0', 'b']
  | hexadecimal => ['0', 'x']

/-- Whether a character is one of the digits or an underscore between them. -/
def isPart : Radix → Char → Bool
  | binary => isBinaryPart
  | hexadecimal => isHexPart

/-- The character is a digit of some value. -/
def Digit (r : Radix) (x : Char) (d : Nat) : Prop := d < r.base ∧ HexDigit x d

instance (r : Radix) (x : Char) (d : Nat) : Decidable (r.Digit x d) :=
  inferInstanceAs (Decidable (_ ∧ _))

/-- The digits of a run, of which there is at least one, make up a number. -/
def Spells (r : Radix) (run : List Char) (n : Nat) : Prop :=
  ∃ values, values ≠ [] ∧ List.Forall₂ r.Digit (withoutUnderscores run) values ∧
    Nat.ofDigits r.base values.reverse = n

end Radix

/-- What may stand between the marker and the digits. -/
inductive Sign where
  | none
  | plus
  | minus

namespace Sign

def chars : Sign → List Char
  | none => []
  | plus => ['+']
  | minus => ['-']

/-- The integer of a magnitude. -/
def apply : Sign → Nat → Int
  | none, n => n
  | plus, n => n
  | minus, n => -n

/-- Whether the integer of a magnitude is one of 64 bits. -/
def Fits : Sign → Nat → Prop
  | none, n => n < 2 ^ 63
  | plus, n => n < 2 ^ 63
  | minus, n => n ≤ 2 ^ 63

/-- The sign that a text starts with. -/
def of : List Char → Sign
  | '+' :: _ => plus
  | '-' :: _ => minus
  | _ => none

end Sign

/-- The digits of a number, behind a sign if there is one. -/
def Radix.run (r : Radix) (rest : List Char) : List Char :=
  (rest.drop (Sign.of rest).chars.length).takeWhile r.isPart

/-- What is taken behind a marker: one character, whatever it is, and the digits behind it. -/
def Radix.taken (r : Radix) (rest : List Char) : List Char :=
  rest.take 1 ++ (rest.drop 1).takeWhile r.isPart

/-! ### Digits -/

section

variable {r : Radix} {digits rest cs : List Char} {n : Nat} {i : Int}

theorem Radix.base_le (r : Radix) : r.base ≤ 16 := by
  cases r <;> decide

theorem Radix.isPart_eq (r : Radix) (x : Char) :
    r.isPart x = true ↔ x = '_' ∨ ∃ d, r.Digit x d := by
  cases r with
  | binary =>
      have hdigit : (∃ d, Radix.binary.Digit x d) ↔ x = '0' ∨ x = '1' := by
        constructor
        · rintro ⟨d, hd, -, hx⟩
          have htable : ∀ d < 2, d.digitChar.toUpper = d.digitChar ∧
              (d.digitChar = '0' ∨ d.digitChar = '1') := by decide
          obtain ⟨hupper, hone⟩ := htable d hd
          rw [hupper, or_self] at hx
          rwa [hx]
        · rintro (rfl | rfl)
          · exact ⟨0, by decide⟩
          · exact ⟨1, by decide⟩
      rw [hdigit]
      simp only [Radix.isPart, isBinaryPart, Bool.or_eq_true, beq_iff_eq]
      tauto
  | hexadecimal =>
      have hdigit : (∃ d, Radix.hexadecimal.Digit x d) ↔ Number.isHexDigit x = true := by
        constructor
        · rintro ⟨d, -, hd⟩
          exact hd.read.1
        · intro hx
          obtain ⟨d, hd, -⟩ := exists_hexDigit hx
          exact ⟨d, hd.1, hd⟩
      rw [hdigit]
      simp only [Radix.isPart, isHexPart, Bool.or_eq_true, beq_iff_eq]
      exact or_comm

/-- The digits of a radix are the characters that are read with a value below its base. -/
theorem Radix.digit_iff {x : Char} {d : Nat} :
    r.Digit x d ↔ Number.digitValue? x = some d ∧ d < r.base := by
  constructor
  · rintro ⟨hbase, hd⟩
    exact ⟨hd.read.2, hbase⟩
  · rintro ⟨hvalue, hbase⟩
    -- a character with a value below sixteen is ASCII, so these can be looked at one by one
    have htable : ∀ n < 128, ∀ d < 16, Number.digitValue? (Char.ofNat n) = some d →
        HexDigit (Char.ofNat n) d := by decide
    have hx := htable x.toNat (toNat_lt_of_digitValue? hvalue) d (Nat.lt_of_lt_of_le hbase r.base_le)
    rw [Char.ofNat_toNat] at hx
    exact ⟨hbase, hx hvalue⟩

/-- What is read as a natural number is a run of digits that make it up. -/
theorem readNat?_eq_some :
    Number.readNat? r.base (withoutUnderscores cs) = some n ↔ r.Spells cs n := by
  have hdigit : (fun x d => Number.digitValue? x = some d ∧ d < r.base) = r.Digit :=
    funext fun _ => funext fun _ => propext Radix.digit_iff.symm
  rw [readNat?_eq_some_iff, hdigit]
  exact Iff.rfl

/-! ### Signs -/

/-- Whether an integer is one of 64 bits. -/
def isInt64 (i : Int) : Bool := -(Number.twoPow 63 : Int) ≤ i && i < (Number.twoPow 63 : Int)

theorem isInt64_apply (sign : Sign) (n : Nat) : isInt64 (sign.apply n) = true ↔ sign.Fits n := by
  have hpow : Number.twoPow 63 = 2 ^ 63 := rfl
  rw [isInt64, Bool.and_eq_true, decide_eq_true_iff, decide_eq_true_iff, hpow]
  cases sign <;> simp only [Sign.apply, Sign.Fits] <;> omega

/-- An integer is read from a natural number behind at most one sign. -/
theorem readInt64?_sign (radix : Nat) (sign : Sign)
    (hdigits : sign = .none → ∀ x ∈ digits.head?, x ≠ '+' ∧ x ≠ '-') :
    Number.readInt64? radix (sign.chars ++ digits) =
      ((Number.readNat? radix digits).map sign.apply).filter isInt64 := by
  unfold Number.readInt64?
  cases sign with
  | plus => rfl
  | minus =>
      have hcons : Sign.minus.chars ++ digits = '-' :: digits := rfl
      rw [hcons]
      cases h : Number.readNat? radix digits with
      | none => simp [h]
      | some n =>
          simp only [h]
          rfl
  | none =>
      dsimp only [Sign.chars, List.nil_append]
      split
      next => exact absurd rfl (hdigits rfl '-' rfl).2
      next => exact absurd rfl (hdigits rfl '+' rfl).1
      next => rfl

/-- No sign is a digit or an underscore, and no newline is. -/
theorem Radix.isPart_eq_false (r : Radix) :
    r.isPart '+' = false ∧ r.isPart '-' = false ∧ r.isPart '\n' = false := by
  cases r <;> decide

/-- The first character that is taken is the sign or the first digit, and then all that is taken is the
sign and the digits. Any other is no digit, and nothing is a digit of the number then. -/
theorem Radix.taken_cases (r : Radix) (rest : List Char) :
    r.taken rest = (Sign.of rest).chars ++ r.run rest ∧ (rest.drop 1).dropWhile r.isPart =
        (rest.drop (Sign.of rest).chars.length).dropWhile r.isPart ∨
      r.run rest = [] ∧ Sign.of rest = .none ∧ ∃ x digits, r.taken rest = x :: digits ∧
        r.isPart x = false ∧ x ≠ '+' ∧ x ≠ '-' := by
  unfold run taken
  cases rest with
  | nil => exact .inl ⟨rfl, rfl⟩
  | cons x more =>
      by_cases hplus : x = '+'
      · subst hplus
        exact .inl ⟨rfl, rfl⟩
      by_cases hminus : x = '-'
      · subst hminus
        exact .inl ⟨rfl, rfl⟩
      have hsign : Sign.of (x :: more) = .none := by
        unfold Sign.of
        split
        next h => exact absurd (List.cons.inj h).1 hplus
        next h => exact absurd (List.cons.inj h).1 hminus
        next => rfl
      rw [hsign]
      by_cases hpart : r.isPart x = true
      · exact .inl ⟨(List.takeWhile_cons_of_pos hpart).symm, (List.dropWhile_cons_of_pos hpart).symm⟩
      · exact .inr ⟨List.takeWhile_cons_of_neg hpart, rfl, x, _, rfl, Bool.not_eq_true _ ▸ hpart, hplus,
          hminus⟩

/-- The integer that a number comes to, if its digits make up one that fits. -/
def Radix.value? (r : Radix) (rest : List Char) : Option Int :=
  ((Number.readNat? r.base (withoutUnderscores (r.run rest))).map (Sign.of rest).apply).filter isInt64

theorem Radix.value?_eq_some : r.value? rest = some i ↔
    ∃ n, r.Spells (r.run rest) n ∧ (Sign.of rest).Fits n ∧ (Sign.of rest).apply n = i := by
  rw [Radix.value?, Option.filter_eq_some_iff, Option.map_eq_some_iff]
  simp only [readNat?_eq_some]
  constructor
  · rintro ⟨⟨n, hn, rfl⟩, hfits⟩
    exact ⟨n, hn, (isInt64_apply _ n).mp hfits, rfl⟩
  · rintro ⟨n, hn, hfits, rfl⟩
    exact ⟨⟨n, hn, rfl⟩, (isInt64_apply _ n).mpr hfits⟩

/-- What is taken behind a marker is read as the number that the digits behind the sign make up. -/
theorem readInt64?_taken (r : Radix) (rest : List Char) :
    Number.readInt64? r.base (withoutUnderscores (r.taken rest)) = r.value? rest := by
  unfold Radix.value?
  rcases r.taken_cases rest with ⟨htaken, -⟩ | ⟨hrun, hsign, x, digits, htaken, hpart, hplus, hminus⟩
  · have hunder : withoutUnderscores (r.taken rest) =
        (Sign.of rest).chars ++ withoutUnderscores (r.run rest) := by
      rw [htaken, withoutUnderscores, List.filter_append]
      congr 1
      cases Sign.of rest <;> rfl
    rw [hunder]
    refine readInt64?_sign r.base _ fun _ x hx => ?_
    have hpart : r.isPart x = true :=
      List.mem_takeWhile_imp (List.mem_of_mem_filter (List.mem_of_mem_head? hx))
    constructor
    · rintro rfl
      exact absurd hpart (by simp [r.isPart_eq_false])
    · rintro rfl
      exact absurd hpart (by simp [r.isPart_eq_false])
  · have hpart_ne (h : x = '_' ∨ ∃ d, r.Digit x d) : False := by
      rw [← r.isPart_eq, hpart] at h
      cases h
    have hunder : withoutUnderscores (r.taken rest) = x :: withoutUnderscores digits := by
      rw [htaken]
      exact List.filter_cons_of_pos (by simpa using fun hx => hpart_ne (.inl hx))
    have hnone : Number.readNat? r.base (x :: withoutUnderscores digits) = none := by
      rw [Option.eq_none_iff_forall_ne_some, ← hunder]
      rintro n hn
      obtain ⟨values, -, hvalues, -⟩ := readNat?_eq_some.mp hn
      rw [hunder] at hvalues
      cases hvalues with
      | cons hd => exact hpart_ne (.inr ⟨_, hd⟩)
    have hsign : Sign.none = .none →
        ∀ y ∈ (x :: withoutUnderscores digits).head?, y ≠ '+' ∧ y ≠ '-' := by
      intro _ y hy
      cases hy
      exact ⟨hplus, hminus⟩
    have hread := readInt64?_sign r.base .none hsign
    rw [hunder, hrun]
    refine hread.trans ?_
    rw [hnone]
    rfl

/-! ### Tokens -/

theorem Radix.notMem_newline_marker (r : Radix) : '\n' ∉ r.marker := by
  cases r <;> decide

theorem scanRadix_eq {c : Cursor} (r : Radix) (hrest : c.rest = r.marker ++ rest) :
    scanRadix c r.base r.isPart = numberToken c.here (r.marker ++ r.taken rest)
      ((Number.readInt64? r.base (withoutUnderscores (r.taken rest))).map Float.ofInt)
      (c.skipping (r.marker ++ r.taken rest) ((rest.drop 1).dropWhile r.isPart)) := by
  have hmarker : c.take 2 = (r.marker, c.skipping r.marker rest) := by
    have hlength : r.marker.length = 2 := by cases r <;> rfl
    rw [← hlength]
    exact Cursor.take_append hrest
  simp only [scanRadix, hmarker, Cursor.take_eq, Cursor.takeWhile_eq, Cursor.rest_skipping,
    Cursor.skipping_skipping, Radix.taken, List.append_assoc]

/-- What the lexer does at the marker of a number. -/
theorem scanNext_marker [Text.CharNames]
    {c : Cursor} (r : Radix) (hrest : c.rest = r.marker ++ rest) :
    scanNext c =
      match r.value? rest with
      | some i => .ok (.token
          ⟨c.spanOf (r.marker ++ r.taken rest), .value (.number (Float.ofInt i))⟩
          (c.skipping (r.marker ++ r.taken rest) ((rest.drop 1).dropWhile r.isPart)))
      | none => .error ⟨.invalidNumber (String.ofList (r.marker ++ r.taken rest)),
          c.spanOf (r.marker ++ r.taken rest)⟩ := by
  obtain ⟨x, hmarker⟩ : ∃ x, r.marker = ['0', x] := by cases r <;> exact ⟨_, rfl⟩
  have hcons : c.rest = '0' :: x :: rest := by rw [hrest, hmarker]; rfl
  have hskip : skipTrivia c.rest c = .ok c :=
    skipTrivia_eq hcons (by decide) (by decide) (fun h => absurd h (by decide))
  have hcurrent : c.current? = some '0' := by rw [Cursor.current?, hcons]; rfl
  have hkind : scanKind c '0' = scanRadix c r.base r.isPart := by
    cases r <;> simp [scanKind, scanNumber, Cursor.startsWith, hrest, Radix.marker, List.isPrefixOf] <;>
      rfl
  have hspan (v : List Char) : (c.skipping (r.marker ++ r.taken rest) v).spanFrom c.here =
      c.spanOf (r.marker ++ r.taken rest) :=
    Cursor.spanFrom_here (by simp [hmarker]) c v
  simp only [scanNext, hskip, hcurrent, hkind, scanRadix_eq r hrest, readInt64?_taken, numberToken]
  cases r.value? rest with
  | none => simp only [Option.map_none, hspan]
  | some i => simp only [Option.map_some, hspan]

/-- **Binary and hexadecimal numbers.** Wherever a token may start with `0b` or `0x`, let the digits be
the longest run of digits of the radix and underscores behind it, and behind a sign if one stands there.
If there is a digit and the integer they make up fits, the token covers the marker, the sign and the run,
and is this integer as a float. In all other cases the text is no number. Without a sign the integer fits
if it is below 2 ^ 63. -/
theorem scanNext_radix [Text.CharNames]
    {c : Cursor} (r : Radix) (hrest : c.rest = r.marker ++ rest) :
    (∀ n, r.Spells (r.run rest) n → (Sign.of rest).Fits n →
      scanNext c = .ok (.token
        ⟨⟨c.row, c.column, 2 + (Sign.of rest).chars.length + (r.run rest).length⟩,
          .value (.number (Float.ofInt ((Sign.of rest).apply n)))⟩
        ⟨c.row, c.column + (2 + (Sign.of rest).chars.length + (r.run rest).length),
          (rest.drop (Sign.of rest).chars.length).dropWhile r.isPart⟩)) ∧
    ((∀ n, r.Spells (r.run rest) n → ¬(Sign.of rest).Fits n) →
      scanNext c = .error ⟨.invalidNumber (String.ofList (r.marker ++ r.taken rest)),
        c.spanOf (r.marker ++ r.taken rest)⟩) := by
  constructor
  · intro n hn hfits
    have hvalue : r.value? rest = some ((Sign.of rest).apply n) :=
      Radix.value?_eq_some.mpr ⟨n, hn, hfits, rfl⟩
    obtain ⟨htaken, hbehind⟩ : r.taken rest = (Sign.of rest).chars ++ r.run rest ∧
        (rest.drop 1).dropWhile r.isPart =
          (rest.drop (Sign.of rest).chars.length).dropWhile r.isPart := by
      rcases r.taken_cases rest with h | ⟨hrun, -⟩
      · exact h
      · -- an empty run has no digits
        obtain ⟨values, hne, hvalues, -⟩ := hn
        rw [hrun] at hvalues
        cases hvalues
        exact absurd rfl hne
    have hbreak : '\n' ∉ r.marker ++ r.taken rest := by
      have hsign : '\n' ∉ (Sign.of rest).chars := by cases Sign.of rest <;> decide
      have hrun : '\n' ∉ r.run rest := fun h => by
        have hpart := List.mem_takeWhile_imp h
        rw [r.isPart_eq_false.2.2] at hpart
        cases hpart
      rw [htaken, List.mem_append, List.mem_append]
      exact fun h => h.elim r.notMem_newline_marker (·.elim hsign hrun)
    have hlength : (r.marker ++ r.taken rest).length =
        2 + (Sign.of rest).chars.length + (r.run rest).length := by
      rw [htaken, List.length_append, List.length_append, Nat.add_assoc]
      cases r <;> rfl
    rw [scanNext_marker r hrest, hvalue, hbehind, Cursor.skipping_of_notMem hbreak, Cursor.spanOf,
      if_neg hbreak, hlength]
  · intro hnone
    have hvalue : r.value? rest = none := by
      rw [Option.eq_none_iff_forall_ne_some]
      intro i hi
      obtain ⟨n, hn, hfits, -⟩ := Radix.value?_eq_some.mp hi
      exact hnone n hn hfits
    rw [scanNext_marker r hrest, hvalue]

attribute [local instance] Command.charNames

/-- The digits of `0x_fF` are read in either case, and the token ends before the first character that is
none of them. -/
theorem scanNext_radix_mixedCase :
    (['0', 'x', '_', 'f', 'F', '.', 'b'] : List Char) =
        Radix.hexadecimal.marker ++ ['_', 'f', 'F', '.', 'b'] ∧
      Radix.hexadecimal.Spells ['_', 'f', 'F'] 255 ∧
      scanNext ⟨2, 7, ['0', 'x', '_', 'f', 'F', '.', 'b']⟩ =
        .ok (.token ⟨⟨2, 7, 5⟩, .value (.number 255)⟩ ⟨2, 12, ['.', 'b']⟩) := by
  have hspells : Radix.hexadecimal.Spells ['_', 'f', 'F'] 255 :=
    ⟨[15, 15], by decide, by decide, by decide⟩
  have hfits : Sign.none.Fits 255 := show 255 < 2 ^ 63 by decide
  exact ⟨rfl, hspells, (scanNext_radix (c := ⟨2, 7, ['0', 'x', '_', 'f', 'F', '.', 'b']⟩) .hexadecimal
    rfl).1 255 hspells hfits⟩

/-- It is not so that only digits and underscores can make up the number: nothing of `0x+f` belongs to
the run that follows the marker, and it is the number fifteen. -/
theorem scanNext_radix_sign :
    ¬∀ (r : Radix) (c : Cursor) (rest : List Char), c.rest = r.marker ++ rest →
      ((∃ t next, scanNext c = .ok (.token t next)) →
        ∃ n, r.Spells (rest.takeWhile r.isPart) n ∧ n < 2 ^ 63) := by
  intro h
  have hscan : scanNext (Cursor.start "0x+f") =
      .ok (.token ⟨⟨1, 1, 4⟩, .value (.number 15)⟩ ⟨1, 5, []⟩) := rfl
  obtain ⟨n, ⟨values, hne, hvalues, -⟩, -⟩ := h .hexadecimal _ _ rfl ⟨_, _, hscan⟩
  cases hvalues
  exact hne rfl

end

/-! ## Decimals -/

section

variable {digits fraction u v : List Char}

theorem readDigits_of_isDigit (hdigits : ∀ x ∈ digits, x.isDigit = true) (value : Nat) :
    ∃ n, Number.readDigits 10 value digits = some n := by
  induction digits generalizing value with
  | nil => exact ⟨value, rfl⟩
  | cons x digits ih =>
      obtain ⟨hx, hdigits⟩ := List.forall_mem_cons.mp hdigits
      have hvalue : Number.digitValue? x = some (x.toNat - '0'.toNat) := if_pos hx
      have hten : x.toNat - '0'.toNat < 10 := by
        simp only [Char.isDigit, Bool.and_eq_true, decide_eq_true_eq, UInt32.le_iff_toNat_le] at hx
        have hlast : x.toNat ≤ 57 := hx.2
        have hzero : '0'.toNat = 48 := rfl
        omega
      rw [Number.readDigits, hvalue]
      simp only [if_pos hten]
      exact ih hdigits _

theorem withoutUnderscores_of_isDigit (hdigits : ∀ x ∈ digits, x.isDigit = true) :
    withoutUnderscores digits = digits := by
  refine List.filter_eq_self.mpr fun x hx => ?_
  rw [bne_iff_ne]
  rintro rfl
  exact absurd (hdigits _ hx) (by decide)

theorem isDigit_of_isDecimalPart (h : ∀ x ∈ fraction, isDecimalPart x = true) :
    ∀ x ∈ withoutUnderscores fraction, x.isDigit = true := by
  intro x hx
  obtain ⟨hmem, hne⟩ := List.mem_filter.mp hx
  have hpart := h x hmem
  rw [isDecimalPart, Bool.or_eq_true, beq_iff_eq] at hpart
  exact hpart.resolve_right (bne_iff_ne.mp hne)

/-- Digits are a decimal, and so they are with a point and digits behind them. -/
theorem exists_readDecimal? (hne : digits ≠ []) (hdigits : ∀ x ∈ digits, x.isDigit = true)
    (hfraction : ∀ x ∈ fraction, x.isDigit = true) :
    (∃ n, Number.readDecimal? digits = some n) ∧
      ∃ n, Number.readDecimal? (digits ++ '.' :: fraction) = some n := by
  have hread {more : List Char} (hmore : ∀ x ∈ more, x.isDigit = true) :
      ∃ n, Number.readNat? 10 (digits ++ more) = some n := by
    have hall : ∀ x ∈ digits ++ more, x.isDigit = true := List.forall_mem_append.mpr ⟨hdigits, hmore⟩
    obtain ⟨n, hn⟩ := readDigits_of_isDigit hall 0
    exact ⟨n, by simp [Number.readNat?, hne, hn]⟩
  have hrun (rest : List Char) (hrest : ∀ x ∈ rest.head?, x.isDigit = false) :
      (digits ++ rest).takeWhile Char.isDigit = digits ∧ (digits ++ rest).dropWhile Char.isDigit = rest := by
    rw [List.takeWhile_append_of_pos hdigits, List.dropWhile_append_of_pos hdigits]
    cases rest with
    | nil => simp
    | cons x rest => simp [hrest x rfl]
  constructor
  · obtain ⟨n, hn⟩ := hread (List.forall_mem_nil _)
    obtain ⟨htake, hdrop⟩ := hrun [] (by simp)
    rw [List.append_nil] at htake hdrop
    rw [Number.readDecimal?_eq, htake, hdrop]
    exact ⟨_, by simp only [Number.splitFraction, hn]; rfl⟩
  · obtain ⟨n, hn⟩ := hread hfraction
    obtain ⟨htake, hdrop⟩ := hrun ('.' :: fraction) (by simp)
    rw [Number.readDecimal?_eq, htake, hdrop]
    simp only [Number.splitFraction, List.takeWhile_eq_self_iff.mpr hfraction,
      List.dropWhile_eq_nil_iff.mpr hfraction, hn]
    exact ⟨_, rfl⟩

theorem isDecimalPart_of_isDigit {x : Char} (h : x.isDigit = true) : isDecimalPart x = true := by
  rw [isDecimalPart, h, Bool.true_or]

/-- Digits with a point behind them start a decimal, and not a number with a radix. -/
theorem scanKind_digits [Text.CharNames]
    {c : Cursor} (hne : digits ≠ []) (hdigits : ∀ x ∈ digits, x.isDigit = true)
    (hrest : c.rest = digits ++ '.' :: v) {x : Char} (hx : x ∈ digits.head?) :
    scanKind c x = scanDecimal c := by
  have hmarker {y : Char} (hy : y.isDigit = false) (hpoint : y ≠ '.') :
      c.startsWith ['0', y] = false := by
    rw [Cursor.startsWith, Bool.eq_false_iff, ne_eq, List.isPrefixOf_iff_prefix, hrest]
    intro hprefix
    obtain ⟨a, others, hothers⟩ := List.exists_cons_of_ne_nil hne
    rw [hothers] at hprefix hdigits
    have hsecond := (List.cons_prefix_cons.mp hprefix).2
    cases others with
    | nil => exact hpoint (List.cons_prefix_cons.mp hsecond).1
    | cons b others =>
        have hb := hdigits b (by simp)
        rw [← (List.cons_prefix_cons.mp hsecond).1, hy] at hb
        cases hb
  have hdigit : x.isDigit = true := hdigits x (List.mem_of_mem_head? hx)
  simp only [scanKind, hdigit, if_true, scanNumber, hmarker (y := 'b') (by decide) (by decide),
    hmarker (y := 'x') (by decide) (by decide), Bool.false_eq_true, if_false]

theorem takeWhile_digits {c : Cursor} (hdigits : ∀ x ∈ digits, x.isDigit = true)
    (hrest : c.rest = digits ++ '.' :: v) :
    c.takeWhile isDecimalPart = (digits, c.skipping digits ('.' :: v)) :=
  Cursor.takeWhile_of_append hrest (fun x hx => isDecimalPart_of_isDigit (hdigits x hx)) (by
    rintro _ ⟨⟩
    decide)

/-- A point with no digit and no underscore behind it does not belong to the number. -/
theorem scanDecimal_of_point {c : Cursor} (hdigits : ∀ x ∈ digits, x.isDigit = true)
    (hrest : c.rest = digits ++ '.' :: v) (hv : ∀ x ∈ v.head?, isDecimalPart x = false) :
    scanDecimal c = numberToken c.here digits (Number.readDecimal? (withoutUnderscores digits))
      (c.skipping digits ('.' :: v)) := by
  have hfraction : scanFraction (c.skipping digits ('.' :: v)) =
      ([], c.skipping digits ('.' :: v)) := by
    have hnone : ((c.skipping digits ('.' :: v)).peek? 1).any isDecimalPart = false := by
      rw [Cursor.peek?, Cursor.rest_skipping]
      cases v with
      | nil => rfl
      | cons x v => exact hv x rfl
    rw [scanFraction, hnone, Bool.and_false, if_neg Bool.false_ne_true]
  have hexponent : scanExponent (c.skipping digits ('.' :: v)) =
      ([], c.skipping digits ('.' :: v)) := by
    have hcurrent : (c.skipping digits ('.' :: v)).current? = some '.' := by
      rw [Cursor.current?, Cursor.rest_skipping]
      rfl
    rw [scanExponent, hcurrent, if_neg (by decide)]
  simp only [scanDecimal, takeWhile_digits hdigits hrest, hfraction, hexponent, List.append_nil]

/-- A point with digits or underscores behind it belongs to the number, and so do these. -/
theorem scanDecimal_of_fraction {c : Cursor} (hdigits : ∀ x ∈ digits, x.isDigit = true)
    (hrest : c.rest = digits ++ '.' :: (fraction ++ v)) (hne : fraction ≠ [])
    (hfraction : ∀ x ∈ fraction, isDecimalPart x = true) (hv : ∀ x ∈ v.head?, isDecimalPart x = false) :
    scanDecimal c =
      let (exponent, next) := scanExponent (c.skipping (digits ++ '.' :: fraction) v)
      numberToken c.here (digits ++ '.' :: fraction ++ exponent)
        (Number.readDecimal? (withoutUnderscores (digits ++ '.' :: fraction ++ exponent))) next := by
  obtain ⟨x, more, rfl⟩ := List.exists_cons_of_ne_nil hne
  have hscan : scanFraction (c.skipping digits ('.' :: (x :: more ++ v))) =
      ('.' :: x :: more, c.skipping (digits ++ '.' :: x :: more) v) := by
    have hhere : (c.skipping digits ('.' :: (x :: more ++ v))).rest = '.' :: (x :: more ++ v) :=
      Cursor.rest_skipping _ _ _
    have hpoint : ((c.skipping digits ('.' :: (x :: more ++ v))).current? == some '.' &&
        ((c.skipping digits ('.' :: (x :: more ++ v))).peek? 1).any isDecimalPart) = true := by
      rw [Cursor.current?, Cursor.peek?, hhere]
      exact hfraction x List.mem_cons_self
    have htake : (c.skipping digits ('.' :: (x :: more ++ v))).take 1 =
        (['.'], c.skipping (digits ++ ['.']) (x :: more ++ v)) := by
      rw [← Cursor.skipping_skipping]
      exact Cursor.take_append (u := ['.']) hhere
    have hrun : (c.skipping (digits ++ ['.']) (x :: more ++ v)).takeWhile isDecimalPart =
        (x :: more, c.skipping (digits ++ '.' :: x :: more) v) := by
      rw [Cursor.takeWhile_of_append (Cursor.rest_skipping _ _ _) hfraction hv,
        Cursor.skipping_skipping, List.append_assoc, List.singleton_append]
    simp only [scanFraction, hpoint, if_true, htake, hrun, List.singleton_append]
  simp only [scanDecimal, takeWhile_digits hdigits hrest, hscan]

/-- Whatever is taken for an exponent, the cursor goes on behind it. -/
theorem exists_scanExponent (c : Cursor) : ∃ u v, scanExponent c = (u, c.skipping u v) := by
  unfold scanExponent
  split
  · simp only [Cursor.take_eq, Cursor.takeWhile_eq, Cursor.skipping_skipping]
    exact ⟨_, _, rfl⟩
  · exact ⟨[], c.rest, by rw [c.skipping_nil]⟩

/-! ### Tokens side by side -/

theorem startsNone_of_head {x : Char} {cs : List Char} (hspace : x ≠ ' ') (htab : x ≠ '\t')
    (hslash : x ≠ '/') : StartsNone (x :: cs) where
  blank := by
    rintro _ ⟨⟩
    exact ⟨hspace, htab⟩
  comment _ _ hprefix := hslash (List.cons_prefix_cons.mp hprefix).1.symm

section

variable [Text.CharNames]

/-- A piece of the first row is the next token where nothing is skipped. -/
theorem scanNext_adjacent {k : TokenKind String} (hpiece : Piece u v k) (hstarts : StartsNone (u ++ v))
    (hbreak : '\n' ∉ u) (column : Nat) :
    scanNext ⟨1, column, u ++ v⟩ =
      .ok (.token ⟨⟨1, column, u.length⟩, k⟩ ⟨1, column + u.length, v⟩) := by
  rw [scanNext_of_piece (.none _) hstarts hpiece (.refl v) rfl, List.nil_append,
    Cursor.skipping_of_notMem hbreak, Cursor.skipping_of_notMem List.not_mem_nil, Cursor.spanOf,
    if_neg hbreak]
  rfl

/-- Digits are the piece of a number where a point comes that does not belong to it. -/
theorem exists_piece_digits (hne : digits ≠ []) (hdigits : ∀ x ∈ digits, x.isDigit = true)
    (hv : ∀ x ∈ v.head?, isDecimalPart x = false) :
    ∃ n, Piece digits ('.' :: v) (.value (.number n)) := by
  obtain ⟨n, hn⟩ := (exists_readDecimal? hne hdigits (List.forall_mem_nil _)).1
  obtain ⟨x, more, rfl⟩ := List.exists_cons_of_ne_nil hne
  let c : Cursor := ⟨1, 1, x :: more ++ '.' :: v⟩
  have hscan : scanKind c x =
      .ok (.value (.number n), c.skipping (x :: more) ('.' :: v)) := by
    rw [scanKind_digits hne hdigits rfl rfl, scanDecimal_of_point hdigits rfl hv,
      withoutUnderscores_of_isDigit hdigits, hn]
    rfl
  exact ⟨n, piece_of_scanKind rfl rfl hscan (Cursor.rest_skipping _ _ _)⟩

theorem piece_dot (x : Char) (xs : List Char) : Piece ['.'] (x :: xs) (.symbol .dot) := by
  have hscan : scanKind ⟨1, 1, '.' :: x :: xs⟩ '.' = .ok (.symbol .dot, ⟨1, 2, x :: xs⟩) := rfl
  exact piece_of_scanKind rfl rfl hscan rfl

theorem piece_word {x : Char} {xs : List Char} (hstart : isWordStart x = true)
    (hparts : ∀ y ∈ xs, isWordPart y = true) : Piece (x :: xs) [] (wordKind (x :: xs)) := by
  let c : Cursor := ⟨1, 1, x :: xs⟩
  have hword : c.takeWhile isWordPart = (x :: xs, c.skipping (x :: xs) []) := by
    refine Cursor.takeWhile_of_append (List.append_nil _).symm ?_ (by simp)
    exact List.forall_mem_cons.mpr ⟨isWordPart_of_isWordStart hstart, hparts⟩
  have hscan : scanKind c x = .ok (wordKind (x :: xs), c.skipping (x :: xs) []) := by
    simp only [scanKind, isDigit_eq_false_of_isWordStart hstart, hstart, scanWord, hword, if_true,
      Bool.false_eq_true, if_false]
  exact piece_of_scanKind rfl (List.append_nil _).symm hscan (Cursor.rest_skipping _ _ _)

/-- A piece of one row stands alone in the text that it is. -/
theorem tokenize_alone {k : TokenKind String} (hpiece : Piece u v k) (hstarts : StartsNone (u ++ v))
    (hbreak : '\n' ∉ u) :
    tokenize (String.ofList u) =
      .ok [⟨⟨1, 1, u.length⟩, k⟩, ⟨.point 1 (1 + u.length), .endOfFile⟩] := by
  have hbehind : cursorBehind u [] = ⟨1, 1 + u.length, []⟩ := by
    rw [cursorBehind_eq_skipping u [] "", Cursor.skipping_of_notMem hbreak]
    rfl
  have hrow : rowBehind u = 1 := congrArg Cursor.row hbehind
  have hcolumn : columnBehind u = 1 + u.length := congrArg Cursor.column hbehind
  rw [tokenize_piece hpiece hstarts, hrow, hcolumn, spanBehind, if_neg hbreak]
  rfl

end

theorem notMem_newline_of_isDigit (hdigits : ∀ x ∈ digits, x.isDigit = true) : '\n' ∉ digits :=
  fun h => absurd (hdigits _ h) (by decide)

theorem startsNone_digits (hne : digits ≠ []) (hdigits : ∀ x ∈ digits, x.isDigit = true) :
    StartsNone (digits ++ v) := by
  obtain ⟨x, more, rfl⟩ := List.exists_cons_of_ne_nil hne
  have hx := hdigits x List.mem_cons_self
  have hdigit {y : Char} (hy : y.isDigit = false) : x ≠ y := by
    rintro rfl
    rw [hy] at hx
    cases hx
  exact startsNone_of_head (hdigit (by decide)) (hdigit (by decide)) (hdigit (by decide))

theorem startsNone_word {x : Char} {xs : List Char} (hstart : isWordStart x = true) :
    StartsNone (x :: xs) := by
  have hne {y : Char} (hy : isWordStart y = false) : x ≠ y := by
    rintro rfl
    rw [hy] at hstart
    cases hstart
  exact startsNone_of_head (hne (by decide)) (hne (by decide)) (hne (by decide))

theorem notMem_newline_word {x : Char} {xs : List Char} (hstart : isWordStart x = true)
    (hparts : ∀ y ∈ xs, isWordPart y = true) : '\n' ∉ x :: xs := by
  rintro (_ | ⟨_, h⟩)
  · exact absurd hstart (by decide)
  · exact absurd (hparts _ h) (by decide)

/-! ### A point that goes on the number -/

section

variable {c : Cursor}

theorem scanNext_digits [Text.CharNames]
    (hne : digits ≠ []) (hdigits : ∀ x ∈ digits, x.isDigit = true)
    (hrest : c.rest = digits ++ '.' :: v) :
    scanNext c = (scanDecimal c).map fun result =>
      .token ⟨result.2.spanFrom c.here, result.1⟩ result.2 := by
  obtain ⟨x, more, hx⟩ := List.exists_cons_of_ne_nil hne
  have hskip : skipTrivia c.rest c = .ok c := by
    refine skipTrivia_of_startsNone ?_
    rw [hrest]
    exact startsNone_digits hne hdigits
  have hcurrent : c.current? = some x := by rw [Cursor.current?, hrest, hx]; rfl
  have hkind : scanKind c x = scanDecimal c := scanKind_digits hne hdigits hrest (by rw [hx]; rfl)
  cases hresult : scanDecimal c <;>
    simp only [scanNext, hskip, hcurrent, hkind, hresult, Except.map]

theorem withoutUnderscores_fraction (hdigits : ∀ x ∈ digits, x.isDigit = true) (fraction : List Char) :
    withoutUnderscores (digits ++ '.' :: fraction) = digits ++ '.' :: withoutUnderscores fraction := by
  rw [withoutUnderscores, List.filter_append, List.filter_cons_of_pos (by decide)]
  exact congrArg (· ++ _) (withoutUnderscores_of_isDigit hdigits)

theorem notMem_newline_fraction (hdigits : ∀ x ∈ digits, x.isDigit = true)
    (hfraction : ∀ x ∈ fraction, isDecimalPart x = true) : '\n' ∉ digits ++ '.' :: fraction := by
  rw [List.mem_append, List.mem_cons]
  rintro (hmem | hmem | hmem)
  · exact notMem_newline_of_isDigit hdigits hmem
  · exact absurd hmem (by decide)
  · exact absurd (hfraction _ hmem) (by decide)

/-- A point that a digit or an underscore follows belongs to the number, and so do all that follow. -/
theorem le_length_of_fraction [Text.CharNames]
    (hne : digits ≠ []) (hdigits : ∀ x ∈ digits, x.isDigit = true)
    (hrest : c.rest = digits ++ '.' :: (fraction ++ v)) (hfraction_ne : fraction ≠ [])
    (hfraction : ∀ x ∈ fraction, isDecimalPart x = true) (hv : ∀ x ∈ v.head?, isDecimalPart x = false)
    {t : Token String} {next : Cursor} (hnext : scanNext c = .ok (.token t next)) :
    (digits ++ '.' :: fraction).length ≤ t.span.length := by
  obtain ⟨exponent, w, hexponent⟩ := exists_scanExponent (c.skipping (digits ++ '.' :: fraction) v)
  have hspan : (c.skipping (digits ++ '.' :: fraction ++ exponent) w).spanFrom c.here =
      c.spanOf (digits ++ '.' :: fraction ++ exponent) := Cursor.spanFrom_here (by simp) c w
  rw [scanNext_digits hne hdigits hrest,
    scanDecimal_of_fraction hdigits hrest hfraction_ne hfraction hv, hexponent,
    Cursor.skipping_skipping] at hnext
  dsimp only [numberToken] at hnext
  cases hn : Number.readDecimal? (withoutUnderscores (digits ++ '.' :: fraction ++ exponent)) with
  | none =>
      rw [hn] at hnext
      cases hnext
  | some n =>
      rw [hn] at hnext
      cases hnext
      -- what makes a number has no newline in it
      have hbreak : '\n' ∉ digits ++ '.' :: fraction ++ exponent := fun hmem => by
        have hall := isNumeral_of_withoutUnderscores (Number.isNumeral_of_readDecimal? hn) _ hmem
        exact absurd hall (by decide)
      dsimp only
      rw [hspan, Cursor.spanOf, if_neg hbreak]
      exact (List.prefix_append _ exponent).length_le

/-- If no exponent comes behind the digits and underscores, the number ends there. -/
theorem exists_scanNext_fraction [Text.CharNames]
    (hne : digits ≠ []) (hdigits : ∀ x ∈ digits, x.isDigit = true)
    (hrest : c.rest = digits ++ '.' :: (fraction ++ v)) (hfraction_ne : fraction ≠ [])
    (hfraction : ∀ x ∈ fraction, isDecimalPart x = true) (hv : ∀ x ∈ v.head?, isDecimalPart x = false)
    (hmarker : ∀ x ∈ v.head?, Number.isMarker x = false) :
    ∃ n, scanNext c = .ok (.token ⟨c.spanOf (digits ++ '.' :: fraction), .value (.number n)⟩
      (c.skipping (digits ++ '.' :: fraction) v)) := by
  have hnone : scanExponent (c.skipping (digits ++ '.' :: fraction) v) =
      ([], c.skipping (digits ++ '.' :: fraction) v) := by
    have hhere := current?_isMarker (c.skipping (digits ++ '.' :: fraction) v)
    rw [Cursor.rest_skipping] at hhere
    unfold scanExponent
    rw [hhere, if_neg]
    cases v with
    | nil => exact Bool.false_ne_true
    | cons x v => simp [hmarker x rfl]
  obtain ⟨n, hn⟩ := (exists_readDecimal? hne hdigits (isDigit_of_isDecimalPart hfraction)).2
  have hspan : (c.skipping (digits ++ '.' :: fraction) v).spanFrom c.here =
      c.spanOf (digits ++ '.' :: fraction) := Cursor.spanFrom_here (by simp) c v
  refine ⟨n, ?_⟩
  rw [scanNext_digits hne hdigits hrest,
    scanDecimal_of_fraction hdigits hrest hfraction_ne hfraction hv, hnone]
  dsimp only
  rw [List.append_nil, withoutUnderscores_fraction hdigits, hn]
  dsimp only [numberToken, Except.map]
  rw [hspan]

end

/-! ### A point before a word -/

/-- Digits, a point and a word that starts with no digit and no underscore are three tokens. -/
theorem tokenize_point_letter [Text.CharNames] {x : Char} {xs : List Char} (hne : digits ≠ [])
    (hdigits : ∀ y ∈ digits, y.isDigit = true) (hstart : isWordStart x = true)
    (hparts : ∀ y ∈ xs, isWordPart y = true) (hunder : x ≠ '_') : ∃ n k,
      tokenize (String.ofList digits) = .ok [⟨⟨1, 1, digits.length⟩, .value (.number n)⟩,
        ⟨.point 1 (1 + digits.length), .endOfFile⟩] ∧
      tokenize (String.ofList (x :: xs)) = .ok [⟨⟨1, 1, (x :: xs).length⟩, k⟩,
        ⟨.point 1 (1 + (x :: xs).length), .endOfFile⟩] ∧
      tokenize (String.ofList (digits ++ '.' :: x :: xs)) = .ok [
        ⟨⟨1, 1, digits.length⟩, .value (.number n)⟩,
        ⟨⟨1, 1 + digits.length, 1⟩, .symbol .dot⟩,
        ⟨⟨1, 1 + digits.length + 1, (x :: xs).length⟩, k⟩,
        ⟨.point 1 (1 + digits.length + 1 + (x :: xs).length), .endOfFile⟩] := by
  have hpart : isDecimalPart x = false := by
    simp [isDecimalPart, isDigit_eq_false_of_isWordStart hstart, hunder]
  obtain ⟨n, hnumber⟩ := exists_piece_digits (v := x :: xs) hne hdigits (by
    rintro _ ⟨⟩
    exact hpart)
  have hdot : Piece ['.'] (x :: xs) (.symbol .dot) := piece_dot x xs
  have hword := piece_word hstart hparts
  have hbreak := notMem_newline_of_isDigit hdigits
  have hbreak' := notMem_newline_word hstart hparts
  have hstarts : StartsNone (digits ++ '.' :: x :: xs) := startsNone_digits hne hdigits
  have hstarts' : StartsNone (x :: xs ++ []) := startsNone_word hstart
  refine ⟨n, wordKind (x :: xs), tokenize_alone hnumber hstarts hbreak,
    tokenize_alone hword hstarts' hbreak', ?_⟩
  have hfirst := scanNext_adjacent hnumber hstarts hbreak 1
  have hsecond : scanNext ⟨1, 1 + digits.length, '.' :: x :: xs⟩ = .ok (.token
      ⟨⟨1, 1 + digits.length, 1⟩, .symbol .dot⟩ ⟨1, 1 + digits.length + 1, x :: xs⟩) :=
    scanNext_adjacent hdot (startsNone_of_head (by decide) (by decide) (by decide)) (by decide) _
  have hthird := scanNext_adjacent hword hstarts' hbreak' (1 + digits.length + 1)
  rw [List.append_nil] at hthird
  have hscan : scan (String.ofList (digits ++ '.' :: x :: xs)) =
      ⟨[⟨⟨1, 1, digits.length⟩, .value (.number n)⟩, ⟨⟨1, 1 + digits.length, 1⟩, .symbol .dot⟩,
        ⟨⟨1, 1 + digits.length + 1, (x :: xs).length⟩, wordKind (x :: xs)⟩],
        .ok (.point 1 (1 + digits.length + 1 + (x :: xs).length))⟩ := by
    have hbound : (digits ++ '.' :: x :: xs).length ≤
        ('.' :: '.' :: '.' :: (digits ++ '.' :: x :: xs)).length := by
      simp only [List.length_cons]
      omega
    rw [scan_eq_scanAll String.toList_ofList hbound]
    rw [scanAll_token hfirst, scanAll_token hsecond, scanAll_token hthird, scanAll_of_end rfl]
    rfl
  rw [tokenize_eq, hscan]
  rfl

/-- **A point before a word.** Behind the digits of a decimal, a point that a word follows is a token of
its own: the digits, the point and the word are read as three tokens, the digits and the word as what they
are read as alone. That is so for all words but those that start with an underscore, which counts as a
digit of the fraction. The number goes on with the point and with all digits and underscores that such a
word starts with, and if no exponent comes behind these, it ends there. -/
theorem tokenize_point_word [Text.CharNames] {x : Char} {xs : List Char} (hne : digits ≠ [])
    (hdigits : ∀ y ∈ digits, y.isDigit = true) (hstart : isWordStart x = true)
    (hparts : ∀ y ∈ xs, isWordPart y = true) :
    (x ≠ '_' → ∃ n k,
      tokenize (String.ofList digits) = .ok [⟨⟨1, 1, digits.length⟩, .value (.number n)⟩,
        ⟨.point 1 (1 + digits.length), .endOfFile⟩] ∧
      tokenize (String.ofList (x :: xs)) = .ok [⟨⟨1, 1, (x :: xs).length⟩, k⟩,
        ⟨.point 1 (1 + (x :: xs).length), .endOfFile⟩] ∧
      tokenize (String.ofList (digits ++ '.' :: x :: xs)) = .ok [
        ⟨⟨1, 1, digits.length⟩, .value (.number n)⟩,
        ⟨⟨1, 1 + digits.length, 1⟩, .symbol .dot⟩,
        ⟨⟨1, 1 + digits.length + 1, (x :: xs).length⟩, k⟩,
        ⟨.point 1 (1 + digits.length + 1 + (x :: xs).length), .endOfFile⟩]) ∧
    (x = '_' → ∀ run behind, run = (x :: xs).takeWhile isDecimalPart →
      behind = (x :: xs).dropWhile isDecimalPart →
      (∀ t next, scanNext (Cursor.start (String.ofList (digits ++ '.' :: x :: xs))) =
          .ok (.token t next) → digits.length + 1 + run.length ≤ t.span.length) ∧
      ((∀ y ∈ behind.head?, y ≠ 'e' ∧ y ≠ 'E') → ∃ n,
        scanNext (Cursor.start (String.ofList (digits ++ '.' :: x :: xs))) =
          .ok (.token ⟨⟨1, 1, digits.length + 1 + run.length⟩, .value (.number n)⟩
            ⟨1, 1 + (digits.length + 1 + run.length), behind⟩))) := by
  refine ⟨tokenize_point_letter hne hdigits hstart hparts, ?_⟩
  rintro rfl run behind rfl rfl
  obtain ⟨run, behind, hword, hrun, hbehind⟩ := exists_run isDecimalPart ('_' :: xs)
  have hsplit : ('_' :: xs).takeWhile isDecimalPart = run ∧
      ('_' :: xs).dropWhile isDecimalPart = behind := by
    rw [hword, List.takeWhile_append_of_pos hrun, List.dropWhile_append_of_pos hrun]
    cases behind with
    | nil => simp
    | cons y behind => simp [hbehind y rfl]
  have hne' : run ≠ [] := by
    rintro rfl
    exact absurd (hbehind '_' (by rw [← List.nil_append behind, ← hword]; rfl)) (by decide)
  have hstarts : Cursor.start (String.ofList (digits ++ '.' :: '_' :: xs)) =
      ⟨1, 1, digits ++ '.' :: (run ++ behind)⟩ := by
    rw [Cursor.start, String.toList_ofList, hword]
  have hlength : (digits ++ '.' :: run).length = digits.length + 1 + run.length := by
    simp only [List.length_append, List.length_cons]
    omega
  rw [hsplit.1, hsplit.2, hstarts, ← hlength]
  constructor
  · intro t next hnext
    exact le_length_of_fraction hne hdigits rfl hne' hrun hbehind hnext
  · intro hmarker
    have hbreak := notMem_newline_fraction hdigits hrun
    obtain ⟨n, hn⟩ := exists_scanNext_fraction (c := ⟨1, 1, digits ++ '.' :: (run ++ behind)⟩) hne hdigits
      rfl hne' hrun hbehind fun y hy => by simp [Number.isMarker, hmarker y hy]
    rw [Cursor.spanOf, if_neg hbreak, Cursor.skipping_of_notMem hbreak] at hn
    exact ⟨n, hn⟩

attribute [local instance] Command.charNames

/-- The point of `12.e5` is a token of its own, as an exponent does not make a fraction. -/
theorem tokenize_point_word_exponent :
    tokenize (String.ofList ['1', '2', '.', 'e', '5']) = .ok [⟨⟨1, 1, 2⟩, .value (.number 12)⟩,
      ⟨⟨1, 3, 1⟩, .symbol .dot⟩, ⟨⟨1, 4, 2⟩, .name "e5"⟩, ⟨⟨1, 6, 1⟩, .endOfFile⟩] := by
  obtain ⟨n, k, hnumber, hword, htokens⟩ := (@tokenize_point_word ['1', '2'] _ 'e' ['5']
    (by decide) (List.all_eq_true.mp rfl) rfl (List.all_eq_true.mp rfl)).1 (by decide)
  have hn : tokenize (String.ofList ['1', '2']) = .ok [⟨⟨1, 1, 2⟩, .value (.number 12)⟩,
    ⟨⟨1, 3, 1⟩, .endOfFile⟩] := by rfl
  have hk : tokenize (String.ofList ['e', '5']) = .ok [⟨⟨1, 1, 2⟩, .name "e5"⟩,
    ⟨⟨1, 3, 1⟩, .endOfFile⟩] := by rfl
  rw [hn] at hnumber
  rw [hk] at hword
  cases hnumber
  cases hword
  exact htokens

/-- An underscore behind a point is no digit, and yet makes a fraction: `1._` is one number. -/
theorem tokenize_point_word_underscore :
    ¬∀ (digits : List Char) (x : Char) (xs : List Char), digits ≠ [] →
      (∀ y ∈ digits, y.isDigit = true) → isWordStart x = true → (∀ y ∈ xs, isWordPart y = true) →
      ∃ n k here, tokenize (String.ofList (digits ++ '.' :: x :: xs)) = .ok [
        ⟨⟨1, 1, digits.length⟩, .value (.number n)⟩, ⟨⟨1, 1 + digits.length, 1⟩, .symbol .dot⟩,
        ⟨⟨1, 1 + digits.length + 1, (x :: xs).length⟩, k⟩, ⟨here, .endOfFile⟩] := by
  intro h
  obtain ⟨n, k, here, htokens⟩ := h ['1'] '_' [] (by decide) (List.all_eq_true.mp rfl) rfl
    (List.all_eq_true.mp rfl)
  have hone : tokenize (String.ofList ['1', '.', '_']) = .ok [⟨⟨1, 1, 3⟩, .value (.number 1)⟩,
    ⟨⟨1, 4, 1⟩, .endOfFile⟩] := by rfl
  have hsame := congrArg (Except.map List.length) (hone.symm.trans htokens)
  cases hsame

end

end IslandScript.Lexer
