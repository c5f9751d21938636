import Mathlib.Data.List.Forall2
import Mathlib.Data.Nat.Digits.Defs
import Mathlib.Tactic.Ring
import IslandScript.Command.Characters
import IslandScript.Proofs.Lexer.Tiling

/-!
# The spellings of a string

A character of a string may be written in several ways: as itself, as a simple escape, or by its code
in hexadecimal digits of either case. However its characters are written one by one, a string is read
back from between its quotes, and a literal without the name of a character in it is written in no
other way.
-/

namespace IslandScript.Lexer

/-! ## How a character is spelled -/

/-- The simple escapes: what stands behind the backslash, and the character that is meant. -/
def simpleEscapes : List (Char × Char) :=
  [('\\', '\\'), ('"', '"'), ('0', '\x00'), ('b', '\x08'), ('n', '\n'), ('r', '\r'), ('t', '\t')]

/-- The letters that stand before a code, and how many digits it has. -/
def codeLetters : List (Char × Nat) := [('x', 2), ('u', 4), ('U', 8)]

/-- The character is a hexadecimal digit of some value, in lower or upper case. -/
def HexDigit (x : Char) (d : Nat) : Prop :=
  d < 16 ∧ (x = d.digitChar ∨ x = d.digitChar.toUpper)

instance (x : Char) (d : Nat) : Decidable (HexDigit x d) := inferInstanceAs (Decidable (_ ∧ _))

/-- The ways to write a character between the quotes of a string. -/
inductive Spelling : Char → List Char → Prop where
  /-- As itself, unless it would end the string or start an escape. -/
  | plain {c : Char} (hquote : c ≠ '"') (hescape : c ≠ '\\') : Spelling c [c]
  | simple {c x : Char} (h : (x, c) ∈ simpleEscapes) : Spelling c ['\\', x]
  /-- By its code, in as many digits as the letter says. -/
  | code {c letter : Char} {digits : List Char} {values : List Nat}
      (hletter : (letter, digits.length) ∈ codeLetters) (hdigits : List.Forall₂ HexDigit digits values)
      (hvalue : Nat.ofDigits 16 values.reverse = c.toNat) : Spelling c ('\\' :: letter :: digits)

theorem Spelling.ne_nil {c : Char} {u : List Char} (h : Spelling c u) : u ≠ [] := by
  cases h <;> simp

/-- Every character can be spelled. -/
theorem exists_spelling (c : Char) : ∃ u, Spelling c u := by
  by_cases hquote : c = '"'
  · exact ⟨['\\', '"'], .simple (by rw [hquote]; decide)⟩
  · by_cases hescape : c = '\\'
    · exact ⟨['\\', '\\'], .simple (by rw [hescape]; decide)⟩
    · exact ⟨[c], .plain hquote hescape⟩

theorem simpleEscape?_eq_some {x c : Char} :
    simpleEscape? x = some c ↔ (x, c) ∈ simpleEscapes := by
  unfold simpleEscape? simpleEscapes
  constructor
  · intro h
    split at h <;> cases h <;> simp
  · intro h
    simp only [List.mem_cons, Prod.mk.injEq, List.not_mem_nil, or_false] at h
    rcases h with ⟨rfl, rfl⟩ | ⟨rfl, rfl⟩ | ⟨rfl, rfl⟩ | ⟨rfl, rfl⟩ | ⟨rfl, rfl⟩ | ⟨rfl, rfl⟩ | ⟨rfl, rfl⟩ <;>
      rfl

theorem codeWidth?_eq_some {x : Char} {width : Nat} :
    codeWidth? x = some width ↔ (x, width) ∈ codeLetters := by
  unfold codeWidth? codeLetters
  constructor
  · intro h
    split at h <;> cases h <;> simp
  · intro h
    simp only [List.mem_cons, Prod.mk.injEq, List.not_mem_nil, or_false] at h
    rcases h with ⟨rfl, rfl⟩ | ⟨rfl, rfl⟩ | ⟨rfl, rfl⟩ <;> rfl

/-- The letter of a code is no simple escape, and a code has digits. -/
theorem escape_of_mem_codeLetters {x : Char} {width : Nat} (h : (x, width) ∈ codeLetters) :
    simpleEscape? x = none ∧ 0 < width := by
  simp only [codeLetters, List.mem_cons, Prod.mk.injEq, List.not_mem_nil, or_false] at h
  rcases h with ⟨rfl, rfl⟩ | ⟨rfl, rfl⟩ | ⟨rfl, rfl⟩ <;> exact ⟨rfl, by decide⟩

/-! ## Hexadecimal digits -/

theorem toNat_lt_of_isHexDigit {x : Char} (h : Number.isHexDigit x = true) : x.toNat < 128 := by
  simp only [Number.isHexDigit, Char.isDigit, Bool.or_eq_true, Bool.and_eq_true, decide_eq_true_eq,
    Char.le_def, UInt32.le_iff_toNat_le] at h
  have hbound : x.val.toNat ≤ 'f'.val.toNat := by
    rcases h with (⟨-, h⟩ | ⟨-, h⟩) | ⟨-, h⟩
    · exact h.trans (by decide)
    · exact h
    · exact h.trans (by decide)
  exact Nat.lt_of_le_of_lt hbound (by decide)

/-- A digit has a value. All of them are ASCII, so they can be looked at one by one. -/
theorem exists_hexDigit {x : Char} (h : Number.isHexDigit x = true) :
    ∃ d, HexDigit x d ∧ Number.digitValue? x = some d := by
  have htable : ∀ n < 128, Number.isHexDigit (Char.ofNat n) = true →
      ∃ d < 16, (Char.ofNat n = d.digitChar ∨ Char.ofNat n = d.digitChar.toUpper) ∧
        Number.digitValue? (Char.ofNat n) = some d := by decide
  have hdigit := htable x.toNat (toNat_lt_of_isHexDigit h)
  rw [Char.ofNat_toNat] at hdigit
  obtain ⟨d, hd, hx, hvalue⟩ := hdigit h
  exact ⟨d, ⟨hd, hx⟩, hvalue⟩

theorem HexDigit.read {x : Char} {d : Nat} (h : HexDigit x d) :
    Number.isHexDigit x = true ∧ Number.digitValue? x = some d := by
  have htable : ∀ d < 16, ([d.digitChar, d.digitChar.toUpper].all fun x =>
      Number.isHexDigit x && Number.digitValue? x == some d) = true := by decide
  have hx := List.all_eq_true.mp (htable d h.1) x (by simpa using h.2)
  simpa only [Bool.and_eq_true, beq_iff_eq] using hx

theorem exists_hexDigits {digits : List Char} (h : digits.all Number.isHexDigit = true) :
    ∃ values, List.Forall₂ HexDigit digits values := by
  induction digits with
  | nil => exact ⟨[], .nil⟩
  | cons x digits ih =>
      rw [List.all_cons, Bool.and_eq_true] at h
      obtain ⟨d, hd, -⟩ := exists_hexDigit h.1
      obtain ⟨values, hvalues⟩ := ih h.2
      exact ⟨d :: values, .cons hd hvalues⟩

theorem all_isHexDigit {digits : List Char} {values : List Nat}
    (h : List.Forall₂ HexDigit digits values) : digits.all Number.isHexDigit = true := by
  induction h with
  | nil => rfl
  | cons hd _ ih => rw [List.all_cons, hd.read.1, ih, Bool.and_self]

/-- Digits are read as the number that their values make up, the first being the highest. -/
theorem readDigits_of_digits {radix : Nat} {digits : List Char} {values : List Nat}
    (h : List.Forall₂ (fun x d => Number.digitValue? x = some d ∧ d < radix) digits values)
    (value : Nat) :
    Number.readDigits radix value digits =
      some (value * radix ^ digits.length + Nat.ofDigits radix values.reverse) := by
  induction h generalizing value with
  | nil => simp [Number.readDigits]
  | @cons x d digits values hd hrest ih =>
      have hlength := hrest.length_eq
      rw [Number.readDigits, hd.1]
      simp only [if_pos hd.2, ih, List.reverse_cons, Nat.ofDigits_append, Nat.ofDigits_singleton,
        List.length_reverse, List.length_cons, ← hlength]
      congr 1
      ring

theorem readNat?_of_digits {radix : Nat} {digits : List Char} {values : List Nat}
    (hne : digits ≠ [])
    (h : List.Forall₂ (fun x d => Number.digitValue? x = some d ∧ d < radix) digits values) :
    Number.readNat? radix digits = some (Nat.ofDigits radix values.reverse) := by
  simp [Number.readNat?, hne, readDigits_of_digits h]

theorem exists_values_of_readDigits {radix value n : Nat} {digits : List Char}
    (h : Number.readDigits radix value digits = some n) :
    ∃ values, List.Forall₂ (fun x d => Number.digitValue? x = some d ∧ d < radix) digits values := by
  induction digits generalizing value with
  | nil => exact ⟨[], .nil⟩
  | cons x digits ih =>
      rw [Number.readDigits] at h
      cases hx : Number.digitValue? x with
      | none => simp [hx] at h
      | some d =>
          simp only [hx] at h
          split at h
          next hd =>
            obtain ⟨values, hvalues⟩ := ih h
            exact ⟨d :: values, .cons ⟨hx, hd⟩ hvalues⟩
          next => cases h

/-- What is read as a natural number is a run of digits that make it up. -/
theorem readNat?_eq_some_iff {radix n : Nat} {digits : List Char} :
    Number.readNat? radix digits = some n ↔ ∃ values, values ≠ [] ∧
      List.Forall₂ (fun x d => Number.digitValue? x = some d ∧ d < radix) digits values ∧
      Nat.ofDigits radix values.reverse = n := by
  constructor
  · intro h
    have hne : digits ≠ [] := by
      rintro rfl
      cases h
    have hdigits : Number.readDigits radix 0 digits = some n := by simpa [Number.readNat?, hne] using h
    obtain ⟨values, hvalues⟩ := exists_values_of_readDigits hdigits
    have hvalues_ne : values ≠ [] := by
      rintro rfl
      exact hne (List.forall₂_nil_right_iff.mp hvalues)
    rw [readNat?_of_digits hne hvalues] at h
    exact ⟨values, hvalues_ne, hvalues, Option.some_inj.mp h⟩
  · rintro ⟨values, hne, hvalues, rfl⟩
    refine readNat?_of_digits ?_ hvalues
    rintro rfl
    exact hne (List.forall₂_nil_left_iff.mp hvalues)

/-- Only ASCII characters are digits. -/
theorem toNat_lt_of_digitValue? {x : Char} {d : Nat} (hvalue : Number.digitValue? x = some d) :
    x.toNat < 128 := by
  unfold Number.digitValue? at hvalue
  simp only [Char.isDigit, Bool.and_eq_true, decide_eq_true_eq, Char.le_def,
    UInt32.le_iff_toNat_le] at hvalue
  have hlast : x.val.toNat ≤ 'z'.val.toNat := by
    split at hvalue
    next h => exact h.2.trans (by decide)
    next =>
      split at hvalue
      next h => exact h.2
      next =>
        split at hvalue
        next h => exact h.2.trans (by decide)
        next => cases hvalue
  exact Nat.lt_of_le_of_lt hlast (by decide)

theorem charOfCode?_eq_some {n : Nat} {y : Char} : charOfCode? n = some y ↔ n = y.toNat := by
  unfold charOfCode?
  split
  next hvalid =>
    rw [Option.some.injEq]
    constructor
    · rintro rfl
      unfold Char.ofNat
      rw [dif_pos hvalid]
      rfl
    · rintro rfl
      exact Char.ofNat_toNat y
  next hvalid =>
    constructor
    · exact nofun
    · rintro rfl
      exact absurd y.valid hvalid

/-! ## Escapes -/

section

variable {c next : Cursor} {y : Char}

/-- The character of a code: all digits are hexadecimal, and make up its code point. -/
theorem code_eq_some {digits : List Char} (hdigits : digits ≠ []) :
    (if digits.all Number.isHexDigit then Number.readNat? 16 digits else none).bind charOfCode? =
        some y ↔
      ∃ values, List.Forall₂ HexDigit digits values ∧ Nat.ofDigits 16 values.reverse = y.toNat := by
  have hread {values : List Nat} (h : List.Forall₂ HexDigit digits values) :
      Number.readNat? 16 digits = some (Nat.ofDigits 16 values.reverse) :=
    readNat?_of_digits hdigits (h.imp fun _ _ hd => ⟨hd.read.2, hd.1⟩)
  constructor
  · intro h
    split at h
    next hall =>
      obtain ⟨values, hvalues⟩ := exists_hexDigits hall
      rw [hread hvalues] at h
      exact ⟨values, hvalues, charOfCode?_eq_some.mp h⟩
    next => cases h
  · rintro ⟨values, hvalues, hcode⟩
    rw [if_pos (all_isHexDigit hvalues), hread hvalues]
    exact charOfCode?_eq_some.mpr hcode

theorem scanCode_of_digits {digits v : List Char} {values : List Nat} (hne : digits ≠ [])
    (hdigits : List.Forall₂ HexDigit digits values)
    (hvalue : Nat.ofDigits 16 values.reverse = y.toNat) (hrest : c.rest = digits ++ v) :
    scanCode c digits.length = .ok (y, c.skipping digits v) := by
  have hcode := (code_eq_some hne).mpr ⟨values, hdigits, hvalue⟩
  simp only [scanCode, Cursor.take_append hrest, Nat.lt_irrefl, if_false, hcode]

/-- A code has as many digits as were asked for. -/
theorem digits_of_scanCode {width : Nat} (hwidth : 0 < width)
    (h : scanCode c width = .ok (y, next)) :
    ∃ digits values, digits.length = width ∧ List.Forall₂ HexDigit digits values ∧
      Nat.ofDigits 16 values.reverse = y.toNat ∧ c.rest = digits ++ next.rest ∧
      next = c.skipping digits next.rest := by
  by_cases hshort : c.rest.length < width
  · -- the text ends within the code, which is an error
    exfalso
    have hfew : (c.take width).1.length < width := by
      rw [(c.take_rest width).1, List.length_take]
      omega
    simp [scanCode, hfew] at h
  · obtain ⟨digits, v, hlength, hrest⟩ :
        ∃ digits v, digits.length = width ∧ c.rest = digits ++ v := by
      refine ⟨c.rest.take width, c.rest.drop width, ?_, (List.take_append_drop _ _).symm⟩
      rw [List.length_take]
      omega
    have hne : digits ≠ [] := List.ne_nil_of_length_pos (hlength ▸ hwidth)
    rw [← hlength] at h
    simp only [scanCode, Cursor.take_append hrest, Nat.lt_irrefl, if_false] at h
    -- surrogates and numbers above the last character are refused here
    split at h
    next x hcode =>
      cases h
      obtain ⟨values, hvalues, hvalue⟩ := (code_eq_some hne).mp hcode
      rw [Cursor.rest_skipping]
      exact ⟨digits, values, hlength, hvalues, hvalue, hrest, rfl⟩
    next => cases h

section

variable [Text.CharNames]

/-- What stands behind a backslash in a spelling is read as an escape. -/
theorem scanEscape_of_spelling {u v : List Char} (h : Spelling y ('\\' :: u))
    (hrest : c.rest = u ++ v) : scanEscape c = .ok (y, c.skipping u v) := by
  cases h with
  | plain hquote hescape => exact absurd rfl hescape
  | simple hx =>
      simp only [scanEscape, Cursor.bump?_cons hrest, simpleEscape?_eq_some.mpr hx, List.append_eq,
        List.nil_append]
  | @code letter digits values hletter hdigits hvalue =>
      obtain ⟨hsimple, hlength⟩ := escape_of_mem_codeLetters hletter
      have hscan := scanCode_of_digits (List.ne_nil_of_length_pos hlength) hdigits hvalue
        (Cursor.rest_skipping c [letter] (digits ++ v))
      simp only [scanEscape, Cursor.bump?_cons hrest, hsimple, codeWidth?_eq_some.mpr hletter,
        List.append_eq, hscan, Cursor.skipping_skipping, List.singleton_append]

/-- What is read as an escape is a spelling, or the name of a character. -/
theorem spelling_of_scanEscape (h : scanEscape c = .ok (y, next)) :
    (∃ v, c.rest = '(' :: v) ∨
      ∃ u, Spelling y ('\\' :: u) ∧ c.rest = u ++ next.rest ∧ next = c.skipping u next.rest := by
  cases hrest : c.rest with
  | nil => simp [scanEscape, Cursor.bump?_nil hrest] at h
  | cons x v =>
      simp only [scanEscape, Cursor.bump?_cons hrest] at h
      split at h
      next z hsimple =>
        cases h
        refine .inr ⟨[x], .simple (simpleEscape?_eq_some.mp hsimple), ?_, ?_⟩ <;>
          rw [Cursor.rest_skipping]
        rfl
      next width _ hwidth =>
        have hletter := codeWidth?_eq_some.mp hwidth
        obtain ⟨digits, values, rfl, hdigits, hvalue, hv, hnext⟩ :=
          digits_of_scanCode (escape_of_mem_codeLetters hletter).2 h
        rw [Cursor.rest_skipping] at hv
        rw [Cursor.skipping_skipping] at hnext
        exact .inr ⟨x :: digits, .code hletter hdigits hvalue, congrArg (x :: ·) hv, hnext⟩
      next =>
        split at h
        next hparen => exact .inl ⟨v, by rw [beq_iff_eq.mp hparen]⟩
        next => cases h

/-! ## The characters of a string -/

/-- A character is read from however it is spelled. -/
theorem scanCharacters_spelling {u v : List Char} (h : Spelling y u) (hrest : c.rest = u ++ v)
    (b : Char) (bound read : List Char) :
    scanCharacters (b :: bound) read c = scanCharacters bound (y :: read) (c.skipping u v) := by
  have hescape {u : List Char} (h : Spelling y ('\\' :: u)) (hrest : c.rest = '\\' :: (u ++ v)) :
      scanCharacters (b :: bound) read c =
        scanCharacters bound (y :: read) (c.skipping ('\\' :: u) v) := by
    have hscan := scanEscape_of_spelling h (Cursor.rest_skipping c ['\\'] (u ++ v))
    rw [scanCharacters_cons hrest, if_neg (by decide), if_pos rfl, hscan]
    dsimp only
    rw [Cursor.skipping_skipping, List.singleton_append]
  cases h with
  | plain hquote hbackslash =>
      rw [scanCharacters_cons hrest, if_neg hquote, if_neg hbackslash]
      rfl
  | simple hx => exact hescape (.simple hx) hrest
  | code hletter hdigits hvalue => exact hescape (.code hletter hdigits hvalue) hrest

/-- Behind spellings and a quote a string has been read. -/
theorem scanCharacters_spellings {s v : List Char} {pieces : List (List Char)}
    (h : List.Forall₂ Spelling s pieces) {bound read : List Char} (hbound : s.length < bound.length)
    (hrest : c.rest = pieces.flatten ++ '"' :: v) :
    scanCharacters bound read c =
      .ok (read.reverse ++ s, c.skipping (pieces.flatten ++ ['"']) v) := by
  induction h generalizing bound read c with
  | nil =>
      obtain ⟨b, bound, rfl⟩ := List.exists_cons_of_length_pos hbound
      rw [scanCharacters_cons hrest, if_pos rfl, List.append_nil]
      rfl
  | @cons y u s pieces hu _ ih =>
      obtain ⟨b, bound, rfl⟩ := List.exists_cons_of_length_pos (Nat.zero_lt_of_lt hbound)
      rw [List.flatten_cons, List.append_assoc] at hrest ⊢
      rw [scanCharacters_spelling hu hrest, ih (Nat.lt_of_succ_lt_succ hbound)
        (Cursor.rest_skipping _ _ _), Cursor.skipping_skipping]
      simp

end

/-- What was read up to a quote was spelled, unless a character is named on the way. -/
inductive SpelledFrom (read cs rest after : List Char) : Prop where
  | named {s v : List Char} {pieces : List (List Char)} (hs : List.Forall₂ Spelling s pieces)
      (hrest : rest = pieces.flatten ++ '\\' :: '(' :: v)
  | closed {s : List Char} {pieces : List (List Char)} (hs : List.Forall₂ Spelling s pieces)
      (hcs : cs = read.reverse ++ s) (hrest : rest = pieces.flatten ++ '"' :: after)

/-- One more character in front of those that were read behind it. -/
theorem SpelledFrom.cons {u read cs rest after : List Char} (hu : Spelling y u)
    (h : SpelledFrom (y :: read) cs rest after) : SpelledFrom read cs (u ++ rest) after := by
  cases h with
  | @named _ v _ hs hrest => exact .named (v := v) (.cons hu hs) (by simp [hrest])
  | closed hs hcs hrest => exact .closed (.cons hu hs) (by simp [hcs]) (by simp [hrest])

theorem spelledFrom_of_scanCharacters [Text.CharNames] {bound read cs : List Char}
    (h : scanCharacters bound read c = .ok (cs, next)) :
    SpelledFrom read cs c.rest next.rest := by
  -- the bound loses a character with every character that is read
  induction bound generalizing read c with
  | nil => cases h
  | cons b bound ih =>
      have hgoOn {y : Char} {u v : List Char} (hu : Spelling y u)
          (h : scanCharacters bound (y :: read) (c.skipping u v) = .ok (cs, next)) :
          SpelledFrom read cs (u ++ v) next.rest := by
        have hbehind := ih h
        rw [Cursor.rest_skipping] at hbehind
        exact hbehind.cons hu
      cases hrest : c.rest with
      | nil => simp [scanCharacters, Cursor.bump?_nil hrest] at h
      | cons x v =>
          rw [scanCharacters_cons hrest] at h
          split at h
          next hquote =>
            cases h
            refine .closed .nil (List.append_nil _).symm ?_
            rw [Cursor.rest_skipping, hquote]
            rfl
          next hquote =>
            split at h
            next hescape =>
              subst hescape
              split at h
              next => cases h
              next y mid hscan =>
                obtain ⟨v', hname⟩ | ⟨u, hu, hv, hmid⟩ := spelling_of_scanEscape hscan
                · rw [Cursor.rest_skipping] at hname
                  exact .named .nil (by rw [hname]; rfl)
                · rw [Cursor.rest_skipping] at hv
                  rw [hmid, Cursor.skipping_skipping, List.singleton_append] at h
                  rw [hv]
                  exact hgoOn hu h
            next hescape => exact hgoOn (.plain hquote hescape) h

end

/-! ## String literals -/

/-- Spellings between quotes. -/
def quoted (pieces : List (List Char)) : List Char := '"' :: (pieces.flatten ++ ['"'])

theorem length_le_length_flatten {s : List Char} {pieces : List (List Char)}
    (h : List.Forall₂ Spelling s pieces) : s.length ≤ pieces.flatten.length := by
  induction h with
  | nil => exact Nat.le_refl 0
  | cons hu _ ih =>
      have hpos := List.length_pos_of_ne_nil hu.ne_nil
      rw [List.flatten_cons, List.length_append, List.length_cons]
      omega

/-- A literal is the piece of a token that holds the string. -/
theorem piece_quoted [Text.CharNames] {s : List Char} {pieces : List (List Char)}
    (h : List.Forall₂ Spelling s pieces) (v : List Char) :
    Piece (quoted pieces) v (.value (.string (String.ofList s))) := by
  let c : Cursor := ⟨1, 1, quoted pieces ++ v⟩
  have hopen : c.take 1 = (['"'], c.skipping ['"'] (pieces.flatten ++ '"' :: v)) :=
    Cursor.take_append (u := ['"']) (by simp [c, quoted])
  have hrest := Cursor.rest_skipping c ['"'] (pieces.flatten ++ '"' :: v)
  have hbound : s.length < (pieces.flatten ++ '"' :: v).length := by
    have hlength := length_le_length_flatten h
    rw [List.length_append, List.length_cons]
    omega
  have hscan : scanKind c '"' = .ok (.value (.string (String.ofList s)),
      (c.skipping ['"'] (pieces.flatten ++ '"' :: v)).skipping (pieces.flatten ++ ['"']) v) := by
    show scanString c = _
    simp only [scanString, hopen, hrest, scanCharacters_spellings h hbound hrest, List.reverse_nil,
      List.nil_append]
  exact piece_of_scanKind (c := c) rfl rfl hscan (Cursor.rest_skipping _ _ _)

/-- A string that is read was spelled, unless a character is named in it. -/
theorem spelledFrom_of_scanString [Text.CharNames] {c next : Cursor} {s : String} {v : List Char}
    (hrest : c.rest = '"' :: v) (h : scanString c = .ok (.value (.string s), next)) :
    SpelledFrom [] s.toList v next.rest := by
  have hopen : c.take 1 = (['"'], c.skipping ['"'] v) := Cursor.take_append (u := ['"']) hrest
  simp only [scanString, hopen] at h
  split at h
  next => cases h
  next cs _ hscan =>
    cases h
    have hspelled := spelledFrom_of_scanCharacters hscan
    rw [Cursor.rest_skipping] at hspelled
    rwa [String.toList_ofList]

theorem wordKind_ne_string (word : List Char) (s : String) :
    wordKind word ≠ .value (.string s) := by
  unfold wordKind Literal.ofWord?
  grind

/-- No other token holds a string. -/
theorem eq_quote_of_scanKind [Text.CharNames] {c next : Cursor} {x : Char} {s : String}
    (h : scanKind c x = .ok (.value (.string s), next)) : x = '"' := by
  unfold scanKind at h
  split at h
  next =>
    obtain ⟨n, hn⟩ := kind_of_scanNumber h
    cases hn
  next =>
    split at h
    next =>
      have hword : wordKind (c.takeWhile isWordPart).1 = .value (.string s) :=
        congrArg Prod.fst (Except.ok.inj h)
      exact absurd hword (wordKind_ne_string _ _)
    next =>
      split at h
      next hquote => exact beq_iff_eq.mp hquote
      next =>
        unfold scanSymbol at h
        split at h
        next => cases h
        next => split at h <;> cases h

/-! ## Texts of one token -/

/-- A piece between blanks and comments is the only token of its text. -/
theorem tokenize_between [Text.CharNames] {before u after : List Char} {k : TokenKind String}
    (hbefore : Trivia before (u ++ after)) (hstarts : StartsNone (u ++ after))
    (hpiece : Piece u after k) (hafter : Trivia after []) :
    tokenize (String.ofList (before ++ (u ++ after))) =
      .ok [⟨spanBehind before u, k⟩, ⟨.point (rowBehind (before ++ u ++ after))
        (columnBehind (before ++ u ++ after)), .endOfFile⟩] := by
  have hfirst := scanNext_of_piece hbefore hstarts hpiece (.refl after)
    (c := cursorBehind [] (before ++ (u ++ after))) rfl
  rw [cursorBehind_skipping, cursorBehind_skipping, List.nil_append, List.nil_append] at hfirst
  have hlast : scanNext (cursorBehind (before ++ u) after) = _ := scanNext_of_trivia hafter
  have hscan : scan (String.ofList (before ++ (u ++ after))) =
      scanAll ('\n' :: '\n' :: (before ++ (u ++ after))) (cursorBehind [] (before ++ (u ++ after))) :=
    scan_eq_scanAll String.toList_ofList (Nat.le_add_right _ 2)
  rw [tokenize_eq, hscan, scanAll_token hfirst, scanAll_finish hlast]
  simp only [show (cursorBehind (before ++ u) after).rest = after from rfl, cursorBehind_skipping]
  rfl

/-- The only token of a text stands between blanks and comments. -/
theorem readsFrom_of_tokenize [Text.CharNames] {text : String} {t e : Token String}
    (h : tokenize text = .ok [t, e]) :
    ∃ gap u next, ReadsFrom (Cursor.start text) gap u t next ∧ Trivia next.rest [] := by
  obtain ⟨here, hending, htokens⟩ := exists_scan_of_tokenize h
  have hscan : scan text = scanAll ('\n' :: '\n' :: text.toList) (Cursor.start text) :=
    scan_eq_scanAll rfl (Nat.le_add_right _ 2)
  rw [hscan] at hending htokens
  cases hfirst : scanNext (Cursor.start text) with
  | error e =>
      rw [scanAll_error hfirst] at hending
      cases hending
  | ok first =>
      cases first with
      | finish span =>
          rw [scanAll_finish hfirst] at htokens
          cases htokens
      | token t' next =>
          rw [scanAll_token hfirst] at hending htokens
          obtain ⟨gap, u, hreads⟩ := exists_readsFrom hfirst
          cases hlast : scanNext next with
          | error e =>
              rw [scanAll_error hlast] at hending
              cases hending
          | ok last =>
              cases last with
              | finish span =>
                  rw [scanAll_finish hlast] at htokens
                  cases htokens
                  exact ⟨gap, u, next, hreads, (trivia_of_finish hlast).1⟩
              | token t'' next' =>
                  rw [scanAll_token hlast] at htokens
                  simp at htokens

/-! ## Strings and their literals -/

/-- The literal that a text starts with, behind blanks and comments, has the name of a character in it:
a backslash and a parenthesis where the next character would be spelled. -/
def NamesCharacter (text : String) : Prop :=
  ∃ before s pieces after, text.toList = before ++ '"' :: (pieces.flatten ++ '\\' :: '(' :: after) ∧
    Trivia before ('"' :: (pieces.flatten ++ '\\' :: '(' :: after)) ∧ List.Forall₂ Spelling s pieces

/-- **Strings are read back from every spelling, and have no others.** Every string can be spelled. With
its characters spelled in any way, one by one, and blanks and comments around the quotes, it is read as
one token that holds the string. A text that is read as one token that holds a string is such a literal,
unless it names a character. -/
theorem string_spellings [Text.CharNames] :
    (∀ s : String, ∃ pieces, List.Forall₂ Spelling s.toList pieces) ∧
    (∀ (s : String) (pieces : List (List Char)) (before after : List Char),
      List.Forall₂ Spelling s.toList pieces → Trivia before (quoted pieces ++ after) →
      Trivia after [] →
      tokenize (String.ofList (before ++ quoted pieces ++ after)) =
        .ok [⟨spanBehind before (quoted pieces), .value (.string s)⟩,
          ⟨.point (rowBehind (before ++ quoted pieces ++ after))
            (columnBehind (before ++ quoted pieces ++ after)), .endOfFile⟩]) ∧
    ∀ (text s : String) (span here : Span),
      tokenize text = .ok [⟨span, .value (.string s)⟩, ⟨here, .endOfFile⟩] →
      ¬NamesCharacter text →
      ∃ before pieces after, text.toList = before ++ quoted pieces ++ after ∧
        Trivia before (quoted pieces ++ after) ∧ Trivia after [] ∧
        List.Forall₂ Spelling s.toList pieces := by
  refine ⟨fun s => ?_, fun s pieces before after hs hbefore hafter => ?_,
    fun text s span here h hname => ?_⟩
  · induction s.toList with
    | nil => exact ⟨[], .nil⟩
    | cons c cs ih =>
        obtain ⟨u, hu⟩ := exists_spelling c
        obtain ⟨pieces, hpieces⟩ := ih
        exact ⟨u :: pieces, .cons hu hpieces⟩
  · have hstarts : StartsNone (quoted pieces ++ after) := by
      refine ⟨?_, ?_⟩
      · rintro x ⟨⟩
        decide
      · intro y _ hprefix
        exact absurd (List.cons_prefix_cons.mp hprefix).1 (by decide)
    have hpiece := piece_quoted hs after
    rw [String.ofList_toList] at hpiece
    have htokens := tokenize_between hbefore hstarts hpiece hafter
    rwa [← List.append_assoc] at htokens
  · obtain ⟨gap, u, next, hreads, hafter⟩ := readsFrom_of_tokenize h
    obtain ⟨hrest, hgap, -, hpiece, -, -⟩ := hreads
    obtain ⟨x, more, rfl⟩ := List.exists_cons_of_ne_nil hpiece.ne_nil
    have hscan := hpiece.takes x rfl ⟨1, 1, x :: more ++ next.rest⟩ next.rest (.refl _) rfl
    obtain rfl := eq_quote_of_scanKind hscan
    -- a piece is read alike from any cursor, so the one at the first column will do
    have hstring : scanString ⟨1, 1, '"' :: (more ++ next.rest)⟩ =
        .ok (.value (.string s), _) := hscan
    have htext : text.toList = gap ++ '"' :: (more ++ next.rest) := hrest
    cases spelledFrom_of_scanString rfl hstring with
    | @named s' w pieces hs' hv =>
        refine absurd ⟨gap, s', pieces, w, ?_, ?_, hs'⟩ hname
        · rw [htext, hv]
        · rw [← hv]
          exact hgap
    | @closed s' pieces hs hcs hv =>
        obtain rfl : s.toList = s' := hcs
        rw [Cursor.rest_skipping] at hv
        have hliteral : quoted pieces ++ next.rest = '"' :: (more ++ next.rest) := by
          simp [quoted, hv]
        refine ⟨gap, pieces, next.rest, ?_, ?_, hafter, hs⟩
        · rw [htext, List.append_assoc, hliteral]
        · rw [hliteral]
          exact hgap

attribute [local instance] Command.charNames

/-- A string spelled by two codes, one with digits of both cases, and a simple escape. -/
theorem string_spellings_mixed :
    tokenize "\"\\x4a\\u00eE\\n\"" = .ok [⟨⟨1, 1, 14⟩, .value (.string "Jî\n")⟩,
        ⟨⟨1, 15, 1⟩, .endOfFile⟩] ∧
      ∃ before pieces after, "\"\\x4a\\u00eE\\n\"".toList = before ++ quoted pieces ++ after ∧
        Trivia before (quoted pieces ++ after) ∧ Trivia after [] ∧
        List.Forall₂ Spelling "Jî\n".toList pieces := by
  have hspelled : List.Forall₂ Spelling "Jî\n".toList
      [['\\', 'x', '4', 'a'], ['\\', 'u', '0', '0', 'e', 'E'], ['\\', 'n']] :=
    .cons (.code (by decide) (by decide : List.Forall₂ HexDigit _ [4, 10]) (by decide)) <|
      .cons (.code (by decide) (by decide : List.Forall₂ HexDigit _ [0, 0, 14, 14]) (by decide)) <|
        .cons (.simple (by decide)) .nil
  have htokens := string_spellings.2.1 "Jî\n" _ [] [] hspelled (.none _) (.none _)
  refine ⟨htokens, string_spellings.2.2 _ _ _ _ htokens ?_⟩
  rintro ⟨before, s, pieces, after, htext, -, -⟩
  -- there is no parenthesis in the text
  have hparen : '(' ∈ "\"\\x4a\\u00eE\\n\"".toList := by
    rw [show "\"\\x4a\\u00eE\\n\"".toList = _ from htext]
    simp
  revert hparen
  decide

end IslandScript.Lexer
