import IslandScript.Proofs.Lexer.Cursor
import IslandScript.Proofs.Number.Read

/-!
# The piece of a text that a token is read from

A token is read from a piece of its text, and the piece alone decides about it: wherever the same
characters stand, they are read as the same kind of token (`Takes`), whatever stands before them on
their row. What comes behind may be other characters only where the text breaks off or a new row begins
(`BreaksOff`), since a longer token could start there otherwise: `1` and `.5` are one number when they
stand together.
-/

namespace IslandScript.Lexer

variable {α : Type}

/-! ## What may come behind a piece -/

/-- Some characters go on like others up to a place where they end or a new row begins. -/
inductive BreaksOff : List Char → List Char → Prop where
  | ends (v : List Char) : BreaksOff v []
  | breaks (v w : List Char) : BreaksOff v ('\n' :: w)
  | goesOn {v w : List Char} (x : Char) (h : BreaksOff v w) : BreaksOff (x :: v) (x :: w)

namespace BreaksOff

theorem refl (v : List Char) : BreaksOff v v := by
  induction v with
  | nil => exact .ends []
  | cons x v ih => exact ih.goesOn x

theorem append {v w : List Char} (h : BreaksOff v w) (u : List Char) :
    BreaksOff (u ++ v) (u ++ w) := by
  induction u with
  | nil => exact h
  | cons x u ih => exact ih.goesOn x

/-- A text may go on behind its end with a new row. -/
theorem newline (v w : List Char) : BreaksOff v (v ++ '\n' :: w) := by
  induction v with
  | nil => exact .breaks [] w
  | cons x v ih => exact ih.goesOn x

/-- A run that stops at the characters it stood before stops at what breaks off as well. -/
theorem stops {v w : List Char} (h : BreaksOff v w) {test : Char → Bool} (hbreak : test '\n' = false)
    (hv : ∀ x ∈ v.head?, test x = false) : ∀ x ∈ w.head?, test x = false := by
  cases h with
  | ends => exact fun x hx => nomatch hx
  | breaks =>
      intro x hx
      cases hx
      exact hbreak
  | goesOn y _ =>
      intro x hx
      cases hx
      exact hv _ rfl

end BreaksOff

/-! ## Readers -/

/-- A reader takes the characters `u` where `v` comes behind them, and so it does wherever they stand. -/
def TakesText (f : Cursor → List Char × Cursor) (u v : List Char) : Prop :=
  ∀ (c : Cursor) (w : List Char), BreaksOff v w → c.rest = u ++ w → f c = (u, c.skipping u w)

/-- A reader that can fail takes the characters `u` where `v` comes behind them and answers `a`, and so
it does wherever they stand. -/
def Takes (f : Cursor → Except LexError (α × Cursor)) (u v : List Char) (a : α) : Prop :=
  ∀ (c : Cursor) (w : List Char), BreaksOff v w → c.rest = u ++ w → f c = .ok (a, c.skipping u w)

/-- The cursor that a reader left is the one behind the characters that it took. -/
theorem TakesText.eq {f : Cursor → List Char × Cursor} {u v : List Char} (h : TakesText f u v)
    {c : Cursor} (hrest : c.rest = u ++ v) : f c = (u, c.skipping u v) :=
  h c v (.refl v) hrest

theorem takesText_takeWhile {test : Char → Bool} (hbreak : test '\n' = false) {u v : List Char}
    (hu : ∀ x ∈ u, test x = true) (hv : ∀ x ∈ v.head?, test x = false) :
    TakesText (·.takeWhile test) u v :=
  fun _ _ hw hrest => Cursor.takeWhile_of_append hrest hu (hw.stops hbreak hv)

/-- A text is a run of characters that pass a test and what comes behind it. -/
theorem exists_run (test : Char → Bool) (cs : List Char) :
    ∃ u v, cs = u ++ v ∧ (∀ x ∈ u, test x = true) ∧ ∀ x ∈ v.head?, test x = false := by
  refine ⟨cs.takeWhile test, cs.dropWhile test, List.takeWhile_append_dropWhile.symm, ?_, ?_⟩
  · intro x hx
    exact List.mem_takeWhile_imp hx
  · intro x hx
    have hnot := List.head?_dropWhile_not test cs
    rw [Option.mem_def.mp hx] at hnot
    exact hnot

/-! ## Numbers -/

/-- What a number token is made of. -/
theorem numberToken_eq_ok {first : Span} {text : List Char} {value : Option Float}
    {next next' : Cursor} {k : TokenKind String}
    (h : numberToken first text value next = .ok (k, next')) :
    ∃ n, value = some n ∧ k = .value (.number n) ∧ next' = next := by
  unfold numberToken at h
  cases value with
  | none => cases h
  | some n =>
      cases h
      exact ⟨n, rfl, rfl, rfl⟩

theorem isDecimalPart_newline : isDecimalPart '\n' = false := by decide

/-- The fraction of a decimal: a point and digits, or nothing. -/
theorem exists_takesText_scanFraction (cs : List Char) :
    ∃ u v, cs = u ++ v ∧ TakesText scanFraction u v := by
  by_cases hpoint : ∃ y more, cs = '.' :: y :: more ∧ isDecimalPart y = true
  · obtain ⟨y, more, rfl, hy⟩ := hpoint
    obtain ⟨digits, v, hmore, hdigits, hv⟩ := exists_run isDecimalPart more
    refine ⟨'.' :: y :: digits, v, by simp [hmore], ?_⟩
    intro c w hw hrest
    have hall : ∀ x ∈ y :: digits, isDecimalPart x = true := by
      intro x hx
      rcases List.mem_cons.mp hx with rfl | hx
      · exact hy
      · exact hdigits x hx
    have hhere : (c.current? == some '.' && (c.peek? 1).any isDecimalPart) = true := by
      simp [Cursor.current?, Cursor.peek?, hrest, hy]
    have htake : c.take 1 = (['.'], c.skipping ['.'] (y :: digits ++ w)) :=
      Cursor.take_append (u := ['.']) hrest
    have hrun := takesText_takeWhile isDecimalPart_newline hall hv (c.skipping ['.'] (y :: digits ++ w)) w
      hw (Cursor.rest_skipping _ _ _)
    simp only [scanFraction, hhere, htake, hrun, Cursor.skipping_skipping, if_true]
    rfl
  · refine ⟨[], cs, rfl, ?_⟩
    intro c w hw hrest
    rw [List.nil_append] at hrest
    have hhere : (c.current? == some '.' && (c.peek? 1).any isDecimalPart) = false := by
      cases hw with
      | ends => simp [Cursor.current?, hrest]
      | breaks => simp [Cursor.current?, hrest]
      | @goesOn v w x hw =>
          by_cases hx : x = '.'
          · subst hx
            have hv : ∀ y ∈ v.head?, isDecimalPart y = false := by
              intro y hy
              obtain ⟨more, rfl⟩ := List.head?_eq_some_iff.mp hy
              by_contra hdigit
              exact hpoint ⟨y, more, rfl, by simpa using hdigit⟩
            have hstop := hw.stops isDecimalPart_newline hv
            cases w with
            | nil => simp [Cursor.peek?, hrest]
            | cons y w => simp [Cursor.peek?, hrest, hstop y rfl]
          · simp [Cursor.current?, hrest, hx]
    rw [← hrest, Cursor.skipping_nil]
    simp only [scanFraction, hhere, Bool.false_eq_true, if_false]

theorem current?_isMarker (c : Cursor) :
    (c.current? == some 'e' || c.current? == some 'E') = c.rest.head?.any Number.isMarker := by
  unfold Cursor.current?
  cases c.rest.head? with
  | none => rfl
  | some x => simp [Number.isMarker]

/-- The exponent of a decimal, unless the text ends behind its marker: then the character behind that is
missing, and would be taken if there were one. -/
theorem exists_takesText_scanExponent (cs : List Char) :
    (∃ marker, cs = [marker] ∧ Number.isMarker marker = true) ∨
      ∃ u v, cs = u ++ v ∧ TakesText scanExponent u v := by
  by_cases hmarker : ∃ marker more, cs = marker :: more ∧ Number.isMarker marker = true
  · obtain ⟨marker, more, rfl, hm⟩ := hmarker
    cases more with
    | nil => exact .inl ⟨marker, rfl, hm⟩
    | cons y more =>
        obtain ⟨digits, v, hmore, hdigits, hv⟩ := exists_run isDecimalPart more
        refine .inr ⟨[marker, y] ++ digits, v, by simp [hmore], ?_⟩
        intro c w hw hrest
        rw [List.append_assoc] at hrest
        have hhere : (c.current? == some 'e' || c.current? == some 'E') = true := by
          rw [current?_isMarker, hrest]
          exact hm
        have htake : c.take 2 = ([marker, y], c.skipping [marker, y] (digits ++ w)) :=
          Cursor.take_append (u := [marker, y]) hrest
        have hrun := takesText_takeWhile isDecimalPart_newline hdigits hv
          (c.skipping [marker, y] (digits ++ w)) w hw (Cursor.rest_skipping _ _ _)
        simp only [scanExponent, hhere, htake, hrun, Cursor.skipping_skipping, if_true]
  · refine .inr ⟨[], cs, rfl, ?_⟩
    intro c w hw hrest
    rw [List.nil_append] at hrest
    have hstart : ∀ x ∈ cs.head?, Number.isMarker x = false := by
      intro x hx
      obtain ⟨more, rfl⟩ := List.head?_eq_some_iff.mp hx
      by_contra hm
      exact hmarker ⟨x, more, rfl, by simpa using hm⟩
    have hhere : (c.current? == some 'e' || c.current? == some 'E') = false := by
      rw [current?_isMarker, hrest]
      have hstop := hw.stops (by decide) hstart
      cases w with
      | nil => rfl
      | cons y w => exact hstop y rfl
    rw [← hrest, Cursor.skipping_nil]
    simp only [scanExponent, hhere, Bool.false_eq_true, if_false]

/-- At the end of a text the exponent is its marker alone. -/
theorem scanExponent_of_end {c : Cursor} {marker : Char} (hmarker : Number.isMarker marker = true)
    (hrest : c.rest = [marker]) : (scanExponent c).1 = [marker] := by
  have hhere : (c.current? == some 'e' || c.current? == some 'E') = true := by
    rw [current?_isMarker, hrest]
    exact hmarker
  have hend : (c.skipping [marker] []).rest = [] := Cursor.rest_skipping _ _ _
  have htake : c.take 2 = ([marker], c.skipping [marker] []) := by
    simp only [Cursor.take, Cursor.bump?_cons hrest, Cursor.bump?_nil hend]
  have hrun : (c.skipping [marker] []).takeWhile isDecimalPart = ([], _) :=
    Cursor.takeWhile_of_append hend (by simp) (by simp)
  simp only [scanExponent, hhere, htake, hrun, if_true, List.append_nil]

/-- Only digits, letters, a point, signs and underscores are in a text whose other characters make a
number. -/
theorem isNumeral_of_withoutUnderscores {u : List Char}
    (h : ∀ x ∈ withoutUnderscores u, Number.isNumeral x = true) :
    ∀ x ∈ u, x = '_' ∨ Number.isNumeral x = true := by
  intro x hx
  by_cases hunder : x = '_'
  · exact .inl hunder
  · refine .inr (h x ?_)
    unfold withoutUnderscores
    rw [List.mem_filter]
    exact ⟨hx, by simpa using hunder⟩

/-- A decimal is read from digits, the fraction and the exponent. -/
theorem takes_scanDecimal {c next : Cursor} {k : TokenKind String}
    (h : scanDecimal c = .ok (k, next)) :
    ∃ u, c.rest = u ++ next.rest ∧ Takes scanDecimal u next.rest k ∧
      (∀ x ∈ u, x = '_' ∨ Number.isNumeral x = true) ∧
      ∀ x ∈ c.rest.head?, isDecimalPart x = true → u ≠ [] := by
  obtain ⟨whole, rest₁, hrest, hwhole, hstop⟩ := exists_run isDecimalPart c.rest
  have htakes₁ := takesText_takeWhile isDecimalPart_newline hwhole hstop
  obtain ⟨fraction, rest₂, rfl, htakes₂⟩ := exists_takesText_scanFraction rest₁
  have hrest₁ : (c.skipping whole (fraction ++ rest₂)).rest = fraction ++ rest₂ :=
    Cursor.rest_skipping _ _ _
  have hrest₂ : ((c.skipping whole (fraction ++ rest₂)).skipping fraction rest₂).rest = rest₂ :=
    Cursor.rest_skipping _ _ _
  simp only [scanDecimal, htakes₁.eq hrest, htakes₂.eq hrest₁] at h
  obtain ⟨n, hvalue, rfl, hnext⟩ := numberToken_eq_ok h
  rcases exists_takesText_scanExponent rest₂ with ⟨marker, rfl, hmarker⟩ | ⟨exponent, v, rfl, htakes₃⟩
  · -- Such a text is no number, as its exponent has no digits.
    exfalso
    have hunder : (marker != '_') = true := by
      rw [bne_iff_ne]
      rintro rfl
      exact absurd hmarker (by decide)
    rw [scanExponent_of_end hmarker hrest₂] at hvalue
    simp only [withoutUnderscores, List.filter_append, List.filter_cons, hunder, if_true,
      List.filter_nil] at hvalue
    rw [Number.readDecimal?_append_eq_none hmarker] at hvalue
    cases hvalue
  · rw [htakes₃.eq hrest₂] at hvalue hnext
    dsimp only at hvalue hnext
    rw [Cursor.skipping_skipping, Cursor.skipping_skipping] at hnext
    have hv : next.rest = v := by rw [hnext, Cursor.rest_skipping]
    refine ⟨whole ++ fraction ++ exponent, ?_, ?_, ?_, ?_⟩
    · rw [hrest, hv]
      simp only [List.append_assoc]
    · rw [hv]
      intro d w hw hd
      rw [List.append_assoc, List.append_assoc] at hd
      have hscan₁ := htakes₁ d (fraction ++ (exponent ++ w)) ((hw.append exponent).append fraction) hd
      have hscan₂ := htakes₂ (d.skipping whole (fraction ++ (exponent ++ w))) (exponent ++ w)
        (hw.append exponent) (Cursor.rest_skipping _ _ _)
      have hscan₃ := htakes₃
        ((d.skipping whole (fraction ++ (exponent ++ w))).skipping fraction (exponent ++ w)) w hw
        (Cursor.rest_skipping _ _ _)
      simp only [scanDecimal, hscan₁, hscan₂, hscan₃, numberToken, hvalue]
      rw [Cursor.skipping_skipping, Cursor.skipping_skipping, List.append_assoc]
    · exact isNumeral_of_withoutUnderscores (Number.isNumeral_of_readDecimal? hvalue)
    · intro x hx hpart hnil
      rw [List.append_eq_nil_iff, List.append_eq_nil_iff] at hnil
      rw [hrest, hnil.1.1, List.nil_append] at hx
      rw [hstop x hx] at hpart
      cases hpart

/-- A binary or hexadecimal integer is read from its marker, one character and digits. -/
theorem takes_scanRadix {c next : Cursor} {k : TokenKind String} {radix : Nat} {isPart : Char → Bool}
    {marker more : List Char} (hbreak : isPart '\n' = false) (hlength : marker.length = 2)
    (hmarker : marker.all Number.isNumeral = true) (hrest : c.rest = marker ++ more)
    (h : scanRadix c radix isPart = .ok (k, next)) :
    ∃ u, more = u ++ next.rest ∧ Takes (scanRadix · radix isPart) (marker ++ u) next.rest k ∧
      ∀ x ∈ marker ++ u, x = '_' ∨ Number.isNumeral x = true := by
  have htake (d : Cursor) (w : List Char) (hd : d.rest = marker ++ w) :
      d.take 2 = (marker, d.skipping marker w) := by
    rw [← hlength]
    exact Cursor.take_append hd
  have hmore : (c.skipping marker more).rest = more := Cursor.rest_skipping _ _ _
  unfold scanRadix at h
  rw [htake c more hrest] at h
  cases more with
  | nil =>
      -- Without a digit there is no number.
      exfalso
      have hend : (c.skipping marker []).take 1 = ([], c.skipping marker []) := by
        simp only [Cursor.take, Cursor.bump?_nil hmore]
      have hrun : (c.skipping marker []).takeWhile isPart = ([], _) :=
        Cursor.takeWhile_of_append hmore (by simp) (by simp)
      simp only [hend, hrun] at h
      obtain ⟨n, hvalue, -⟩ := numberToken_eq_ok h
      cases hvalue
  | cons lead more =>
      obtain ⟨digits, v, rfl, hdigits, hstop⟩ := exists_run isPart more
      have htakes := takesText_takeWhile hbreak hdigits hstop
      have hlead (d : Cursor) (w : List Char) :
          (d.skipping marker (lead :: w)).take 1 =
            ([lead], (d.skipping marker (lead :: w)).skipping [lead] w) :=
        Cursor.take_append (u := [lead]) (Cursor.rest_skipping _ _ _)
      have hrun := htakes.eq (Cursor.rest_skipping (c.skipping marker (lead :: (digits ++ v))) [lead]
        (digits ++ v))
      simp only [hlead, hrun] at h
      obtain ⟨n, hvalue, rfl, rfl⟩ := numberToken_eq_ok h
      rw [Cursor.rest_skipping]
      refine ⟨lead :: digits, rfl, ?_, ?_⟩
      · intro d w hw hd
        rw [List.append_assoc, List.cons_append] at hd
        have hrun' := htakes ((d.skipping marker (lead :: (digits ++ w))).skipping [lead] (digits ++ w))
          w hw (Cursor.rest_skipping _ _ _)
        simp only [scanRadix, htake d _ hd, hlead, hrun', numberToken, hvalue]
        rw [Cursor.skipping_skipping, Cursor.skipping_skipping]
        rfl
      · obtain ⟨i, hi, -⟩ := Option.map_eq_some_iff.mp hvalue
        have hall := isNumeral_of_withoutUnderscores (Number.isNumeral_of_readInt64? hi)
        intro x hx
        rcases List.mem_append.mp hx with hx | hx
        · exact .inr (List.all_eq_true.mp hmarker x hx)
        · exact hall x hx

theorem head?_of_startsWith {c : Cursor} {x y : Char} (h : c.startsWith [x, y] = true) :
    ∃ more, c.rest = [x, y] ++ more := by
  obtain ⟨more, hmore⟩ := List.isPrefixOf_iff_prefix.mp h
  exact ⟨more, hmore.symm⟩

theorem startsWith_append (c : Cursor) (u : List Char) {w : List Char} (h : c.rest = u ++ w) :
    c.startsWith u = true := by
  unfold Cursor.startsWith
  rw [h, List.isPrefixOf_iff_prefix]
  exact List.prefix_append u w

/-- A text does not start with two characters if others do not and it goes on like these. -/
theorem startsWith_eq_false {c d : Cursor} {x y : Char} (hy : y ≠ '\n')
    (h : c.startsWith [x, y] = false) {u v w : List Char} (hu : u ≠ []) (hw : BreaksOff v w)
    (hc : c.rest = u ++ v) (hd : d.rest = u ++ w) : d.startsWith [x, y] = false := by
  unfold Cursor.startsWith at h ⊢
  rw [hc] at h
  rw [hd]
  cases u with
  | nil => exact absurd rfl hu
  | cons a u =>
      cases u with
      | cons b u => exact h
      | nil =>
          cases hw with
          | ends => simp [List.isPrefixOf]
          | breaks => simp [List.isPrefixOf, hy]
          | goesOn z _ => simpa [List.isPrefixOf] using h

/-- A number is read from digits and what may stand with them in a number. -/
theorem takes_scanNumber {c next : Cursor} {k : TokenKind String} {x : Char}
    (hx : x ∈ c.rest.head?) (hdigit : x.isDigit = true) (h : scanNumber c = .ok (k, next)) :
    ∃ u, u ≠ [] ∧ c.rest = u ++ next.rest ∧ Takes scanNumber u next.rest k ∧
      ∀ x ∈ u, x = '_' ∨ Number.isNumeral x = true := by
  unfold scanNumber at h
  split at h
  next hb =>
    obtain ⟨more, hrest⟩ := head?_of_startsWith hb
    obtain ⟨u, rfl, htakes, hall⟩ := takes_scanRadix (by decide) rfl (by decide) hrest h
    refine ⟨_, by simp, hrest, ?_, hall⟩
    intro d w hw hd
    have hstart := startsWith_append d ['0', 'b'] hd
    simp only [scanNumber, hstart, if_true]
    exact htakes d w hw hd
  next hb =>
    rw [Bool.not_eq_true] at hb
    split at h
    next hhex =>
      obtain ⟨more, hrest⟩ := head?_of_startsWith hhex
      obtain ⟨u, rfl, htakes, hall⟩ := takes_scanRadix (by decide) rfl (by decide) hrest h
      refine ⟨_, by simp, hrest, ?_, hall⟩
      intro d w hw hd
      have hstart := startsWith_append d ['0', 'x'] hd
      have hother := startsWith_eq_false (by decide) hb (by simp) hw hrest hd
      simp only [scanNumber, hstart, hother, if_true, Bool.false_eq_true, if_false]
      exact htakes d w hw hd
    next hhex =>
      rw [Bool.not_eq_true] at hhex
      obtain ⟨u, hrest, htakes, hall, hne⟩ := takes_scanDecimal h
      have hu : u ≠ [] := hne x hx (by simp [isDecimalPart, hdigit])
      refine ⟨u, hu, hrest, ?_, hall⟩
      intro d w hw hd
      have hb' := startsWith_eq_false (by decide) hb hu hw hrest hd
      have hhex' := startsWith_eq_false (by decide) hhex hu hw hrest hd
      simp only [scanNumber, hb', hhex', Bool.false_eq_true, if_false]
      exact htakes d w hw hd

theorem kind_of_scanNumber {c next : Cursor} {k : TokenKind String}
    (h : scanNumber c = .ok (k, next)) : ∃ n, k = .value (.number n) := by
  unfold scanNumber scanRadix scanDecimal at h
  split at h
  next =>
    obtain ⟨n, -, hk, -⟩ := numberToken_eq_ok h
    exact ⟨n, hk⟩
  next =>
    split at h
    next =>
      obtain ⟨n, -, hk, -⟩ := numberToken_eq_ok h
      exact ⟨n, hk⟩
    next =>
      obtain ⟨n, -, hk, -⟩ := numberToken_eq_ok h
      exact ⟨n, hk⟩

/-! ## Words -/

theorem takes_scanWord {c : Cursor} {x : Char} (hx : x ∈ c.rest.head?) (hstart : isWordStart x = true) :
    ∃ u v, u ≠ [] ∧ c.rest = u ++ v ∧ (∀ x ∈ u, isWordPart x = true) ∧
      ∀ (d : Cursor) (w : List Char), BreaksOff v w → d.rest = u ++ w →
        scanWord d = (wordKind u, d.skipping u w) := by
  obtain ⟨u, v, hrest, hu, hv⟩ := exists_run isWordPart c.rest
  have hne : u ≠ [] := by
    rintro rfl
    rw [List.nil_append] at hrest
    have hstop := hv x (hrest ▸ hx)
    rw [isWordPart_of_isWordStart hstart] at hstop
    cases hstop
  refine ⟨u, v, hne, hrest, hu, ?_⟩
  intro d w hw hd
  have hbreak : isWordPart '\n' = false := by decide
  have hrun := takesText_takeWhile hbreak hu hv d w hw hd
  simp only [scanWord, hrun]

/-! ## Strings -/

/-- The digits of a code are as many as its letter says, whatever comes behind them. -/
theorem takes_scanCode {c next : Cursor} {width : Nat} {y : Char} (h : scanCode c width = .ok (y, next)) :
    ∃ u, c.rest = u ++ next.rest ∧ ∀ (d : Cursor) (w : List Char), d.rest = u ++ w →
      scanCode d width = .ok (y, d.skipping u w) := by
  have htake := c.take_rest width
  by_cases hshort : c.rest.length < width
  · exfalso
    have hfew : (c.take width).1.length < width := by
      rw [htake.1, List.length_take]
      omega
    simp [scanCode, hfew] at h
  · obtain ⟨digits, rest, hlength, hrest⟩ :
        ∃ digits rest, digits.length = width ∧ c.rest = digits ++ rest := by
      refine ⟨c.rest.take width, c.rest.drop width, ?_, (List.take_append_drop _ _).symm⟩
      rw [List.length_take]
      omega
    have hscan {d : Cursor} {w : List Char} (hd : d.rest = digits ++ w) :
        d.take width = (digits, d.skipping digits w) := by
      rw [← hlength]
      exact Cursor.take_append hd
    simp only [scanCode, hscan hrest, hlength, Nat.lt_irrefl, if_false] at h
    split at h
    next z hcode =>
      cases h
      refine ⟨digits, by rw [hrest, Cursor.rest_skipping], ?_⟩
      intro d w hd
      simp only [scanCode, hscan hd, hlength, Nat.lt_irrefl, if_false, hcode]
    next => cases h

section

variable [Text.CharNames]

/-- The name of a character is read through its parenthesis, whatever comes behind that. -/
theorem takes_scanCharName {c next : Cursor} {y : Char} (h : scanCharName c = .ok (y, next)) :
    ∃ u, c.rest = u ++ next.rest ∧ ∀ (d : Cursor) (w : List Char), d.rest = u ++ w →
      scanCharName d = .ok (y, d.skipping u w) := by
  obtain ⟨name, rest, hrest, hname, hstop⟩ := exists_run (· != ')') c.rest
  have hrun {d : Cursor} {w : List Char} (hd : d.rest = name ++ w)
      (hw : ∀ x ∈ w.head?, (x != ')') = false) :
      d.takeWhile (· != ')') = (name, d.skipping name w) :=
    Cursor.takeWhile_of_append hd hname hw
  cases rest with
  | nil =>
      have hend : (c.skipping name []).eat? ')' = none := by
        rw [Cursor.eat?, Cursor.bump?_nil (Cursor.rest_skipping _ _ _)]
      simp only [scanCharName, hrun hrest hstop, hend] at h
      cases h
  | cons close rest =>
      obtain rfl : close = ')' := by simpa using hstop close rfl
      have heat {d : Cursor} {w : List Char} :
          (d.skipping name (')' :: w)).eat? ')' =
            some ((d.skipping name (')' :: w)).skipping [')'] w) :=
        Cursor.eat?_cons (Cursor.rest_skipping _ _ _)
      simp only [scanCharName, hrun hrest hstop, heat] at h
      split at h
      next z hchar =>
        cases h
        refine ⟨name ++ [')'], by simp [hrest, Cursor.rest_skipping], ?_⟩
        intro d w hd
        have hd' : d.rest = name ++ ')' :: w := by simpa using hd
        simp only [scanCharName, hrun hd' (by simp), heat, hchar]
        rw [Cursor.skipping_skipping]
      next => cases h

/-- An escape is read from its own characters, whatever comes behind it. -/
theorem takes_scanEscape {c next : Cursor} {y : Char} (h : scanEscape c = .ok (y, next)) :
    ∃ u, c.rest = u ++ next.rest ∧ ∀ (d : Cursor) (w : List Char), d.rest = u ++ w →
      scanEscape d = .ok (y, d.skipping u w) := by
  cases hrest : c.rest with
  | nil => simp [scanEscape, Cursor.bump?_nil hrest] at h
  | cons x more =>
      have hmore : (c.skipping [x] more).rest = more := Cursor.rest_skipping _ _ _
      have hbump {d : Cursor} {w : List Char} (hd : d.rest = x :: w) :
          d.bump? = some (x, d.skipping [x] w) := Cursor.bump?_cons hd
      simp only [scanEscape, hbump hrest] at h
      cases hsimple : simpleEscape? x with
      | some z =>
          rw [hsimple] at h
          cases h
          refine ⟨[x], by rw [hmore]; rfl, ?_⟩
          intro d w hd
          simp only [scanEscape, hbump hd, hsimple]
          rfl
      | none =>
          rw [hsimple] at h
          cases hwidth : codeWidth? x with
          | some width =>
              rw [hwidth] at h
              obtain ⟨digits, hdigits, htakes⟩ := takes_scanCode h
              refine ⟨x :: digits, by rw [← hmore, hdigits]; rfl, ?_⟩
              intro d w hd
              have hcode := htakes (d.skipping [x] (digits ++ w)) w (Cursor.rest_skipping _ _ _)
              simp only [scanEscape, hbump hd, hsimple, hwidth, List.append_eq, hcode,
                Cursor.skipping_skipping]
              rfl
          | none =>
              rw [hwidth] at h
              dsimp only at h
              split at h
              case isFalse => cases h
              case isTrue hparen =>
                obtain ⟨name, hname, htakes⟩ := takes_scanCharName h
                refine ⟨x :: name, by rw [← hmore, hname]; rfl, ?_⟩
                intro d w hd
                have hchar := htakes (d.skipping [x] (name ++ w)) w (Cursor.rest_skipping _ _ _)
                simp only [scanEscape, hbump hd, hsimple, hwidth, hparen, if_true, List.append_eq, hchar,
                  Cursor.skipping_skipping]
                rfl

/-- The characters of a string one by one. -/
theorem scanCharacters_cons {c : Cursor} {x : Char} {v : List Char} (hrest : c.rest = x :: v) (b : Char)
    (bound read : List Char) :
    scanCharacters (b :: bound) read c =
      if x = '"' then .ok (read.reverse, c.skipping [x] v)
      else if x = '\\' then
        match scanEscape (c.skipping [x] v) with
        | .error e => .error e
        | .ok (y, next) => scanCharacters bound (y :: read) next
      else scanCharacters bound (x :: read) (c.skipping [x] v) := by
  rw [scanCharacters, Cursor.bump?_cons hrest]
  split
  next h => cases h
  next h =>
    cases h
    rw [if_pos rfl]
  next h =>
    cases h
    refine Eq.symm ((if_neg (by decide)).trans ((if_pos rfl).trans ?_))
    cases scanEscape (c.skipping ['\\'] v) <;> rfl
  next y next hquote hescape h =>
    cases h
    have hquote' : x ≠ '"' := by
      intro hx
      exact hquote hx
    have hescape' : x ≠ '\\' := by
      intro hx
      exact hescape hx
    rw [if_neg hquote', if_neg hescape']

/-- The characters of a string are read through its closing quote, whatever comes behind that. -/
theorem takes_scanCharacters {bound read cs : List Char} {c next : Cursor}
    (h : scanCharacters bound read c = .ok (cs, next)) :
    ∃ u, c.rest = u ++ next.rest ∧ (∃ more, u = more ++ ['"']) ∧
      ∀ (bound' : List Char) (d : Cursor) (w : List Char), u.length ≤ bound'.length →
        d.rest = u ++ w → scanCharacters bound' read d = .ok (cs, d.skipping u w) := by
  induction bound generalizing read c with
  | nil => cases h
  | cons b bound ih =>
      cases hrest : c.rest with
      | nil => simp [scanCharacters, Cursor.bump?_nil hrest] at h
      | cons x v =>
          rw [scanCharacters_cons hrest] at h
          by_cases hquote : x = '"'
          · rw [if_pos hquote] at h
            cases h
            refine ⟨[x], by rw [Cursor.rest_skipping]; rfl, ⟨[], by rw [hquote]; rfl⟩, ?_⟩
            intro bound' d w hbound hd
            obtain ⟨b', bound', rfl⟩ := List.exists_cons_of_length_pos hbound
            rw [scanCharacters_cons hd, if_pos hquote]
            rfl
          · rw [if_neg hquote] at h
            by_cases hescape : x = '\\'
            · rw [if_pos hescape] at h
              cases hscan : scanEscape (c.skipping [x] v) with
              | error e =>
                  rw [hscan] at h
                  cases h
              | ok scanned =>
                  obtain ⟨y, mid⟩ := scanned
                  rw [hscan] at h
                  obtain ⟨escape, hv, htakes⟩ := takes_scanEscape hscan
                  rw [Cursor.rest_skipping] at hv
                  obtain ⟨u, hmid, ⟨more, hmore⟩, hrun⟩ := ih h
                  refine ⟨x :: (escape ++ u), by rw [hv, hmid]; simp,
                    ⟨x :: (escape ++ more), by rw [hmore]; simp⟩, ?_⟩
                  intro bound' d w hbound hd
                  rw [List.length_cons, List.length_append] at hbound
                  obtain ⟨b', bound', rfl⟩ :=
                    List.exists_cons_of_length_pos (by omega : 0 < bound'.length)
                  have hd' : d.rest = x :: (escape ++ (u ++ w)) := by simpa using hd
                  rw [List.length_cons] at hbound
                  have hscan' := htakes (d.skipping [x] (escape ++ (u ++ w))) (u ++ w)
                    (Cursor.rest_skipping _ _ _)
                  have hrun' := hrun bound' _ w (by omega)
                    (Cursor.rest_skipping (d.skipping [x] (escape ++ (u ++ w))) escape (u ++ w))
                  rw [scanCharacters_cons hd', if_neg hquote, if_pos hescape, hscan']
                  dsimp only
                  rw [hrun', Cursor.skipping_skipping, Cursor.skipping_skipping]
                  rfl
            · rw [if_neg hescape] at h
              obtain ⟨u, hv, ⟨more, hmore⟩, hrun⟩ := ih h
              rw [Cursor.rest_skipping] at hv
              refine ⟨x :: u, by rw [hv]; rfl, ⟨x :: more, by rw [hmore]; rfl⟩, ?_⟩
              intro bound' d w hbound hd
              rw [List.length_cons] at hbound
              obtain ⟨b', bound', rfl⟩ := List.exists_cons_of_length_pos (Nat.zero_lt_of_lt hbound)
              have hrun' := hrun bound' (d.skipping [x] (u ++ w)) w (Nat.le_of_succ_le_succ hbound)
                (Cursor.rest_skipping _ _ _)
              have hd' : d.rest = x :: (u ++ w) := hd
              rw [scanCharacters_cons hd', if_neg hquote, if_neg hescape, hrun',
                Cursor.skipping_skipping]
              rfl

/-- A string is read from its quotes and what is between them. -/
theorem takes_scanString {c next : Cursor} {k : TokenKind String} (hx : '"' ∈ c.rest.head?)
    (h : scanString c = .ok (k, next)) :
    ∃ u, c.rest = '"' :: (u ++ '"' :: next.rest) ∧
      Takes scanString ('"' :: (u ++ ['"'])) next.rest k := by
  obtain ⟨more, hrest⟩ := List.head?_eq_some_iff.mp hx
  have htake {d : Cursor} {w : List Char} (hd : d.rest = '"' :: w) :
      d.take 1 = (['"'], d.skipping ['"'] w) := Cursor.take_append (u := ['"']) hd
  simp only [scanString, htake hrest] at h
  cases hscan : scanCharacters (c.skipping ['"'] more).rest [] (c.skipping ['"'] more) with
  | error e =>
      rw [hscan] at h
      cases h
  | ok scanned =>
      obtain ⟨cs, mid⟩ := scanned
      rw [hscan] at h
      cases h
      obtain ⟨_, hmore, ⟨u, rfl⟩, hrun⟩ := takes_scanCharacters hscan
      rw [Cursor.rest_skipping] at hmore
      refine ⟨u, by rw [hrest, hmore]; simp, ?_⟩
      intro d w _ hd
      have hd' : (d.skipping ['"'] (u ++ ['"'] ++ w)).rest = u ++ ['"'] ++ w :=
        Cursor.rest_skipping _ _ _
      have hrun' := hrun (d.skipping ['"'] (u ++ ['"'] ++ w)).rest _ w (by rw [hd']; simp) hd'
      simp only [scanString, htake hd, List.append_eq, hrun']
      rw [Cursor.skipping_skipping]
      rfl

theorem kind_of_scanString {c next : Cursor} {k : TokenKind String}
    (h : scanString c = .ok (k, next)) : ∃ s, k = .value (.string s) := by
  unfold scanString at h
  dsimp only at h
  split at h
  next => cases h
  next cs _ _ =>
    cases h
    exact ⟨String.ofList cs, rfl⟩

end

/-! ## Symbols -/

/-- No symbol is longer than two characters, so what comes behind these does not matter. -/
theorem startOf?_take (cs : List Char) : Symbol.startOf? cs = Symbol.startOf? (cs.take 2) := by
  have hlength : ∀ s : Symbol, s.text.toList.length ≤ 2 := by
    intro s
    cases s <;> decide
  unfold Symbol.startOf?
  congr 1
  funext s
  rw [Bool.eq_iff_iff, List.isPrefixOf_iff_prefix, List.isPrefixOf_iff_prefix, List.prefix_take_iff]
  exact ⟨fun h => ⟨h, hlength s⟩, fun h => h.1⟩

theorem startOf?_symbol_newline (s : Symbol) (w : List Char) :
    Symbol.startOf? (s.text.toList ++ '\n' :: w) = some s := by
  cases s <;> rfl

theorem startOf?_symbol_end (s : Symbol) : Symbol.startOf? s.text.toList = some s := by
  cases s <;> rfl

theorem startOf?_breaksOff {s : Symbol} {v w : List Char} (hw : BreaksOff v w)
    (h : Symbol.startOf? (s.text.toList ++ v) = some s) :
    Symbol.startOf? (s.text.toList ++ w) = some s := by
  cases hw with
  | ends =>
      rw [List.append_nil]
      exact startOf?_symbol_end s
  | breaks _ w => exact startOf?_symbol_newline s w
  | @goesOn v w x _ =>
      obtain ⟨y, ys, htext, -⟩ := symbol_text s
      rw [startOf?_take, htext] at h ⊢
      cases ys with
      | nil => exact h
      | cons z zs => exact h

theorem takes_scanSymbol {c next : Cursor} {k : TokenKind String} {x : Char} (hx : x ∈ c.rest.head?)
    (h : scanSymbol c x = .ok (k, next)) :
    ∃ u, u ≠ [] ∧ c.rest = u ++ next.rest ∧ Takes (scanSymbol · x) u next.rest k ∧
      (isLineEnd x = true ∧ k = .endOfLine ∧ u = [x] ∨
        isLineEnd x = false ∧ ∃ s : Symbol, k = .symbol s ∧ u = s.text.toList) := by
  obtain ⟨more, hrest⟩ := List.head?_eq_some_iff.mp hx
  unfold scanSymbol at h
  split at h
  next hline =>
    have htake {d : Cursor} {w : List Char} (hd : d.rest = x :: w) :
        d.take 1 = ([x], d.skipping [x] w) := Cursor.take_append (u := [x]) hd
    rw [htake hrest] at h
    cases h
    rw [Cursor.rest_skipping]
    refine ⟨[x], by simp, hrest, ?_, .inl ⟨hline, rfl, rfl⟩⟩
    intro d w _ hd
    simp only [scanSymbol, hline, if_true, htake hd]
    rfl
  next hline =>
    split at h
    next s hs =>
      cases h
      have hprefix : s.text.toList.isPrefixOf c.rest = true :=
        List.find?_some (p := fun s : Symbol => s.text.toList.isPrefixOf c.rest) hs
      obtain ⟨v, hv⟩ := List.isPrefixOf_iff_prefix.mp hprefix
      have htake {d : Cursor} {w : List Char} (hd : d.rest = s.text.toList ++ w) :
          d.take s.text.length = (s.text.toList, d.skipping s.text.toList w) := by
        rw [← String.length_toList]
        exact Cursor.take_append hd
      rw [htake hv.symm, Cursor.rest_skipping]
      obtain ⟨y, ys, htext, -⟩ := symbol_text s
      refine ⟨s.text.toList, by rw [htext]; simp, hv.symm, ?_,
        .inr ⟨by simpa using hline, s, rfl, rfl⟩⟩
      intro d w hw hd
      rw [← hv] at hs
      have hs' := startOf?_breaksOff hw hs
      rw [← hd] at hs'
      simp only [scanSymbol, hline, Bool.false_eq_true, if_false, hs', htake hd]
    next => cases h

theorem getLast?_symbol_text (s : Symbol) : ∀ y ∈ s.text.toList.getLast?, y ≠ '\r' := by
  intro y hy
  cases s <;> (cases hy; decide)

/-! ## Tokens -/

/-- The characters `u` are the piece of a token of the kind `k` where `v` comes behind them. -/
structure Piece [Text.CharNames] (u v : List Char) (k : TokenKind String) : Prop where
  ne_nil : u ≠ []
  takes : ∀ x ∈ u.head?, Takes (scanKind · x) u v k
  kind_ne : k ≠ .endOfFile
  /-- Only the end of a line can be a carriage return. -/
  getLast_ne : k ≠ .endOfLine → ∀ y ∈ u.getLast?, y ≠ '\r'

theorem wordKind_ne (word : List Char) : wordKind word ≠ .endOfFile := by
  unfold wordKind
  split
  next => simp
  next => split <;> simp

/-- A piece at the start of a text starts with its first character. -/
theorem eq_of_mem_head? {cs u v : List Char} {x y : Char} (hx : x ∈ cs.head?) (hcs : cs = u ++ v)
    (hy : y ∈ u.head?) : y = x := by
  obtain ⟨more, rfl⟩ := List.head?_eq_some_iff.mp hy
  rw [hcs] at hx
  exact Option.some_inj.mp hx

section

variable {c next : Cursor} {k : TokenKind String} {x : Char}

variable [Text.CharNames]

theorem exists_piece_number (hx : x ∈ c.rest.head?) (hdigit : x.isDigit = true)
    (h : scanNumber c = .ok (k, next)) : ∃ u, c.rest = u ++ next.rest ∧ Piece u next.rest k := by
  obtain ⟨u, hu, hrest, htakes, hall⟩ := takes_scanNumber hx hdigit h
  refine ⟨u, hrest, hu, ?_, ?_, ?_⟩
  · intro y hy c w hw hc
    rw [eq_of_mem_head? hx hrest hy]
    simp only [scanKind, hdigit, if_true]
    exact htakes c w hw hc
  · obtain ⟨n, rfl⟩ := kind_of_scanNumber h
    simp
  · intro _ y hy hreturn
    have hnumeral := hall y (List.mem_of_getLast? hy)
    rw [hreturn] at hnumeral
    exact absurd hnumeral (by decide)

theorem exists_piece_word (hx : x ∈ c.rest.head?) (hdigit : ¬ x.isDigit = true)
    (hstart : isWordStart x = true) (h : scanWord c = (k, next)) :
    ∃ u, c.rest = u ++ next.rest ∧ Piece u next.rest k := by
  obtain ⟨u, v, hu, hrest, hall, htakes⟩ := takes_scanWord hx hstart
  rw [htakes c v (.refl v) hrest] at h
  cases h
  rw [Cursor.rest_skipping]
  refine ⟨u, hrest, hu, ?_, wordKind_ne u, ?_⟩
  · intro y hy c w hw hc
    rw [eq_of_mem_head? hx hrest hy]
    simp only [scanKind, hdigit, hstart, Bool.false_eq_true, if_true, if_false]
    rw [htakes c w hw hc]
  · intro _ y hy hreturn
    have hpart := hall y (List.mem_of_getLast? hy)
    rw [hreturn] at hpart
    exact absurd hpart (by decide)

theorem exists_piece_string (hx : '"' ∈ c.rest.head?) (h : scanString c = .ok (k, next)) :
    ∃ u, c.rest = u ++ next.rest ∧ Piece u next.rest k := by
  obtain ⟨u, hrest, htakes⟩ := takes_scanString hx h
  refine ⟨'"' :: (u ++ ['"']), by rw [hrest]; simp, by simp, ?_, ?_, ?_⟩
  · intro y hy
    cases hy
    exact htakes
  · obtain ⟨s, rfl⟩ := kind_of_scanString h
    simp
  · intro _ y hy
    rw [← List.cons_append, List.getLast?_append] at hy
    cases hy
    decide

theorem exists_piece_symbol (hx : x ∈ c.rest.head?) (hdigit : ¬ x.isDigit = true)
    (hstart : ¬ isWordStart x = true) (hquote : ¬ (x == '"') = true)
    (h : scanSymbol c x = .ok (k, next)) : ∃ u, c.rest = u ++ next.rest ∧ Piece u next.rest k := by
  obtain ⟨u, hu, hrest, htakes, hkind⟩ := takes_scanSymbol hx h
  refine ⟨u, hrest, hu, ?_, ?_, ?_⟩
  · intro y hy c w hw hc
    rw [eq_of_mem_head? hx hrest hy]
    simp only [scanKind, hdigit, hstart, hquote, Bool.false_eq_true, if_false]
    exact htakes c w hw hc
  · rcases hkind with ⟨-, rfl, -⟩ | ⟨-, s, rfl, -⟩ <;> simp
  · intro hline
    rcases hkind with ⟨-, hend, -⟩ | ⟨-, s, -, rfl⟩
    · exact absurd hend hline
    · exact getLast?_symbol_text s

/-- A token is read from the characters up to where the lexer goes on. -/
theorem exists_piece (hx : x ∈ c.rest.head?) (h : scanKind c x = .ok (k, next)) :
    ∃ u, c.rest = u ++ next.rest ∧ Piece u next.rest k := by
  unfold scanKind at h
  split at h
  next hdigit => exact exists_piece_number hx hdigit h
  next hdigit =>
    split at h
    next hstart => exact exists_piece_word hx hdigit hstart (Except.ok.inj h)
    next hstart =>
      split at h
      next hquote =>
        rw [beq_iff_eq] at hquote
        subst hquote
        exact exists_piece_string hx h
      next hquote => exact exists_piece_symbol hx hdigit hstart hquote h

/-- The characters that the lexer passes over with a token are its piece. -/
theorem piece_of_scanKind {u v : List Char} (hx : x ∈ u.head?) (hrest : c.rest = u ++ v)
    (h : scanKind c x = .ok (k, next)) (hnext : next.rest = v) : Piece u v k := by
  have hstart : x ∈ c.rest.head? := by
    obtain ⟨more, rfl⟩ := List.head?_eq_some_iff.mp hx
    rw [hrest]
    rfl
  obtain ⟨u', hrest', hpiece⟩ := exists_piece hstart h
  rw [hrest, hnext] at hrest'
  rw [hnext] at hpiece
  exact List.append_cancel_right hrest' ▸ hpiece

end

end IslandScript.Lexer
