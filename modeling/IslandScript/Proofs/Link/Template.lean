import IslandScript.Proofs.Lexer.Spelling
import IslandScript.Proofs.Link.Split

/-!
# Templates and their grammar

A template that can be filled is made of parts: text without an opening brace, and slots with the number
of an argument in them. It is filled with the text as it is and with the arguments as they are shown, one
part after the other (`FilledBy`). Any other template goes wrong at the first slot that is not of this
kind, behind parts that are (`Offends`). Both are told by what is written, without the reader that cuts a
template into pieces.
-/

namespace IslandScript

/-! ## Blanks around a text -/

namespace Text

variable {before core after : List Char}

theorem dropWhile_isBlank_append (hne : core ≠ []) (hcore : ∀ x ∈ core, isBlank x = false)
    (hbefore : ∀ x ∈ before, isBlank x = true) :
    (before ++ (core ++ after)).dropWhile isBlank = core ++ after := by
  obtain ⟨x, more, rfl⟩ := List.exists_cons_of_ne_nil hne
  rw [List.dropWhile_append_of_pos hbefore, List.cons_append, List.dropWhile_cons_of_neg]
  rw [hcore x List.mem_cons_self]
  exact Bool.false_ne_true

/-- Nothing but the blanks around a text without blanks is trimmed. -/
theorem trim_append (hne : core ≠ []) (hcore : ∀ x ∈ core, isBlank x = false)
    (hbefore : ∀ x ∈ before, isBlank x = true) (hafter : ∀ x ∈ after, isBlank x = true) :
    trim (before ++ core ++ after) = core := by
  have hend : (after.reverse ++ (core.reverse ++ [])).dropWhile isBlank = core.reverse ++ [] :=
    dropWhile_isBlank_append (by simpa using hne) (by simpa using hcore) (by simpa using hafter)
  rw [List.append_nil] at hend
  rw [trim, trimEnd, List.append_assoc, dropWhile_isBlank_append hne hcore hbefore,
    List.reverse_append, hend, List.reverse_reverse]

/-- What is trimmed away is blank. -/
theorem exists_blanks_around (cs : List Char) :
    ∃ before after, cs = before ++ trim cs ++ after ∧ (∀ x ∈ before, isBlank x = true) ∧
      ∀ x ∈ after, isBlank x = true := by
  refine ⟨cs.takeWhile isBlank, ((cs.dropWhile isBlank).reverse.takeWhile isBlank).reverse, ?_,
    fun x hx => List.mem_takeWhile_imp hx, fun x hx => List.mem_takeWhile_imp (List.mem_reverse.mp hx)⟩
  rw [trim, trimEnd, List.append_assoc, ← List.reverse_append, List.takeWhile_append_dropWhile,
    List.reverse_reverse, List.takeWhile_append_dropWhile]

end Text

namespace Core

/-! ## The number in a slot -/

/-- Decimal digits that make up a number of 64 bits, with at most one plus sign before them. -/
def Numeral (core : List Char) (i : Nat) : Prop :=
  ∃ digits : List Nat, digits ≠ [] ∧ (∀ d ∈ digits, d < 10) ∧
    (core = digits.map Nat.digitChar ∨ core = '+' :: digits.map Nat.digitChar) ∧
    Nat.ofDigits 10 digits.reverse = i ∧ i < 2 ^ 64

/-- What is written in a slot is a numeral with blanks around it. -/
def Position (inside : List Char) (i : Nat) : Prop :=
  ∃ before core after, inside = before ++ core ++ after ∧ (∀ x ∈ before, Text.isBlank x = true) ∧
    (∀ x ∈ after, Text.isBlank x = true) ∧ Numeral core i

variable {core inside : List Char} {i : Nat}

/-- The characters that are read with a value below ten are the decimal digits. -/
theorem digitValue?_lt_ten {x : Char} {d : Nat} :
    (Number.digitValue? x = some d ∧ d < 10) ↔ d < 10 ∧ x = d.digitChar := by
  constructor
  · rintro ⟨hvalue, hd⟩
    have htable : ∀ n < 128, ∀ d < 10, Number.digitValue? (Char.ofNat n) = some d →
        Char.ofNat n = d.digitChar := by decide
    have hx := htable x.toNat (Lexer.toNat_lt_of_digitValue? hvalue) d hd
    rw [Char.ofNat_toNat] at hx
    exact ⟨hd, hx hvalue⟩
  · rintro ⟨hd, rfl⟩
    have htable : ∀ d < 10, Number.digitValue? d.digitChar = some d := by decide
    exact ⟨htable d hd, hd⟩

theorem forall₂_digitChar {digits : List Char} {values : List Nat} :
    List.Forall₂ (fun x d => Number.digitValue? x = some d ∧ d < 10) digits values ↔
      (∀ d ∈ values, d < 10) ∧ digits = values.map Nat.digitChar := by
  simp only [digitValue?_lt_ten]
  constructor
  · intro h
    induction h with
    | nil => simp
    | cons hd _ ih => exact ⟨List.forall_mem_cons.mpr ⟨hd.1, ih.1⟩, by rw [hd.2, ih.2, List.map_cons]⟩
  · rintro ⟨hvalues, rfl⟩
    rw [List.forall₂_map_left_iff, List.forall₂_same]
    exact fun d hd => ⟨hvalues d hd, rfl⟩

/-- A numeral has no other characters than digits and a plus sign. -/
theorem Numeral.mem (h : Numeral core i) {x : Char} (hx : x ∈ core) :
    x = '+' ∨ ∃ d < 10, x = d.digitChar := by
  obtain ⟨digits, -, hdigits, hcore, -⟩ := h
  have hdigit (hx : x ∈ digits.map Nat.digitChar) : ∃ d < 10, x = d.digitChar := by
    obtain ⟨d, hd, rfl⟩ := List.mem_map.mp hx
    exact ⟨d, hdigits d hd, rfl⟩
  rcases hcore with rfl | rfl
  · exact .inr (hdigit hx)
  · exact (List.mem_cons.mp hx).imp id hdigit

theorem Numeral.ne_nil (h : Numeral core i) : core ≠ [] := by
  obtain ⟨digits, hne, -, rfl | rfl, -⟩ := h <;> simp [hne]

/-- No digit and no sign is a blank or a closing brace. -/
theorem Numeral.isBlank_eq_false (h : Numeral core i) {x : Char} (hx : x ∈ core) :
    Text.isBlank x = false ∧ x ≠ '\x7d' := by
  have htable : ∀ d < 10, Text.isBlank (Nat.digitChar d) = false ∧ Nat.digitChar d ≠ '\x7d' := by decide
  rcases h.mem hx with rfl | ⟨d, hd, rfl⟩
  · decide
  · exact htable d hd

theorem readIndex?_eq_some : Number.readIndex? core = some i ↔ Numeral core i := by
  have hread (digits : List Char) :
      (Number.readNat? 10 digits).filter (· < Number.twoPow 64) = some i ↔
        ∃ values : List Nat, values ≠ [] ∧ (∀ d ∈ values, d < 10) ∧ digits = values.map Nat.digitChar ∧
          Nat.ofDigits 10 values.reverse = i ∧ i < 2 ^ 64 := by
    have hpow : Number.twoPow 64 = 2 ^ 64 := rfl
    rw [Option.filter_eq_some_iff, Lexer.readNat?_eq_some_iff, decide_eq_true_iff, hpow]
    simp only [forall₂_digitChar]
    constructor
    · rintro ⟨⟨values, hne, ⟨hvalues, hdigits⟩, hi⟩, hfits⟩
      exact ⟨values, hne, hvalues, hdigits, hi, hfits⟩
    · rintro ⟨values, hne, hvalues, hdigits, hi, hfits⟩
      exact ⟨⟨values, hne, ⟨hvalues, hdigits⟩, hi⟩, hfits⟩
  unfold Number.readIndex?
  split
  next digits =>
    rw [hread]
    constructor
    · rintro ⟨values, hne, hvalues, rfl, hi⟩
      exact ⟨values, hne, hvalues, .inr rfl, hi⟩
    · rintro ⟨values, hne, hvalues, hcore, hi⟩
      rcases hcore with hcore | hcore
      · -- no digit is a plus sign
        obtain ⟨d, more, rfl⟩ := List.exists_cons_of_ne_nil hne
        have htable : ∀ d < 10, '+' ≠ Nat.digitChar d := by decide
        exact absurd (List.cons.inj hcore).1 (htable d (hvalues d List.mem_cons_self))
      · exact ⟨values, hne, hvalues, (List.cons.inj hcore).2, hi⟩
  next hplus =>
    rw [hread]
    constructor
    · rintro ⟨values, hne, hvalues, hcore, hi⟩
      exact ⟨values, hne, hvalues, .inl hcore, hi⟩
    · rintro ⟨values, hne, hvalues, hcore, hi⟩
      exact ⟨values, hne, hvalues, hcore.resolve_right (hplus _), hi⟩

/-- The number in a slot is what is read between the blanks. -/
theorem readIndex?_trim : Number.readIndex? (Text.trim inside) = some i ↔ Position inside i := by
  constructor
  · intro h
    obtain ⟨before, after, hinside, hbefore, hafter⟩ := Text.exists_blanks_around inside
    exact ⟨before, _, after, hinside, hbefore, hafter, readIndex?_eq_some.mp h⟩
  · rintro ⟨before, core, after, rfl, hbefore, hafter, h⟩
    rw [Text.trim_append h.ne_nil (fun x hx => (h.isBlank_eq_false hx).1) hbefore hafter]
    exact readIndex?_eq_some.mpr h

theorem Position.notMem_brace (h : Position inside i) : '\x7d' ∉ inside := by
  obtain ⟨before, core, after, rfl, hbefore, hafter, hcore⟩ := h
  have hblank : Text.isBlank '\x7d' = false := by decide
  simp only [List.mem_append, not_or]
  refine ⟨⟨fun hx => ?_, fun hx => (hcore.isBlank_eq_false hx).2 rfl⟩, fun hx => ?_⟩
  · exact absurd (hbefore _ hx) (by rw [hblank]; exact Bool.false_ne_true)
  · exact absurd (hafter _ hx) (by rw [hblank]; exact Bool.false_ne_true)

/-! ## The grammar -/

/-- A part of a template: a text, or a slot with what is written in it. -/
inductive TemplatePart where
  | literal (text : List Char)
  | slot (inside : List Char)

/-- How a part is written. -/
def TemplatePart.chars : TemplatePart → List Char
  | literal text => text
  | slot inside => '\x7b' :: (inside ++ ['\x7d'])

/-- What becomes of a part, given how the arguments are shown. -/
inductive Fills (args : List String) : TemplatePart → List Char → Prop where
  | literal {text : List Char} (h : '\x7b' ∉ text) : Fills args (.literal text) text
  | slot {inside : List Char} {i : Nat} {shown : String} (hposition : Position inside i)
      (hshown : args[i]? = some shown) : Fills args (.slot inside) shown.toList

/-- A template is a row of parts, and a text the row of what becomes of them. -/
def FilledBy (args : List String) (template text : List Char) : Prop :=
  ∃ parts texts, template = parts.flatMap TemplatePart.chars ∧
    List.Forall₂ (Fills args) parts texts ∧ text = texts.flatten

/-- A text starts with a slot that cannot be filled, for a reason. -/
inductive Offends (args : List String) : List Char → LinkErrorKind → Prop where
  | unclosed {rest : List Char} (h : '\x7d' ∉ rest) :
      Offends args ('\x7b' :: rest) (.invalidFormatPosition (String.ofList rest))
  | invalid {inside rest : List Char} (hclose : '\x7d' ∉ inside) (h : ∀ i, ¬Position inside i) :
      Offends args ('\x7b' :: (inside ++ '\x7d' :: rest)) (.invalidFormatPosition (String.ofList inside))
  | missing {inside rest : List Char} {i : Nat} (hposition : Position inside i) (h : args.length ≤ i) :
      Offends args ('\x7b' :: (inside ++ '\x7d' :: rest)) (.missingFormatArgument i)

variable {args : List String} {part : TemplatePart} {template text good rest bad : List Char}
  {e : LinkErrorKind}

theorem FilledBy.nil : FilledBy args [] [] := ⟨[], [], rfl, .nil, rfl⟩

theorem FilledBy.cons {filled : List Char} (hpart : Fills args part filled)
    (h : FilledBy args template text) : FilledBy args (part.chars ++ template) (filled ++ text) := by
  obtain ⟨parts, texts, rfl, hfills, rfl⟩ := h
  exact ⟨part :: parts, filled :: texts, rfl, .cons hpart hfills, rfl⟩

theorem FilledBy.single {filled : List Char} (h : Fills args part filled) : FilledBy args part.chars filled := by
  have hfilled := FilledBy.nil.cons h
  rwa [List.append_nil, List.append_nil] at hfilled

/-- A template can be filled, or goes wrong behind parts that can. -/
theorem filledBy_or_offends (args : List String) (template : List Char) :
    (∃ text, FilledBy args template text) ∨
      ∃ good text bad e, template = good ++ bad ∧ FilledBy args good text ∧ Offends args bad e := by
  induction hlength : template.length using Nat.strongRecOn generalizing template with
  | ind n ih =>
      by_cases hopen : '\x7b' ∈ template
      case neg =>
        have hliteral : Fills args (.literal template) template := .literal hopen
        exact .inl ⟨template, .single hliteral⟩
      case pos =>
        obtain ⟨text, rest, rfl, htext⟩ := List.eq_append_cons_of_mem hopen
        have hliteral : Fills args (.literal text) text := .literal htext
        have hbefore : FilledBy args text text := .single hliteral
        by_cases hclose : '\x7d' ∈ rest
        case neg => exact .inr ⟨text, text, _, _, rfl, hbefore, .unclosed hclose⟩
        case pos =>
          obtain ⟨inside, rest, rfl, hinside⟩ := List.eq_append_cons_of_mem hclose
          by_cases hposition : ∃ i, Position inside i
          case neg => exact .inr ⟨text, text, _, _, rfl, hbefore, .invalid hinside (not_exists.mp hposition)⟩
          case pos =>
            obtain ⟨i, hposition⟩ := hposition
            by_cases hi : i < args.length
            case neg => exact .inr ⟨text, text, _, _, rfl, hbefore, .missing hposition (Nat.not_lt.mp hi)⟩
            case pos =>
              have hslot : Fills args (.slot inside) args[i].toList :=
                .slot hposition (List.getElem?_eq_getElem hi)
              have hchars (rest : List Char) : (TemplatePart.literal text).chars ++
                  ((TemplatePart.slot inside).chars ++ rest) = text ++ '\x7b' :: (inside ++ '\x7d' :: rest) := by
                simp [TemplatePart.chars]
              have hshorter : rest.length < n := by
                rw [← hlength]
                simp only [List.length_append, List.length_cons]
                omega
              rcases ih rest.length hshorter rest rfl with ⟨more, hmore⟩ | ⟨good, more, bad, e, rfl, hmore, hbad⟩
              · have hfilled := (hmore.cons hslot).cons hliteral
                rw [hchars] at hfilled
                exact .inl ⟨_, hfilled⟩
              · refine .inr ⟨_, _, bad, e, ?_, (hmore.cons hslot).cons hliteral, hbad⟩
                rw [hchars]
                simp

/-! ## The pieces of a template -/

/-- Inside a slot all is taken up to the next closing brace. -/
theorem pieces_slot (hclose : '\x7d' ∉ inside) (w rest : List Char) :
    pieces (some w) (inside ++ '\x7d' :: rest) = .slot (w.reverse ++ inside) :: pieces none rest := by
  induction inside generalizing w with
  | nil => simp [pieces]
  | cons x inside ih =>
      rw [List.mem_cons, not_or] at hclose
      have hx : (x == '\x7d') = false := beq_eq_false_iff_ne.mpr (Ne.symm hclose.1)
      rw [List.cons_append, pieces, hx, if_neg Bool.false_ne_true, ih hclose.2, List.reverse_cons,
        List.append_assoc, List.singleton_append]

theorem pieces_unclosed (hclose : '\x7d' ∉ rest) (w : List Char) :
    pieces (some w) rest = [.unclosed (w.reverse ++ rest)] := by
  induction rest generalizing w with
  | nil => simp [pieces]
  | cons x rest ih =>
      rw [List.mem_cons, not_or] at hclose
      have hx : (x == '\x7d') = false := beq_eq_false_iff_ne.mpr (Ne.symm hclose.1)
      rw [pieces, hx, if_neg Bool.false_ne_true, ih hclose.2, List.reverse_cons, List.append_assoc,
        List.singleton_append]

theorem pieces_open (rest : List Char) : pieces none ('\x7b' :: rest) = pieces (some []) rest := rfl

/-- Text is put down as it is. -/
theorem fill_literal (hopen : '\x7b' ∉ text) (filled : String) (rest : List Char) :
    fill args filled (pieces none (text ++ rest)) =
      fill args (filled ++ String.ofList text) (pieces none rest) := by
  induction text generalizing filled with
  | nil => simp
  | cons x text ih =>
      rw [List.mem_cons, not_or] at hopen
      have hx : (x == '\x7b') = false := beq_eq_false_iff_ne.mpr (Ne.symm hopen.1)
      have hpush : filled.push x ++ String.ofList text = filled ++ String.ofList (x :: text) := by
        rw [← String.toList_inj]
        simp
      rw [List.cons_append, pieces, hx, if_neg Bool.false_ne_true, fill, ih hopen.2, hpush]

/-- A part is filled and not looked at again. -/
theorem fill_part {filled : List Char} (h : Fills args part filled) (before : String) (rest : List Char) :
    fill args before (pieces none (part.chars ++ rest)) =
      fill args (before ++ String.ofList filled) (pieces none rest) := by
  cases h with
  | literal hopen => exact fill_literal hopen before rest
  | @slot inside i shown hposition hshown =>
      have hchars : (TemplatePart.slot inside).chars ++ rest = '\x7b' :: (inside ++ '\x7d' :: rest) := by
        simp [TemplatePart.chars]
      have hargument : slotArgument args inside = .ok shown := by
        rw [slotArgument, readIndex?_trim.mpr hposition]
        dsimp only
        rw [hshown]
      rw [hchars, pieces_open, pieces_slot hposition.notMem_brace, List.reverse_nil, List.nil_append, fill,
        hargument, String.ofList_toList]
      rfl

theorem fill_filledBy (h : FilledBy args good text) (before : String) (rest : List Char) :
    fill args before (pieces none (good ++ rest)) =
      fill args (before ++ String.ofList text) (pieces none rest) := by
  obtain ⟨parts, texts, rfl, hfills, rfl⟩ := h
  induction hfills generalizing before with
  | nil => simp
  | cons hpart _ ih =>
      rw [List.flatMap_cons, List.append_assoc, fill_part hpart, ih, List.flatten_cons,
        String.append_assoc, String.ofList_append]

/-- A slot that cannot be filled is reported. -/
theorem fill_offends (h : Offends args bad e) (before : String) :
    fill args before (pieces none bad) = .error e := by
  cases h with
  | unclosed hclose =>
      rw [pieces_open, pieces_unclosed hclose]
      rfl
  | @invalid inside rest hclose hposition =>
      have hargument : slotArgument args inside = .error (.invalidFormatPosition (String.ofList inside)) := by
        have hnone : Number.readIndex? (Text.trim inside) = none :=
          Option.eq_none_iff_forall_ne_some.mpr fun i hi => hposition i (readIndex?_trim.mp hi)
        rw [slotArgument, hnone]
      rw [pieces_open, pieces_slot hclose, List.reverse_nil, List.nil_append, fill, hargument]
      rfl
  | @missing inside rest i hposition hi =>
      have hargument : slotArgument args inside = .error (.missingFormatArgument i) := by
        rw [slotArgument, readIndex?_trim.mpr hposition]
        dsimp only
        rw [List.getElem?_eq_none hi]
      rw [pieces_open, pieces_slot hposition.notMem_brace, List.reverse_nil, List.nil_append, fill,
        hargument]
      rfl

/-! ## The native that fills a template -/

variable {o : Objects} {st : Store} {s : ScopeId} {t : TableId} {source : String}

theorem format_filledBy {filled : String} (h : FilledBy args source.toList filled.toList) :
    format source args = .ok filled := by
  have hfill := fill_filledBy h "" []
  rw [List.append_nil, String.ofList_toList, String.empty_append] at hfill
  exact hfill

theorem format_offends (hsource : source.toList = good ++ bad) (hgood : FilledBy args good text)
    (hbad : Offends args bad e) : format source args = .error e := by
  rw [format, hsource, fill_filledBy hgood, fill_offends hbad]

theorem format_cases (args : List String) (source : String) :
    (∃ filled : String, FilledBy args source.toList filled.toList ∧ format source args = .ok filled) ∨
      ∃ e, (∃ good text bad, source.toList = good ++ bad ∧ FilledBy args good text ∧ Offends args bad e) ∧
        format source args = .error e := by
  rcases filledBy_or_offends args source.toList with ⟨text, htext⟩ | ⟨good, text, bad, e, hsource, hgood, hbad⟩
  · have hfilled : FilledBy args source.toList (String.ofList text).toList := by
      rwa [String.toList_ofList]
    exact .inl ⟨_, hfilled, format_filledBy hfilled⟩
  · exact .inr ⟨e, ⟨good, text, bad, hsource, hgood, hbad⟩, format_offends hsource hgood hbad⟩

/-- A template is filled if it is made of parts, and with what becomes of these. -/
theorem format_eq_ok_iff {filled : String} :
    format source args = .ok filled ↔ FilledBy args source.toList filled.toList := by
  refine ⟨fun h => ?_, format_filledBy⟩
  rcases format_cases args source with ⟨filled', hfilled, hformat⟩ | ⟨e, -, hformat⟩
  · obtain rfl : filled' = filled := Except.ok.inj (hformat.symm.trans h)
    exact hfilled
  · cases hformat.symm.trans h

/-- A template is refused if something offends behind parts that do not, and for that reason. -/
theorem format_eq_error_iff :
    format source args = .error e ↔ ∃ good text bad, source.toList = good ++ bad ∧
      FilledBy args good text ∧ Offends args bad e := by
  refine ⟨fun h => ?_, fun ⟨good, text, bad, hsource, hgood, hbad⟩ => format_offends hsource hgood hbad⟩
  rcases format_cases args source with ⟨filled, -, hformat⟩ | ⟨e', hoffends, hformat⟩
  · cases hformat.symm.trans h
  · obtain rfl : e' = e := Except.error.inj (hformat.symm.trans h)
    exact hoffends

/-- How the elements of a list are shown. -/
def shownItems (o : Objects) (st : Store) (t : TableId) : List String :=
  (st.tables.items t).map (o.display st.tables)

theorem run_stringFormat (hs : o.payload? s = some (.primitive (.string source))) :
    (stringFormat ⟨some s, [.list t]⟩).run o st =
      match format source (shownItems o st t) with
      | .ok filled => (.ok (.string filled), st)
      | .error e => (.error (.link e), st) := by
  have hlist : (Call.list ⟨some s, [.list t]⟩ 0 "String.format@args").run o st = (.ok t, st) := rfl
  have hitems : (Native.items t).run o st = (.ok (st.tables.items t), st) := rfl
  unfold stringFormat
  rw [Native.run_bind, run_thisString hs]
  dsimp only
  rw [Native.run_bind, hlist]
  dsimp only
  rw [Native.run_bind, hitems]
  dsimp only
  rw [Native.run_bind, Native.run_displayAll]
  dsimp only
  rw [shownItems]
  cases format source ((st.tables.items t).map (o.display st.tables)) <;> rfl

/-- **Templates are filled by their grammar.** The native `String.format`, called on an instance that
wraps a template, with a list, gives a text if and only if the template is made of texts without an
opening brace and of slots, each with the number of an element in it; the text is then these texts and the
elements as they are shown, in order and as they are. It fails in no other way than for the first slot
that is not of this kind: the position is invalid if the slot is not closed or has no number in it, and
otherwise the list has no element of that number. Nothing else changes, and there is no other outcome. -/
theorem format_accepts_grammar {f : NativeFunction}
    (hf : link.functions.lookup "String.format" = some f)
    (hs : o.payload? s = some (.primitive (.string source))) (t : TableId) :
    (∀ filled : String, (f.call ⟨some s, [.list t]⟩).run o st = (.ok (.string filled), st) ↔
      FilledBy (shownItems o st t) source.toList filled.toList) ∧
    (∀ e, (f.call ⟨some s, [.list t]⟩).run o st = (.error (.link e), st) ↔
      ∃ good text bad, source.toList = good ++ bad ∧ FilledBy (shownItems o st t) good text ∧
        Offends (shownItems o st t) bad e) ∧
    ((∃ filled, (f.call ⟨some s, [.list t]⟩).run o st = (.ok (.string filled), st)) ∨
      ∃ e, (f.call ⟨some s, [.list t]⟩).run o st = (.error (.link e), st)) := by
  obtain rfl : ⟨1, stringFormat⟩ = f := Option.some_inj.mp hf
  dsimp only
  rw [run_stringFormat hs]
  cases hformat : format source (shownItems o st t) with
  | ok filled =>
      refine ⟨fun filled' => ?_, fun e => ?_, .inl ⟨filled, rfl⟩⟩
      · rw [← format_eq_ok_iff, hformat]
        simp
      · rw [← format_eq_error_iff, hformat]
        simp
  | error e =>
      refine ⟨fun filled' => ?_, fun e' => ?_, .inr ⟨e, rfl⟩⟩
      · rw [← format_eq_ok_iff, hformat]
        simp
      · rw [← format_eq_error_iff, hformat]
        simp

/-- Braces that an argument brings along are not read, and blanks and a plus sign may stand by a number; but
of two arguments none has the number two. -/
theorem format_accepts_grammar_braces :
    ∃ st t, st.tables.items t = [.string "\x7b1\x7d", .null] ∧
      (stringFormat ⟨some ⟨0⟩, [.list t]⟩).run (wrapping (.string "\x7b0\x7d-\x7b +1 \x7d")) st =
        (.ok (.string "\x7b1\x7d-null"), st) ∧
      (stringFormat ⟨some ⟨0⟩, [.list t]⟩).run (wrapping (.string "\x7b0\x7d-\x7b2\x7d")) st =
        (.error (.link (.missingFormatArgument 2)), st) := by
  have hzero : Position ['0'] 0 := ⟨[], ['0'], [], rfl, nofun, nofun, [0], by decide⟩
  have hblank : ∀ x ∈ [' '], Text.isBlank x = true := List.forall_mem_singleton.mpr rfl
  have hone : Position [' ', '+', '1', ' '] 1 :=
    ⟨[' '], ['+', '1'], [' '], rfl, hblank, hblank, [1], by decide⟩
  have htwo : Position ['2'] 2 := ⟨[], ['2'], [], rfl, nofun, nofun, [2], by decide⟩
  have hfirst : Fills ["\x7b1\x7d", "null"] (.slot ['0']) "\x7b1\x7d".toList := .slot hzero rfl
  have hdash : Fills ["\x7b1\x7d", "null"] (.literal ['-']) ['-'] := .literal (by decide)
  have hlast : Fills ["\x7b1\x7d", "null"] (.slot [' ', '+', '1', ' ']) "null".toList := .slot hone rfl
  have hbad : Offends ["\x7b1\x7d", "null"] ('\x7b' :: (['2'] ++ '\x7d' :: [])) (.missingFormatArgument 2) :=
    .missing htwo (by decide)
  refine ⟨(Store.newList (.new default) [.string "\x7b1\x7d", .null]).2, ⟨0⟩, rfl, ?_, ?_⟩
  · exact ((format_accepts_grammar rfl rfl ⟨0⟩).1 _).mpr
      ⟨_, _, rfl, .cons hfirst (.cons hdash (.cons hlast .nil)), rfl⟩
  · exact ((format_accepts_grammar rfl rfl ⟨0⟩).2.1 _).mpr
      ⟨_, _, _, rfl, (FilledBy.nil.cons hdash).cons hfirst, hbad⟩

end Core
end IslandScript
