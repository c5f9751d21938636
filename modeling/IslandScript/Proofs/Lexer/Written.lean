import Mathlib.Data.List.Forall2
import IslandScript.Command.Characters
import IslandScript.Proofs.Lexer.Trivia

/-!
# Tokens as they are written

Keywords in any mixture of letter case, symbols, constants and names, written one after the other with a
space between neighbours, are read as they were meant, and each token covers the characters it was
written in. What makes a word a name is said of its characters, not of the look-up the lexer does:
it spells no keyword in any letter case, and is none of the constants.
-/

namespace IslandScript

/-- The characters are those of the keyword, each in lower or upper case. -/
def Keyword.SpelledBy (k : Keyword) (cs : List Char) : Prop :=
  List.Forall₂ (fun x y => x = y ∨ x = y.toUpper) cs k.text.toList

namespace Lexer

/-- The kind of token that some characters are written for. -/
inductive Written : TokenKind String → List Char → Prop where
  | keyword {k : Keyword} {cs : List Char} (h : k.SpelledBy cs) : Written (.keyword k) cs
  | symbol (s : Symbol) : Written (.symbol s) s.text.toList
  | constant (c : Constant) : Written (.value c.literal) c.text.toList
  | name {x : Char} {xs : List Char} (hstart : isWordStart x = true)
      (hparts : ∀ y ∈ xs, isWordPart y = true) (hkeyword : ∀ k : Keyword, ¬k.SpelledBy (x :: xs))
      (hconstant : ∀ c : Constant, x :: xs ≠ c.text.toList) :
      Written (.name (String.ofList (x :: xs))) (x :: xs)

/-- Words with a space between neighbours. -/
def spacedWords (words : List (List Char)) : String := String.ofList ([' '].intercalate words)

/-- Tokens of some kinds on the first row, as long as their words, with one column between neighbours. -/
def placed : Nat → List (TokenKind String) → List (List Char) → List (Token String)
  | column, k :: kinds, w :: words =>
    ⟨⟨1, column, w.length⟩, k⟩ :: placed (column + w.length + 1) kinds words
  | _, _, _ => []

/-- The characters of a text of one row that a span covers. -/
def covered (text : List Char) (s : Span) : List Char := (text.drop (s.column - 1)).take s.length

end Lexer

/-! ## Keywords in any letter case -/

/-- A character is its lower case or the upper case of that. -/
theorem eq_toLower_or (x : Char) : x = x.toLower ∨ x = x.toLower.toUpper := by
  by_cases hupper : x.val ≥ 'A'.val ∧ x.val ≤ 'Z'.val
  · -- the letters that change are ASCII, so they can be looked at one by one
    have htable : ∀ n < 128, Char.ofNat n = (Char.ofNat n).toLower ∨
        Char.ofNat n = (Char.ofNat n).toLower.toUpper := by decide
    have hascii : x.toNat < 128 :=
      Nat.lt_of_le_of_lt (UInt32.le_iff_toNat_le.mp hupper.2) (by decide)
    have hx := htable x.toNat hascii
    rwa [Char.ofNat_toNat] at hx
  · have hsame : x.toLower = x := dif_neg hupper
    exact .inl hsame.symm

namespace Keyword

variable {k : Keyword} {cs : List Char}

/-- A keyword is written in lower case. -/
theorem toLower_of_mem_text (k : Keyword) :
    ∀ y ∈ k.text.toList, y.toLower = y ∧ y.toUpper.toLower = y := by
  have htable : (k.text.toList.all fun y => y.toLower = y ∧ y.toUpper.toLower = y) = true := by
    cases k <;> decide
  simpa only [List.all_eq_true, decide_eq_true_eq] using htable

/-- A word spells a keyword if it is the keyword in lower case. -/
theorem spelledBy_iff : k.SpelledBy cs ↔ k.text.toList = cs.map Char.toLower := by
  have hlower := k.toLower_of_mem_text
  unfold SpelledBy
  generalize k.text.toList = ys at hlower ⊢
  constructor
  · intro h
    induction h with
    | nil => rfl
    | @cons x y xs ys hxy _ ih =>
        obtain ⟨⟨hy, hupper⟩, hys⟩ := List.forall_mem_cons.mp hlower
        rw [List.map_cons, ← ih hys]
        rcases hxy with rfl | rfl
        · rw [hy]
        · rw [hupper]
  · rintro rfl
    rw [List.forall₂_map_right_iff, List.forall₂_same]
    exact fun x _ => eq_toLower_or x

/-- The keywords are told apart by their texts. -/
theorem find?_text (k : Keyword) : all.find? (fun k' => k'.text.toList == k.text.toList) = some k := by
  cases k <;> rfl

/-- The look-up finds the keyword that a word spells. -/
theorem ofWord?_eq_some : ofWord? cs = some k ↔ k.SpelledBy cs := by
  rw [spelledBy_iff]
  constructor
  · intro h
    exact beq_iff_eq.mp (List.find?_some (p := fun k : Keyword => k.text.toList == _) h)
  · intro h
    rw [ofWord?, ← h]
    exact find?_text k

end Keyword

/-- The characters of a spelled keyword are letters, and there is at least one. -/
theorem Keyword.SpelledBy.word {k : Keyword} {cs : List Char} (h : k.SpelledBy cs) :
    ∃ x xs, cs = x :: xs ∧ ∀ y ∈ x :: xs, Lexer.isWordStart y = true := by
  have hne : k.text.toList ≠ [] := by cases k <;> decide
  have hletters : (k.text.toList.all fun y =>
      Lexer.isWordStart y && Lexer.isWordStart y.toUpper) = true := by
    cases k <;> decide
  simp only [List.all_eq_true, Bool.and_eq_true] at hletters
  rw [spelledBy_iff] at h
  have hall : ∀ x ∈ cs, Lexer.isWordStart x = true := by
    intro x hx
    have hletter := hletters x.toLower (h ▸ List.mem_map_of_mem hx)
    rcases eq_toLower_or x with hx | hx
    · rw [hx]
      exact hletter.1
    · rw [hx]
      exact hletter.2
  cases cs with
  | nil => exact absurd h hne
  | cons x xs => exact ⟨x, xs, rfl, hall⟩

namespace Lexer

/-! ## Words and symbols -/

variable {k : TokenKind String} {cs rest : List Char}

theorem literal_ofWord?_eq_none (h : ∀ c : Constant, cs ≠ c.text.toList) :
    Literal.ofWord? (String.ofList cs) = none := by
  have hne (c : Constant) : String.ofList cs ≠ c.text := fun heq =>
    h c (by rw [← heq, String.toList_ofList])
  have htrue := hne (.bool true)
  have hfalse := hne (.bool false)
  have hnull := hne .null
  have hunit := hne .unit
  simp_all [Literal.ofWord?, Constant.text]

/-- What is written is a symbol or a word, and as a word it has the kind of its token. -/
theorem Written.symbol_or_word (h : Written k cs) :
    (∃ s : Symbol, k = .symbol s ∧ cs = s.text.toList) ∨
      ∃ x xs, cs = x :: xs ∧ isWordStart x = true ∧ (∀ y ∈ xs, isWordPart y = true) ∧
        k = wordKind (x :: xs) := by
  cases h with
  | @keyword k _ h =>
      obtain ⟨x, xs, rfl, hall⟩ := h.word
      obtain ⟨hx, hxs⟩ := List.forall_mem_cons.mp hall
      refine .inr ⟨x, xs, rfl, hx, fun y hy => isWordPart_of_isWordStart (hxs y hy), ?_⟩
      rw [wordKind, Keyword.ofWord?_eq_some.mpr h]
  | symbol s => exact .inl ⟨s, rfl, rfl⟩
  | constant c =>
      refine .inr ?_
      rcases c with (_ | _) | _ | _ <;> exact ⟨_, _, rfl, by decide, List.all_eq_true.mp (by decide), rfl⟩
  | @name x xs hstart hparts hkeyword hconstant =>
      have hnone : Keyword.ofWord? (x :: xs) = none :=
        Option.eq_none_iff_forall_ne_some.mpr fun k hk => hkeyword k (Keyword.ofWord?_eq_some.mp hk)
      refine .inr ⟨x, xs, rfl, hstart, hparts, ?_⟩
      rw [wordKind, hnone, literal_ofWord?_eq_none hconstant]

/-- Nothing written breaks its row. -/
theorem Written.notMem_newline (h : Written k cs) : '\n' ∉ cs := by
  rcases h.symbol_or_word with ⟨s, -, rfl⟩ | ⟨x, xs, rfl, hstart, hparts, -⟩
  · cases s <;> decide
  · intro hmem
    have hpart : isWordPart '\n' = true := by
      rcases List.mem_cons.mp hmem with rfl | hmem
      · exact isWordPart_of_isWordStart hstart
      · exact hparts _ hmem
    exact absurd hpart (by decide)

/-- A character that is no blank starts nothing that is skipped, unless it is a slash before another or
before a star. -/
theorem startsNone_cons {x : Char} {xs : List Char} (hspace : x ≠ ' ') (htab : x ≠ '\t')
    (hcomment : x = '/' → ∀ y ∈ xs.head?, y ≠ '/' ∧ y ≠ '*') (hends : EndsToken rest) :
    StartsNone (x :: xs ++ rest) := by
  refine ⟨?_, ?_⟩
  · rintro _ ⟨⟩
    exact ⟨hspace, htab⟩
  · intro y hy hprefix
    obtain ⟨rfl, hbehind⟩ := List.cons_prefix_cons.mp hprefix
    obtain ⟨more, hmore⟩ := hbehind
    cases xs with
    | nil =>
        have hrest : rest = y :: more := hmore.symm
        obtain rfl := hends.head? y (by rw [hrest]; rfl)
        exact absurd hy (by decide)
    | cons z zs =>
        obtain rfl : y = z := (List.cons.inj hmore).1
        have hz := hcomment rfl y rfl
        exact hy.elim hz.1 hz.2

/-- Neither a blank nor a comment starts where a token is written. -/
theorem Written.startsNone (h : Written k cs) (hends : EndsToken rest) :
    cs ≠ [] ∧ StartsNone (cs ++ rest) := by
  rcases h.symbol_or_word with ⟨s, -, rfl⟩ | ⟨x, xs, rfl, hstart, -, -⟩
  · obtain ⟨x, xs, htext, -, -, -, -, hspace, htab, hcomment⟩ := symbol_text s
    rw [htext]
    refine ⟨List.cons_ne_nil x xs, startsNone_cons hspace htab (fun hx y hy => ?_) hends⟩
    -- no symbol looks like the start of a comment
    have hall := hcomment hx
    rw [Option.mem_def.mp hy] at hall
    simpa using hall
  · have hne {y : Char} (hy : isWordStart y = false) : x ≠ y := by
      rintro rfl
      exact absurd hstart (by rw [hy]; decide)
    refine ⟨List.cons_ne_nil x xs, startsNone_cons (hne (by decide)) (hne (by decide)) ?_ hends⟩
    exact fun hx => absurd hx (hne (by decide))

/-- What is written is the piece of its token. -/
theorem Written.piece [Text.CharNames]
    (h : Written k cs) (hends : EndsToken rest) : Piece cs rest k := by
  have hreads : Reads cs k := by
    rcases h.symbol_or_word with ⟨s, rfl, rfl⟩ | ⟨x, xs, rfl, hstart, hparts, rfl⟩
    · exact reads_symbol s
    · exact reads_word hstart hparts
  obtain ⟨hne, hstarts⟩ := h.startsNone hends
  obtain ⟨x, xs, rfl⟩ := List.exists_cons_of_ne_nil hne
  -- the step that reads the word skips nothing, so all that it takes is the word
  let c : Cursor := ⟨1, 1, x :: xs ++ rest⟩
  obtain ⟨span, next, hscan, hnext⟩ := hreads c rest rfl hends
  have hskip : skipTrivia c.rest c = .ok c := skipTrivia_of_startsNone hstarts
  have hcurrent : c.current? = some x := rfl
  simp only [scanNext, hskip, hcurrent] at hscan
  split at hscan
  next => cases hscan
  next k' next' hkind =>
    cases hscan
    exact piece_of_scanKind rfl rfl hkind hnext

/-! ## One token after the other -/

theorem Cursor.skipping_of_notMem {u : List Char} (h : '\n' ∉ u) (c : Cursor) (v : List Char) :
    c.skipping u v = ⟨c.row, c.column + u.length, v⟩ := by
  apply Cursor.ext
  · rw [Cursor.row_skipping, List.count_eq_zero.mpr h, Nat.add_zero]
  · exact Cursor.column_skipping_of_notMem h c v
  · exact Cursor.rest_skipping c u v

/-- The next token is the one that is written next, behind a space if there is one. -/
theorem Written.scanNext [Text.CharNames]
    {gap : List Char} (h : Written k cs) (hgap : gap = [] ∨ gap = [' '])
    (hends : EndsToken rest) (column : Nat) :
    Lexer.scanNext ⟨1, column, gap ++ (cs ++ rest)⟩ =
      .ok (.token ⟨⟨1, column + gap.length, cs.length⟩, k⟩
        ⟨1, column + gap.length + cs.length, rest⟩) := by
  have hblank : Trivia gap (cs ++ rest) ∧ '\n' ∉ gap := by
    rcases hgap with rfl | rfl
    · exact ⟨.none _, by decide⟩
    · exact ⟨.blank ' ' (.inl rfl) (.none _), by decide⟩
  obtain ⟨-, hstarts⟩ := h.startsNone hends
  have hbreak : '\n' ∉ gap ++ cs := by
    rw [List.mem_append, not_or]
    exact ⟨hblank.2, h.notMem_newline⟩
  rw [scanNext_of_piece hblank.1 hstarts (h.piece hends) (.refl rest) rfl]
  rw [Cursor.skipping_of_notMem hblank.2, Cursor.skipping_of_notMem hbreak, Cursor.spanOf,
    if_neg h.notMem_newline, List.length_append, Nat.add_assoc]

/-- Words behind a space each are read in order, and then the end of the text. -/
theorem scanAll_written [Text.CharNames]
    {kinds : List (TokenKind String)} {words : List (List Char)}
    (h : List.Forall₂ Written kinds words) {bound : List Char} (column : Nat)
    (hbound : (words.flatMap fun w => ' ' :: w).length < bound.length) :
    scanAll bound ⟨1, column, words.flatMap fun w => ' ' :: w⟩ =
      ⟨placed (column + 1) kinds words,
        .ok (.point 1 (column + (words.flatMap fun w => ' ' :: w).length))⟩ := by
  induction h generalizing bound column with
  | nil => exact scanAll_of_end rfl bound
  | @cons k w kinds words hw _ ih =>
      obtain ⟨b, bound, rfl⟩ := List.exists_cons_of_length_pos (Nat.zero_lt_of_lt hbound)
      have hnext := hw.scanNext (.inr rfl) (endsToken_flatMap (fun w => w) words) column
      have hbound' : (words.flatMap fun w => ' ' :: w).length < bound.length := by
        rw [List.flatMap_cons, List.length_append, List.length_cons, List.length_cons] at hbound
        omega
      rw [List.flatMap_cons]
      rw [scanAll_token (c := ⟨1, column, ' ' :: w ++ words.flatMap fun w => ' ' :: w⟩) hnext,
        ih _ hbound']
      have hend (l : Nat) : column + 1 + w.length + l = column + (w.length + 1 + l) := by omega
      simp only [placed, List.length_append, List.length_cons, List.length_nil, Nat.zero_add, hend]

/-! ## What the tokens cover -/

theorem covered_append (before w rest : List Char) (row : Nat) :
    covered (before ++ (w ++ rest)) ⟨row, before.length + 1, w.length⟩ = w := by
  rw [covered, Nat.add_sub_cancel, List.drop_left, List.take_left]

/-- Behind a space each, words are covered by their tokens. -/
theorem map_covered_placed {kinds : List (TokenKind String)} {words : List (List Char)}
    (h : kinds.length = words.length) (before : List Char) (column : Nat)
    (hcolumn : column = before.length + 2) :
    (placed column kinds words).map
        (fun t => covered (before ++ words.flatMap fun w => ' ' :: w) t.span) = words := by
  induction words generalizing kinds before column with
  | nil =>
      obtain rfl : kinds = [] := List.length_eq_zero_iff.mp h
      rfl
  | cons w words ih =>
      obtain ⟨k, kinds, rfl⟩ := List.exists_cons_of_length_eq_add_one h
      have htext : before ++ (w :: words).flatMap (fun w => ' ' :: w) =
          before ++ [' '] ++ (w ++ words.flatMap fun w => ' ' :: w) := by simp
      have hfirst := covered_append (before ++ [' ']) w (words.flatMap fun w => ' ' :: w) 1
      have hrest := ih (Nat.succ.inj h) (before ++ [' '] ++ w) (column + w.length + 1) (by
        simp only [hcolumn, List.length_append, List.length_singleton]
        omega)
      rw [List.append_assoc] at hrest
      rw [htext, placed, List.map_cons, hrest, hcolumn]
      rw [List.length_append] at hfirst
      exact congrArg (· :: words) hfirst

theorem map_kind_placed {kinds : List (TokenKind String)} {words : List (List Char)}
    (h : kinds.length = words.length) (column : Nat) :
    (placed column kinds words).map (·.kind) = kinds := by
  induction kinds generalizing words column with
  | nil => cases words <;> rfl
  | cons k kinds ih =>
      obtain ⟨w, words, rfl⟩ := List.exists_cons_of_length_eq_add_one h.symm
      rw [placed, List.map_cons, ih (Nat.succ.inj h)]

/-! ## Sequences of tokens -/

/-- **Tokens survive printing.** Keywords in any letter case, symbols, constants and names, with a space
between neighbours, are read as tokens of just these kinds, and then the end of the text. Each token
stands in the column where its word starts, and covers just the characters of it. -/
theorem tokenize_spacedWords [Text.CharNames]
    {kinds : List (TokenKind String)} {words : List (List Char)}
    (h : List.Forall₂ Written kinds words) :
    tokenize (spacedWords words) = .ok (placed 1 kinds words ++
        [⟨.point 1 (1 + (spacedWords words).length), .endOfFile⟩]) ∧
      (placed 1 kinds words).map (·.kind) = kinds ∧
      (placed 1 kinds words).map (fun t => covered (spacedWords words).toList t.span) = words := by
  refine ⟨?_, map_kind_placed h.length_eq 1, ?_⟩
  · cases h with
    | nil => rfl
    | @cons k w kinds words hw hrest =>
        have hfirst := hw.scanNext (.inl rfl) (endsToken_flatMap (fun w => w) words) 1
        have htext : (spacedWords (w :: words)).toList =
            [] ++ (w ++ words.flatMap fun w => ' ' :: w) := by
          rw [spacedWords, String.toList_ofList, intercalate_space, List.nil_append]
        have hscan : scan (spacedWords (w :: words)) = scanAll ('\n' :: '\n' :: _) _ :=
          scan_eq_scanAll htext (Nat.le_add_right _ 2)
        have hbound : (words.flatMap fun w => ' ' :: w).length <
            ('\n' :: ([] ++ (w ++ words.flatMap fun w => ' ' :: w))).length := by
          rw [List.length_cons, List.nil_append, List.length_append]
          omega
        rw [scanAll_token hfirst, scanAll_written hrest _ hbound] at hscan
        rw [tokenize_eq, hscan, ← String.length_toList, htext, List.nil_append, List.length_append,
          ← Nat.add_assoc]
        rfl
  · cases h with
    | nil => rfl
    | @cons k w kinds words _ hrest =>
        have hfirst := covered_append [] w (words.flatMap fun w => ' ' :: w) 1
        have hmore := map_covered_placed hrest.length_eq w (1 + w.length + 1) (by omega)
        rw [spacedWords, String.toList_ofList, intercalate_space, placed, List.map_cons, hmore]
        exact congrArg (· :: words) hfirst

attribute [local instance] Command.charNames

/-- One token of each sort, the keyword in mixed case. -/
theorem tokenize_spacedWords_mixed :
    tokenize "iF += true x_1" = .ok [⟨⟨1, 1, 2⟩, .keyword .ifKey⟩, ⟨⟨1, 4, 2⟩, .symbol .plusEqual⟩,
        ⟨⟨1, 7, 4⟩, .value (.bool true)⟩, ⟨⟨1, 12, 3⟩, .name "x_1"⟩, ⟨⟨1, 15, 1⟩, .endOfFile⟩] ∧
      [⟨1, 1, 2⟩, ⟨1, 4, 2⟩, ⟨1, 7, 4⟩, ⟨1, 12, 3⟩].map (covered "iF += true x_1".toList) =
        ["iF".toList, "+=".toList, "true".toList, "x_1".toList] := by
  have hkeyword : Keyword.ifKey.SpelledBy "iF".toList := Keyword.spelledBy_iff.mpr rfl
  have hname : Written (.name "x_1") "x_1".toList := by
    refine .name (by decide) (List.all_eq_true.mp (by decide)) (fun k h => ?_) fun c => ?_
    · cases (Keyword.ofWord?_eq_some.mpr h).symm.trans (show _ = none from rfl)
    · rcases c with (_ | _) | _ | _ <;> decide
  have hwritten : List.Forall₂ Written
      [.keyword .ifKey, .symbol .plusEqual, .value (.bool true), .name "x_1"]
      ["iF".toList, "+=".toList, "true".toList, "x_1".toList] :=
    .cons (.keyword hkeyword) <| .cons (.symbol .plusEqual) <|
      .cons (.constant (.bool true)) <| .cons hname .nil
  obtain ⟨htokens, -, hcovered⟩ := tokenize_spacedWords hwritten
  exact ⟨htokens, hcovered⟩

end Lexer
end IslandScript
