import Mathlib.Data.List.Basic
import IslandScript.Lexer.Scan

/-!
# Tokens written with a blank between them

A lexeme is a token as it is written: a keyword, a symbol, one of the words for a constant, a name or
a string. Written one after the other with a space between them, lexemes are read as they were meant:
no two run together, and nothing is taken for a comment. What the lexer reads at a lexeme is stated of
the characters that come next (`Reads`), a blank or the end of the text behind them.
-/

namespace IslandScript

/-- A word that is a name: neither a keyword, in any letter case, nor a constant. -/
structure Word where
  text : String
  shape : ∃ c cs, text.toList = c :: cs ∧ Lexer.isWordStart c = true ∧
    ∀ x ∈ cs, Lexer.isWordPart x = true
  notKeyword : Keyword.ofWord? text.toList = none
  notConstant : Literal.ofWord? text = none

/-- The constants that are words. -/
inductive Constant where
  | bool (b : Bool)
  | null
  | unit
  deriving DecidableEq, Repr

namespace Constant

/-- How a constant is written. -/
def text : Constant → String
  | bool true => "true"
  | bool false => "false"
  | null => "null"
  | unit => "unit"

/-- What a constant means. -/
def literal : Constant → Literal
  | bool b => .bool b
  | null => .null
  | unit => .unit

end Constant

/-- A token as it is written. -/
inductive Lexeme where
  | keyword (k : Keyword)
  | symbol (s : Symbol)
  | constant (c : Constant)
  | name (w : Word)
  | string (s : String)

namespace Lexeme

/-- How a character is written in a string: behind a backslash if it would end the string or start an
escape. -/
def quotedChar (c : Char) : List Char :=
  if c == '\\' || c == '"' then ['\\', c] else [c]

/-- The characters of a lexeme. -/
def chars : Lexeme → List Char
  | keyword k => k.text.toList
  | symbol s => s.text.toList
  | constant c => c.text.toList
  | name w => w.text.toList
  | string s => '"' :: (s.toList.flatMap quotedChar ++ ['"'])

/-- The kind of token a lexeme is read as. -/
def kind : Lexeme → TokenKind String
  | keyword k => .keyword k
  | symbol s => .symbol s
  | constant c => .value c.literal
  | name w => .name w.text
  | string s => .value (.string s)

/-- Lexemes as a text, with a space between neighbours. -/
def spaced (ls : List Lexeme) : String := String.ofList ([' '].intercalate (ls.map chars))

end Lexeme

namespace Cursor

theorem after_rest (c : Cursor) (x : Char) (rest : List Char) : (c.after x rest).rest = rest := by
  unfold after
  split <;> rfl

/-- To consume characters is to drop them from the rest. -/
theorem take_rest (c : Cursor) (n : Nat) :
    (c.take n).1 = c.rest.take n ∧ (c.take n).2.rest = c.rest.drop n := by
  induction n generalizing c with
  | zero => exact ⟨rfl, rfl⟩
  | succ n ih =>
      obtain ⟨row, column, rest⟩ := c
      cases rest with
      | nil => exact ⟨rfl, rfl⟩
      | cons x rest =>
          have hnext := ih (after ⟨row, column, x :: rest⟩ x rest)
          rw [after_rest] at hnext
          exact ⟨congrArg (x :: ·) hnext.1, hnext.2⟩

/-- The characters consumed by a test are the longest run that it holds for. -/
theorem takeWhile_append {c : Cursor} {test : Char → Bool} {cs rest : List Char}
    (hrest : c.rest = cs ++ rest) (hcs : ∀ x ∈ cs, test x = true)
    (hstop : ∀ x ∈ rest.head?, test x = false) :
    (c.takeWhile test).1 = cs ∧ (c.takeWhile test).2.rest = rest := by
  have hlength : (c.rest.takeWhile test) = cs := by
    rw [hrest, List.takeWhile_append_of_pos hcs]
    cases rest with
    | nil => simp
    | cons x rest => simp [hstop x rfl]
  obtain ⟨hfst, hsnd⟩ := c.take_rest (c.rest.takeWhile test).length
  unfold takeWhile
  rw [hfst, hsnd, hlength, hrest, List.take_left, List.drop_left]
  exact ⟨rfl, rfl⟩

end Cursor

namespace Lexer

/-- Behind a token comes a blank or the end of the text. -/
def EndsToken (rest : List Char) : Prop := rest = [] ∨ ∃ more, rest = ' ' :: more

theorem EndsToken.head? {rest : List Char} (h : EndsToken rest) : ∀ x ∈ rest.head?, x = ' ' := by
  rcases h with rfl | ⟨more, rfl⟩
  · exact fun x hx => by cases hx
  · exact fun x hx => by cases hx; rfl

/-- Nothing is skipped before a character that is no blank, unless it starts a comment. -/
theorem skipTrivia_eq {c : Cursor} {x : Char} {xs : List Char} (hrest : c.rest = x :: xs)
    (hspace : x ≠ ' ') (htab : x ≠ '\t')
    (hcomment : x = '/' → ∀ y ∈ xs.head?, y ≠ '/' ∧ y ≠ '*') : skipTrivia c.rest c = .ok c := by
  have hblank : (c.current? == some ' ' || c.current? == some '\t') = false := by
    simp [Cursor.current?, hrest, hspace, htab]
  have hstart {y : Char} (hy : y = '/' ∨ y = '*') : c.startsWith ['/', y] = false := by
    cases xs with
    | nil => simp [Cursor.startsWith, hrest, List.isPrefixOf]
    | cons z zs =>
        have hz := fun hx => hcomment hx z rfl
        simp only [Cursor.startsWith, hrest, List.isPrefixOf]
        by_cases hx : x = '/'
        · rcases hy with rfl | rfl
          · simp [Ne.symm (hz hx).1]
          · simp [Ne.symm (hz hx).2]
        · simp [Ne.symm hx]
  rw [hrest]
  simp only [skipTrivia, hblank, hstart (.inl rfl), hstart (.inr rfl), Bool.false_eq_true, if_false]

/-! ## How lexemes are written -/

/-- A digit starts no word: that is so for all ASCII characters, and the digits are among them. -/
theorem isDigit_eq_false_of_isWordStart {x : Char} (h : isWordStart x = true) :
    x.isDigit = false := by
  by_contra hdigit
  rw [Bool.not_eq_false] at hdigit
  have hascii : x.toNat < 128 := by
    have hle : x.val ≤ '9'.val := by
      unfold Char.isDigit at hdigit
      rw [Bool.and_eq_true] at hdigit
      exact of_decide_eq_true hdigit.2
    exact Nat.lt_of_le_of_lt (UInt32.le_iff_toNat_le.mp hle) (by decide)
  have htable : ∀ n < 128, (Char.ofNat n).isDigit = true → isWordStart (Char.ofNat n) = false := by
    decide
  have hstart := htable x.toNat hascii
  rw [Char.ofNat_toNat] at hstart
  exact absurd h (by rw [hstart hdigit]; decide)

theorem isWordPart_of_isWordStart {x : Char} (h : isWordStart x = true) :
    isWordPart x = true := by
  simp only [isWordStart, isWordPart, Text.isAlphanumeric, Bool.or_eq_true] at h ⊢
  exact h.imp_left .inl

/-- A symbol is the longest one that its text starts with when the token ends behind it. -/
theorem startOf?_symbol (s : Symbol) {rest : List Char} (hends : EndsToken rest) :
    Symbol.startOf? (s.text.toList ++ rest) = some s := by
  rcases hends with rfl | ⟨more, rfl⟩
  · cases s <;> rfl
  · cases s <;> rfl

/-- A symbol starts like nothing else, and only the slash could start a comment. -/
theorem symbol_text (s : Symbol) : ∃ x xs, s.text.toList = x :: xs ∧ x.isDigit = false ∧
    isWordStart x = false ∧ x ≠ '"' ∧ isLineEnd x = false ∧ x ≠ ' ' ∧ x ≠ '\t' ∧
    (x = '/' → xs.head?.all (fun y => y != '/' && y != '*') = true) := by
  cases s <;> exact ⟨_, _, rfl, by decide⟩

theorem length_le_length_quoted (s : List Char) :
    s.length ≤ (s.flatMap Lexeme.quotedChar).length := by
  induction s with
  | nil => exact Nat.le_refl 0
  | cons x s ih =>
      have hx : 0 < (Lexeme.quotedChar x).length := by
        unfold Lexeme.quotedChar
        split <;> exact Nat.zero_lt_succ _
      rw [List.flatMap_cons, List.length_append, List.length_cons]
      omega

theorem chars_ne_nil (l : Lexeme) : l.chars ≠ [] := by
  cases l with
  | keyword k => cases k <;> decide
  | symbol s => cases s <;> decide
  | constant c => rcases c with (_ | _) | _ | _ <;> decide
  | name w =>
      obtain ⟨x, xs, hchars, -⟩ := w.shape
      simp [Lexeme.chars, hchars]
  | string s => simp [Lexeme.chars]

/-- Behind a word that is followed by others there is a space. -/
theorem endsToken_flatMap {α : Type} (word : α → List Char) (ls : List α) :
    EndsToken (ls.flatMap fun l => ' ' :: word l) := by
  cases ls with
  | nil => exact .inl rfl
  | cons l ls => exact .inr ⟨_, rfl⟩

/-- A sequence of words is the first of them, and the others behind a space each. -/
theorem intercalate_space (w : List Char) (words : List (List Char)) :
    [' '].intercalate (w :: words) = w ++ words.flatMap fun w => ' ' :: w := by
  induction words generalizing w with
  | nil => simp [List.intercalate]
  | cons w' words ih => simp_all [List.intercalate]

theorem toList_spaced (l : Lexeme) (ls : List Lexeme) :
    (Lexeme.spaced (l :: ls)).toList = l.chars ++ ls.flatMap fun l => ' ' :: l.chars := by
  rw [Lexeme.spaced, String.toList_ofList, List.map_cons, intercalate_space, List.flatMap_map]

/-! ## How they are read -/

variable [Text.CharNames]

/-- Some characters are read as a token of a kind when the token ends behind them. -/
def Reads (cs : List Char) (k : TokenKind String) : Prop :=
  ∀ (c : Cursor) (rest : List Char), c.rest = cs ++ rest → EndsToken rest →
    ∃ span next, scanNext c = .ok (.token ⟨span, k⟩ next) ∧ next.rest = rest

/-- What is read at a character that is no blank, unless it starts a comment. -/
theorem reads_of_scanKind {x : Char} {xs : List Char} {k : TokenKind String} (hspace : x ≠ ' ')
    (htab : x ≠ '\t') (hcomment : x = '/' → ∀ y ∈ xs.head?, y ≠ '/' ∧ y ≠ '*')
    (hscan : ∀ (c : Cursor) (rest : List Char), c.rest = x :: xs ++ rest → EndsToken rest →
      ∃ next, scanKind c x = .ok (k, next) ∧ next.rest = rest) : Reads (x :: xs) k := by
  intro c rest hrest hends
  have hskip : skipTrivia c.rest c = .ok c := by
    refine skipTrivia_eq hrest hspace htab fun hx y hy => ?_
    cases xs with
    | nil =>
        rw [hends.head? y hy]
        decide
    | cons z zs => exact hcomment hx y hy
  obtain ⟨next, hkind, hnext⟩ := hscan c rest hrest hends
  refine ⟨next.spanFrom c.here, next, ?_, hnext⟩
  have hcurrent : c.current? = some x := congrArg List.head? hrest
  simp only [scanNext, hskip, hcurrent, hkind]

/-! ## Words -/

/-- A word is read as the token it means. -/
theorem reads_word {x : Char} {xs : List Char} (hstart : isWordStart x = true)
    (hparts : ∀ y ∈ xs, isWordPart y = true) : Reads (x :: xs) (wordKind (x :: xs)) := by
  have hne {y : Char} (hy : isWordStart y = false) : x ≠ y := by
    rintro rfl
    exact absurd hstart (by rw [hy]; decide)
  refine reads_of_scanKind (hne (by decide)) (hne (by decide))
    (fun hx => absurd hx (hne (by decide))) ?_
  intro c rest hrest hends
  have hall : ∀ y ∈ x :: xs, isWordPart y = true := by
    intro y hy
    rcases List.mem_cons.mp hy with rfl | hy
    · exact isWordPart_of_isWordStart hstart
    · exact hparts y hy
  have hstop : ∀ y ∈ rest.head?, isWordPart y = false := by
    intro y hy
    rw [hends.head? y hy]
    decide
  obtain ⟨hword, hnext⟩ := Cursor.takeWhile_append hrest hall hstop
  refine ⟨(c.takeWhile isWordPart).2, ?_, hnext⟩
  simp only [scanKind, isDigit_eq_false_of_isWordStart hstart, hstart, scanWord, hword, if_true,
    Bool.false_eq_true, if_false]

/-! ## Symbols -/

theorem reads_symbol (s : Symbol) : Reads s.text.toList (.symbol s) := by
  obtain ⟨x, xs, htext, hdigit, hword, hquote, hline, hspace, htab, hcomment⟩ := symbol_text s
  have hplain : x = '/' → ∀ y ∈ xs.head?, y ≠ '/' ∧ y ≠ '*' := by
    intro hx y hy
    have hall := hcomment hx
    rw [Option.mem_def.mp hy] at hall
    simpa using hall
  rw [htext]
  refine reads_of_scanKind hspace htab hplain fun c rest hrest hends => ?_
  have hsymbol : Symbol.startOf? c.rest = some s := by
    rw [hrest, ← htext]
    exact startOf?_symbol s hends
  refine ⟨(c.take s.text.length).2, ?_, ?_⟩
  · simp only [scanKind, scanSymbol, hdigit, hword, beq_eq_false_iff_ne.mpr hquote, hline, hsymbol,
      Bool.false_eq_true, if_false]
  · rw [(c.take_rest _).2, hrest, ← htext, ← String.length_toList, List.drop_left]

/-! ## Strings -/

/-- A character of a string is read back from how it is written. -/
theorem scanCharacters_quotedChar (x b : Char) (bound read rest : List Char) {c : Cursor}
    (hrest : c.rest = Lexeme.quotedChar x ++ rest) :
    ∃ next, scanCharacters (b :: bound) read c = scanCharacters bound (x :: read) next ∧
      next.rest = rest := by
  obtain ⟨row, column, chars⟩ := c
  dsimp only at hrest
  subst hrest
  unfold Lexeme.quotedChar
  split
  next hx =>
    -- A backslash and the character make an escape.
    rw [Bool.or_eq_true, beq_iff_eq, beq_iff_eq] at hx
    rcases hx with rfl | rfl
    · exact ⟨_, rfl, rfl⟩
    · exact ⟨_, rfl, rfl⟩
  next hx =>
    rw [Bool.or_eq_true, beq_iff_eq, beq_iff_eq, not_or] at hx
    refine ⟨Cursor.after ⟨row, column, x :: rest⟩ x rest, ?_, Cursor.after_rest _ _ _⟩
    have hbump : Cursor.bump? ⟨row, column, [x] ++ rest⟩ =
        some (x, Cursor.after ⟨row, column, x :: rest⟩ x rest) := rfl
    rw [scanCharacters, hbump]
    split
    next h => cases h
    next h =>
      cases h
      exact absurd rfl hx.2
    next h =>
      cases h
      exact absurd rfl hx.1
    next h =>
      cases h
      rfl

/-- The characters of a string are read back from how they are written. -/
theorem scanCharacters_quoted {s bound read rest : List Char} {c : Cursor}
    (hbound : s.length < bound.length)
    (hrest : c.rest = s.flatMap Lexeme.quotedChar ++ '"' :: rest) :
    ∃ next, scanCharacters bound read c = .ok (read.reverse ++ s, next) ∧ next.rest = rest := by
  induction s generalizing bound read c with
  | nil =>
      obtain ⟨_, bound, rfl⟩ := List.exists_cons_of_length_pos hbound
      obtain ⟨row, column, _⟩ := c
      cases hrest
      exact ⟨_, by rw [List.append_nil]; rfl, rfl⟩
  | cons x s ih =>
      obtain ⟨b, bound, rfl⟩ := List.exists_cons_of_length_pos (Nat.zero_lt_of_lt hbound)
      rw [List.flatMap_cons, List.append_assoc] at hrest
      obtain ⟨next, hscan, hnext⟩ := scanCharacters_quotedChar x b bound read _ hrest
      obtain ⟨last, hscans, hlast⟩ :=
        @ih bound (x :: read) next (Nat.lt_of_succ_lt_succ hbound) hnext
      refine ⟨last, ?_, hlast⟩
      rw [hscan, hscans, List.reverse_cons, List.append_assoc, List.singleton_append]

theorem reads_string (s : String) : Reads (Lexeme.string s).chars (.value (.string s)) := by
  refine reads_of_scanKind (by decide) (by decide) (fun h => absurd h (by decide)) ?_
  intro c rest hrest hends
  have hopen : (c.take 1).2.rest = s.toList.flatMap Lexeme.quotedChar ++ '"' :: rest := by
    rw [(c.take_rest 1).2, hrest]
    simp
  have hbound : s.toList.length < (c.take 1).2.rest.length := by
    have hlength := length_le_length_quoted s.toList
    rw [hopen, List.length_append, List.length_cons]
    omega
  obtain ⟨next, hscan, hnext⟩ := @scanCharacters_quoted _ s.toList _ [] rest _ hbound hopen
  refine ⟨next, ?_, hnext⟩
  have hquote : scanKind c '"' = scanString c := rfl
  simp only [hquote, scanString, hscan, List.reverse_nil, List.nil_append, String.ofList_toList]

/-! ## Lexemes -/

/-- A lexeme is read as the token it is. -/
theorem reads_lexeme (l : Lexeme) : Reads l.chars l.kind := by
  cases l with
  | keyword k =>
      have hword : ∃ x xs, k.text.toList = x :: xs ∧ isWordStart x = true ∧
          xs.all isWordPart = true ∧ wordKind k.text.toList = .keyword k := by
        cases k <;> exact ⟨_, _, rfl, by decide, by decide, rfl⟩
      obtain ⟨x, xs, htext, hstart, hparts, hkind⟩ := hword
      rw [htext] at hkind
      simpa [Lexeme.chars, Lexeme.kind, htext, hkind] using
        reads_word hstart (List.all_eq_true.mp hparts)
  | symbol s => exact reads_symbol s
  | constant c =>
      have hword : ∃ x xs, c.text.toList = x :: xs ∧ isWordStart x = true ∧
          xs.all isWordPart = true ∧ wordKind c.text.toList = .value c.literal := by
        rcases c with (_ | _) | _ | _ <;> exact ⟨_, _, rfl, by decide, by decide, rfl⟩
      obtain ⟨x, xs, htext, hstart, hparts, hkind⟩ := hword
      rw [htext] at hkind
      simpa [Lexeme.chars, Lexeme.kind, htext, hkind] using
        reads_word hstart (List.all_eq_true.mp hparts)
  | name w =>
      obtain ⟨x, xs, hchars, hstart, hparts⟩ := w.shape
      have hkind : wordKind (x :: xs) = .name w.text := by
        unfold wordKind
        rw [← hchars, w.notKeyword, String.ofList_toList, w.notConstant]
      simpa [Lexeme.chars, Lexeme.kind, hchars, hkind] using reads_word hstart hparts
  | string s => exact reads_string s

/-! ## Lexemes with a space between them -/

/-- The lexeme that comes next is the next token; a character of the bound is enough for it. -/
theorem scanAll_lexeme (l : Lexeme) {bound rest : List Char} {c : Cursor}
    (hrest : c.rest = l.chars ++ rest) (hends : EndsToken rest)
    (hbound : c.rest.length ≤ bound.length) :
    ∃ span next bound', next.rest = rest ∧ rest.length ≤ bound'.length ∧
      scanAll bound c = ⟨⟨span, l.kind⟩ :: (scanAll bound' next).tokens,
        (scanAll bound' next).ending⟩ := by
  obtain ⟨span, next, hscan, hnext⟩ := reads_lexeme l c rest hrest hends
  have hchars := List.length_pos_of_ne_nil (chars_ne_nil l)
  rw [hrest, List.length_append] at hbound
  obtain ⟨b, bound, rfl⟩ := List.exists_cons_of_length_pos (by omega : 0 < bound.length)
  refine ⟨span, next, bound, hnext, ?_, by simp only [scanAll, hscan]⟩
  rw [List.length_cons] at hbound
  omega

/-- A space in front changes nothing about the tokens behind it. -/
theorem scanAll_space {b : Char} {bound rest : List Char} {row column : Nat} :
    scanAll (b :: bound) ⟨row, column, ' ' :: rest⟩ =
      scanAll (b :: bound) ⟨row, column + 1, rest⟩ := rfl

/-- Lexemes, each behind a space, are read in order, and then the end of the text. -/
theorem scanAll_spaced {ls : List Lexeme} {bound : List Char} {c : Cursor}
    (hrest : c.rest = ls.flatMap fun l => ' ' :: l.chars) (hbound : c.rest.length ≤ bound.length) :
    (scanAll bound c).tokens.map (·.kind) = ls.map Lexeme.kind ∧
      ∃ span, (scanAll bound c).ending = .ok span := by
  induction ls generalizing bound c with
  | nil =>
      obtain ⟨row, column, _⟩ := c
      cases hrest
      cases bound with
      | nil => exact ⟨rfl, _, rfl⟩
      | cons b bound => exact ⟨rfl, _, rfl⟩
  | cons l ls ih =>
      obtain ⟨row, column, _⟩ := c
      dsimp only at hrest
      subst hrest
      rw [List.flatMap_cons, List.cons_append] at hbound ⊢
      obtain ⟨b, bound, rfl⟩ := List.exists_cons_of_length_pos (Nat.zero_lt_of_lt hbound)
      rw [scanAll_space]
      obtain ⟨span, next, bound', hnext, hbound', hscan⟩ :=
        @scanAll_lexeme _ l (b :: bound) _ ⟨row, column + 1, _⟩ rfl (endsToken_flatMap Lexeme.chars ls)
          (Nat.le_of_succ_le hbound)
      obtain ⟨hkinds, hending⟩ := ih hnext (hnext ▸ hbound')
      rw [hscan]
      exact ⟨congrArg (l.kind :: ·) hkinds, hending⟩

/-- Lexemes with a space between neighbours are read in order, and then the end of the text. -/
theorem scan_spaced (ls : List Lexeme) :
    (scan (Lexeme.spaced ls)).tokens.map (·.kind) = ls.map Lexeme.kind ∧
      ∃ span, (scan (Lexeme.spaced ls)).ending = .ok span := by
  cases ls with
  | nil => exact ⟨rfl, _, rfl⟩
  | cons l ls =>
      obtain ⟨span, next, bound, hnext, hbound, hscan⟩ :=
        @scanAll_lexeme _ l _ _ (Cursor.start (Lexeme.spaced (l :: ls))) (toList_spaced l ls)
          (endsToken_flatMap Lexeme.chars ls) (Nat.le_refl _)
      obtain ⟨hkinds, hending⟩ := scanAll_spaced hnext (hnext ▸ hbound)
      unfold scan
      rw [hscan]
      exact ⟨congrArg (l.kind :: ·) hkinds, hending⟩

end Lexer
end IslandScript
