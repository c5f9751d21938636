import Mathlib.Data.List.Infix
import IslandScript.Proofs.Lexer.Piece

/-!
# What stands between two tokens

Between two tokens there are blanks and comments (`Trivia`). A comment to the end of its line has no
newline in it and is followed by one, or by the end of the text; the other kind of comment is closed, and
only by its last two characters. With both at hand the lexer can be told apart into what it skips and
what it reads: a token of the text is some trivia and a piece (`exists_readsFrom`), and that is all it
depends on (`scanNext_of_piece`).
-/

namespace IslandScript.Lexer

/-! ## Trivia -/

/-- The characters are blanks and comments, where others come behind them. -/
inductive Trivia : List Char → List Char → Prop where
  | none (v : List Char) : Trivia [] v
  | blank {gap v : List Char} (x : Char) (hx : x = ' ' ∨ x = '\t') (h : Trivia gap v) :
      Trivia (x :: gap) v
  /-- A comment through the end of its line. -/
  | line {u v : List Char} (hu : '\n' ∉ u) (hv : ∀ x ∈ v.head?, x = '\n') :
      Trivia ('/' :: '/' :: u) v
  /-- A closed comment. -/
  | block {u gap v : List Char} (hu : ¬ ['*', '/'] <:+: u) (h : Trivia gap v) :
      Trivia ('/' :: '*' :: (u ++ '*' :: '/' :: gap)) v

/-- No blank or comment starts here. -/
structure StartsNone (cs : List Char) : Prop where
  blank : ∀ x ∈ cs.head?, x ≠ ' ' ∧ x ≠ '\t'
  comment : ∀ y, y = '/' ∨ y = '*' → ¬ ['/', y] <+: cs

/-- Blanks and comments are such in front of every text that goes on like the one they stand before. -/
theorem Trivia.breaksOff {gap v w : List Char} (h : Trivia gap v) (hw : BreaksOff v w) :
    Trivia gap w := by
  induction h with
  | none => exact .none w
  | blank x hx _ ih => exact .blank x hx (ih hw)
  | line hu hv =>
      refine .line hu ?_
      cases hw with
      | ends => exact fun x hx => nomatch hx
      | breaks =>
          intro x hx
          cases hx
          rfl
      | goesOn y _ =>
          intro x hx
          cases hx
          exact hv y rfl
  | block hu _ ih => exact .block hu (ih hw)

theorem StartsNone.nil : StartsNone [] where
  blank := fun x hx => nomatch hx
  comment := by
    intro y _ hstarts
    have hlength := hstarts.length_le
    simp at hlength

/-- Nothing is skipped at the end of a row. -/
theorem StartsNone.of_newline {v : List Char} (hv : ∀ x ∈ v.head?, x = '\n') : StartsNone v := by
  cases v with
  | nil => exact .nil
  | cons x v =>
      obtain rfl := hv x rfl
      refine ⟨?_, ?_⟩
      · intro y hy
        cases hy
        decide
      · intro y _ hstarts
        have hhead := (List.cons_prefix_cons.mp hstarts).1
        exact absurd hhead (by decide)

/-- What starts no comment starts none as a part of its own, nor in front of other characters that it
breaks off or goes on with. -/
theorem StartsNone.append {u v w : List Char} (h : StartsNone (u ++ v)) (hu : u ≠ [])
    (hw : BreaksOff v w) : StartsNone (u ++ w) := by
  cases u with
  | nil => exact absurd rfl hu
  | cons x u =>
      refine ⟨h.blank, ?_⟩
      intro y hy hstarts
      refine h.comment y hy ?_
      rw [List.cons_append, List.cons_prefix_cons] at hstarts ⊢
      refine ⟨hstarts.1, ?_⟩
      cases u with
      | cons z u => simpa using hstarts.2
      | nil =>
          cases hw with
          | ends => simpa using hstarts.2
          | breaks =>
              rcases hy with rfl | rfl
              · simpa using hstarts.2
              · simpa using hstarts.2
          | goesOn z _ => simpa using hstarts.2

/-! ## Comments -/

/-- A text has a first occurrence of a terminator of two characters, or none. -/
theorem splitThrough?_eq {x y : Char} (hxy : x ≠ y) {u v : List Char} (hu : ¬ [x, y] <:+: u) :
    Cursor.splitThrough? [x, y] (u ++ x :: y :: v) = some (u ++ [x, y], v) := by
  induction u with
  | nil => simp [Cursor.splitThrough?, List.isPrefixOf]
  | cons z u ih =>
      have hnot : [x, y].isPrefixOf (z :: (u ++ x :: y :: v)) = false := by
        rw [Bool.eq_false_iff, ne_eq, List.isPrefixOf_iff_prefix, List.cons_prefix_cons]
        rintro ⟨rfl, hstarts⟩
        -- An earlier occurrence would overlap the terminator, whose characters differ, or lie before it.
        cases u with
        | nil => simp [Ne.symm hxy] at hstarts
        | cons z' u =>
            obtain ⟨rfl, -⟩ := List.cons_prefix_cons.mp hstarts
            exact hu (List.IsPrefix.isInfix ⟨u, rfl⟩)
      have hu' : ¬ [x, y] <:+: u := fun hwithin => hu (hwithin.trans (List.suffix_cons z u).isInfix)
      rw [List.cons_append, Cursor.splitThrough?, hnot, if_neg Bool.false_ne_true, ih hu']
      rfl

/-- What is skipped through a terminator ends with it and has none before. -/
theorem eq_of_splitThrough? {x y : Char} {cs skipped rest : List Char}
    (h : Cursor.splitThrough? [x, y] cs = some (skipped, rest)) :
    ∃ u, skipped = u ++ [x, y] ∧ cs = u ++ x :: y :: rest ∧ ¬ [x, y] <:+: u := by
  have hne : [x, y] ≠ [] := List.cons_ne_nil x [y]
  obtain ⟨u, hskipped, rfl, hfirst⟩ := (Cursor.splitThrough?_eq_some hne).mp h
  rw [List.append_assoc] at hfirst
  exact ⟨u, hskipped, List.append_assoc _ _ _, Text.not_infix_of_first hne hfirst⟩

/-! ## Skipping -/

/-- Nothing is skipped where no blank or comment starts. -/
theorem skipTrivia_of_startsNone {bound : List Char} {c : Cursor} (h : StartsNone c.rest) :
    skipTrivia bound c = .ok c := by
  cases bound with
  | nil => rfl
  | cons b bound =>
      have hblank : (c.current? == some ' ' || c.current? == some '\t') = false := by
        rw [Cursor.current?]
        cases hhead : c.rest.head? with
        | none => rfl
        | some x => simp [h.blank x hhead]
      have hcomment {y : Char} (hy : y = '/' ∨ y = '*') : c.startsWith ['/', y] = false := by
        rw [Cursor.startsWith, Bool.eq_false_iff, ne_eq, List.isPrefixOf_iff_prefix]
        exact h.comment y hy
      simp only [skipTrivia, hblank, hcomment (.inl rfl), hcomment (.inr rfl), Bool.false_eq_true,
        if_false]

theorem skipTrivia_blank {b x : Char} {bound v : List Char} {c : Cursor} (hx : x = ' ' ∨ x = '\t')
    (hrest : c.rest = x :: v) :
    skipTrivia (b :: bound) c = skipTrivia bound (c.skipping [x] v) := by
  have hblank : (c.current? == some ' ' || c.current? == some '\t') = true := by
    rw [Cursor.current?, hrest]
    rcases hx with rfl | rfl <;> rfl
  have htake : c.take 1 = ([x], c.skipping [x] v) := Cursor.take_append (u := [x]) hrest
  simp only [skipTrivia, hblank, htake, if_true]

theorem skipTrivia_line {b : Char} {bound u v : List Char} {c : Cursor} (hu : '\n' ∉ u)
    (hv : ∀ x ∈ v.head?, x = '\n') (hrest : c.rest = '/' :: '/' :: (u ++ v)) :
    skipTrivia (b :: bound) c = skipTrivia bound (c.skipping ('/' :: '/' :: u) v) := by
  have hblank : (c.current? == some ' ' || c.current? == some '\t') = false := by
    simp [Cursor.current?, hrest]
  have hstart : c.startsWith ['/', '/'] = true := startsWith_append c ['/', '/'] hrest
  have hu' : '\n' ∉ '/' :: '/' :: u := by simp [hu]
  have hskip : c.skipLine = c.skipping ('/' :: '/' :: u) v := Cursor.skipLine_eq hrest hu' hv
  simp only [skipTrivia, hblank, hstart, hskip, Bool.false_eq_true, if_true, if_false]

/-- At the start of a comment that is closed somewhere, all of it is skipped; one that is not closed is
an error. -/
theorem skipTrivia_block {b : Char} {bound cs : List Char} {c : Cursor}
    (hrest : c.rest = '/' :: '*' :: cs) :
    skipTrivia (b :: bound) c =
      match Cursor.splitThrough? ['*', '/'] cs with
      | some (skipped, v) => skipTrivia bound (c.skipping ('/' :: '*' :: skipped) v)
      | none => .error ⟨.earlyEndOfFile, (c.skipping ('/' :: '*' :: cs) []).here⟩ := by
  have hblank : (c.current? == some ' ' || c.current? == some '\t') = false := by
    simp [Cursor.current?, hrest]
  have hline : c.startsWith ['/', '/'] = false := by simp [Cursor.startsWith, hrest, List.isPrefixOf]
  have hstart : c.startsWith ['/', '*'] = true := startsWith_append c ['/', '*'] hrest
  have htake : c.take 2 = (['/', '*'], c.skipping ['/', '*'] cs) :=
    Cursor.take_append (u := ['/', '*']) hrest
  simp only [skipTrivia, hblank, hline, hstart, htake, Bool.false_eq_true, if_true, if_false,
    Cursor.skipThrough, Cursor.rest_skipping]
  cases Cursor.splitThrough? ['*', '/'] cs with
  | none => simp only [Cursor.skipping_skipping, List.cons_append, List.nil_append]
  | some split => simp only [Cursor.skipping_skipping, List.cons_append, List.nil_append]

/-- What the lexer skips is what stands between its tokens. -/
theorem skipTrivia_of_trivia {gap v : List Char} (hgap : Trivia gap v) (hv : StartsNone v)
    {bound : List Char} {c : Cursor} (hrest : c.rest = gap ++ v) (hbound : gap.length ≤ bound.length) :
    skipTrivia bound c = .ok (c.skipping gap v) := by
  induction hgap generalizing bound c with
  | none v =>
      rw [List.nil_append] at hrest
      subst hrest
      rw [skipTrivia_of_startsNone hv, Cursor.skipping_nil]
  | @blank gap v x hx _ ih =>
      obtain ⟨b, bound, rfl⟩ := List.exists_cons_of_length_pos (Nat.zero_lt_of_lt hbound)
      have hskip := ih hv (Cursor.rest_skipping c [x] (gap ++ v)) (Nat.le_of_succ_le_succ hbound)
      rw [Cursor.skipping_skipping] at hskip
      rw [skipTrivia_blank hx hrest]
      exact hskip
  | line hu hend =>
      obtain ⟨b, bound, rfl⟩ := List.exists_cons_of_length_pos (Nat.zero_lt_of_lt hbound)
      rw [skipTrivia_line hu hend hrest, skipTrivia_of_startsNone]
      rwa [Cursor.rest_skipping]
  | @block u gap v hu _ ih =>
      obtain ⟨b, bound, rfl⟩ := List.exists_cons_of_length_pos (Nat.zero_lt_of_lt hbound)
      have hrest' : c.rest = '/' :: '*' :: (u ++ '*' :: '/' :: (gap ++ v)) := by simpa using hrest
      rw [skipTrivia_block hrest', splitThrough?_eq (by decide) hu]
      simp only [List.length_cons, List.length_append] at hbound
      dsimp only
      rw [ih hv (Cursor.rest_skipping _ _ _) (by omega), Cursor.skipping_skipping]
      simp

/-- The lexer skips nothing but trivia, and all of it. -/
theorem trivia_of_skipTrivia {bound : List Char} {c next : Cursor}
    (hbound : c.rest.length ≤ bound.length) (h : skipTrivia bound c = .ok next) :
    ∃ gap, c.rest = gap ++ next.rest ∧ next = c.skipping gap next.rest ∧ Trivia gap next.rest ∧
      StartsNone next.rest := by
  induction bound generalizing c with
  | nil =>
      have hnil : c.rest = [] := List.eq_nil_of_length_eq_zero (Nat.le_zero.mp hbound)
      cases h
      refine ⟨[], rfl, (Cursor.skipping_nil _).symm, .none _, ?_⟩
      rw [hnil]
      exact .nil
  | cons b bound ih =>
      -- Behind one blank or one comment there is less to skip.
      have hgoOn {u v : List Char} (hu : u ≠ []) (hrest : c.rest = u ++ v)
          (hskip : skipTrivia (b :: bound) c = skipTrivia bound (c.skipping u v)) :
          ∃ gap, v = gap ++ next.rest ∧ next = c.skipping (u ++ gap) next.rest ∧
            Trivia gap next.rest ∧ StartsNone next.rest := by
        have hlength := List.length_pos_of_ne_nil hu
        rw [hrest, List.length_append, List.length_cons] at hbound
        rw [hskip] at h
        obtain ⟨gap, hv, hnext, htrivia, hstarts⟩ := ih (by rw [Cursor.rest_skipping]; omega) h
        rw [Cursor.rest_skipping] at hv
        rw [Cursor.skipping_skipping] at hnext
        exact ⟨gap, hv, hnext, htrivia, hstarts⟩
      by_cases hblank : ∃ x v, (x = ' ' ∨ x = '\t') ∧ c.rest = x :: v
      · obtain ⟨x, v, hx, hrest⟩ := hblank
        obtain ⟨gap, rfl, hnext, htrivia, hstarts⟩ :=
          hgoOn (u := [x]) (by simp) hrest (skipTrivia_blank hx hrest)
        exact ⟨x :: gap, hrest, hnext, .blank x hx htrivia, hstarts⟩
      · by_cases hline : ∃ v, c.rest = '/' :: '/' :: v
        · obtain ⟨cs, hcs⟩ := hline
          obtain ⟨u, v, rfl, hu, hv⟩ := exists_run (· != '\n') cs
          have hu' : '\n' ∉ u := fun hmem => by simpa using hu _ hmem
          have hv' : ∀ x ∈ v.head?, x = '\n' := fun x hx => by simpa using hv x hx
          -- Its newline is a token, so nothing is skipped behind it.
          have hnone := StartsNone.of_newline hv'
          rw [skipTrivia_line hu' hv' hcs, skipTrivia_of_startsNone (by rwa [Cursor.rest_skipping])] at h
          cases h
          rw [Cursor.rest_skipping]
          exact ⟨'/' :: '/' :: u, hcs, rfl, .line hu' hv', hnone⟩
        · by_cases hblock : ∃ v, c.rest = '/' :: '*' :: v
          · obtain ⟨cs, hcs⟩ := hblock
            have hskip : skipTrivia (b :: bound) c = _ := skipTrivia_block hcs
            cases hsplit : Cursor.splitThrough? ['*', '/'] cs with
            | none =>
                rw [hskip, hsplit] at h
                cases h
            | some split =>
                obtain ⟨skipped, v⟩ := split
                obtain ⟨u, rfl, rfl, hu⟩ := eq_of_splitThrough? hsplit
                rw [hsplit] at hskip
                obtain ⟨gap, rfl, hnext, htrivia, hstarts⟩ :=
                  hgoOn (u := '/' :: '*' :: (u ++ ['*', '/'])) (by simp) (by simp [hcs]) hskip
                refine ⟨'/' :: '*' :: (u ++ '*' :: '/' :: gap), by simp [hcs], ?_, .block hu htrivia,
                  hstarts⟩
                rw [hnext, Cursor.rest_skipping]
                simp
          · have hnone : StartsNone c.rest := by
              refine ⟨?_, ?_⟩
              · intro x hx
                obtain ⟨v, hv⟩ := List.head?_eq_some_iff.mp hx
                rw [← not_or]
                exact fun hx => hblank ⟨x, v, hx, hv⟩
              · rintro y (rfl | rfl) ⟨v, hv⟩
                · exact hline ⟨v, hv.symm⟩
                · exact hblock ⟨v, hv.symm⟩
            rw [skipTrivia_of_startsNone hnone] at h
            cases h
            exact ⟨[], rfl, (Cursor.skipping_nil _).symm, .none _, hnone⟩

/-! ## The next token -/

variable [Text.CharNames]

/-- The next token of a text is read from the piece `u` behind the trivia `gap`. -/
structure ReadsFrom
    (c : Cursor) (gap u : List Char) (t : Token String) (next : Cursor) : Prop where
  rest : c.rest = gap ++ (u ++ next.rest)
  trivia : Trivia gap (u ++ next.rest)
  starts : StartsNone (u ++ next.rest)
  piece : Piece u next.rest t.kind
  span : t.span = (c.skipping gap (u ++ next.rest)).spanOf u
  next_eq : next = c.skipping (gap ++ u) next.rest

/-- Trivia and a piece are read as a token wherever they stand. -/
theorem scanNext_of_piece {gap u v w : List Char} {k : TokenKind String} (hgap : Trivia gap (u ++ v))
    (hstarts : StartsNone (u ++ v)) (hpiece : Piece u v k) (hw : BreaksOff v w) {c : Cursor}
    (hrest : c.rest = gap ++ (u ++ w)) :
    scanNext c =
      .ok (.token ⟨(c.skipping gap (u ++ w)).spanOf u, k⟩ (c.skipping (gap ++ u) w)) := by
  have hskip : skipTrivia c.rest c = .ok (c.skipping gap (u ++ w)) := by
    refine skipTrivia_of_trivia (hgap.breaksOff (hw.append u)) (hstarts.append hpiece.ne_nil hw) hrest ?_
    rw [hrest, List.length_append]
    exact Nat.le_add_right _ _
  have hhere : (c.skipping gap (u ++ w)).rest = u ++ w := Cursor.rest_skipping _ _ _
  obtain ⟨x, more, rfl⟩ := List.exists_cons_of_ne_nil hpiece.ne_nil
  have hcurrent : (c.skipping gap (x :: more ++ w)).current? = some x := congrArg List.head? hhere
  have hscan := hpiece.takes x rfl (c.skipping gap (x :: more ++ w)) w hw hhere
  have hspan := Cursor.spanFrom_here hpiece.ne_nil (c.skipping gap (x :: more ++ w)) w
  simp only [scanNext, hskip, hcurrent, hscan, hspan]
  rw [Cursor.skipping_skipping]

/-- Behind the last trivia the text has ended. -/
theorem scanNext_of_trivia {c : Cursor} (h : Trivia c.rest []) :
    scanNext c = .ok (.finish (c.skipping c.rest []).here) := by
  have hskip : skipTrivia c.rest c = .ok (c.skipping c.rest []) :=
    skipTrivia_of_trivia h .nil (List.append_nil _).symm (Nat.le_refl _)
  have hcurrent : (c.skipping c.rest []).current? = none :=
    congrArg List.head? (Cursor.rest_skipping _ _ _)
  simp only [scanNext, hskip, hcurrent]

/-- Every token is read from a piece behind some trivia. -/
theorem exists_readsFrom {c next : Cursor} {t : Token String}
    (h : scanNext c = .ok (.token t next)) : ∃ gap u, ReadsFrom c gap u t next := by
  unfold scanNext at h
  cases hskip : skipTrivia c.rest c with
  | error e =>
      rw [hskip] at h
      cases h
  | ok here =>
      obtain ⟨gap, hrest, hhere, hgap, hstarts⟩ := trivia_of_skipTrivia (Nat.le_refl _) hskip
      rw [hskip] at h
      dsimp only at h
      split at h
      next => cases h
      next x hx =>
        split at h
        next => cases h
        next k last hscan =>
          cases h
          obtain ⟨u, hu, hpiece⟩ := exists_piece hx hscan
          rw [hu] at hrest hgap hstarts hhere
          have hnext := hpiece.takes x ?_ here next.rest (.refl _) hu
          · have hscan' : scanKind here x = .ok (k, here.skipping u next.rest) := hnext
            rw [hscan] at hscan'
            obtain ⟨-, hnext⟩ := Prod.mk.inj (Except.ok.inj hscan')
            refine ⟨gap, u, hrest, hgap, hstarts, hpiece, ?_, ?_⟩
            · have hspan := Cursor.spanFrom_here hpiece.ne_nil here next.rest
              rw [← hnext, hhere] at hspan
              rw [hhere, hspan]
            · rw [hhere, Cursor.skipping_skipping] at hnext
              exact hnext
          · obtain ⟨y, more, rfl⟩ := List.exists_cons_of_ne_nil hpiece.ne_nil
            have hhead : here.rest.head? = some y := congrArg List.head? hu
            rw [Cursor.current?, hhead] at hx
            exact hx

/-- At the end of a text there is nothing but trivia. -/
theorem trivia_of_finish {c : Cursor} {here : Span} (h : scanNext c = .ok (.finish here)) :
    Trivia c.rest [] ∧ here = (c.skipping c.rest []).here := by
  unfold scanNext at h
  cases hskip : skipTrivia c.rest c with
  | error e =>
      rw [hskip] at h
      cases h
  | ok last =>
      obtain ⟨gap, hrest, hlast, hgap, -⟩ := trivia_of_skipTrivia (Nat.le_refl _) hskip
      rw [hskip] at h
      dsimp only at h
      split at h
      next hend =>
        cases h
        have hnil : last.rest = [] := List.head?_eq_none_iff.mp hend
        rw [hnil, List.append_nil] at hrest
        rw [hnil] at hgap hlast
        rw [hrest]
        exact ⟨hgap, congrArg Cursor.here hlast⟩
      next => split at h <;> cases h

/-- A token takes at least one character. -/
theorem ReadsFrom.length_lt {c next : Cursor} {gap u : List Char} {t : Token String}
    (h : ReadsFrom c gap u t next) : next.rest.length < c.rest.length := by
  have hlength := List.length_pos_of_ne_nil h.piece.ne_nil
  rw [h.rest, List.length_append, List.length_append]
  omega

/-! ## All tokens -/

theorem scanAll_finish {c : Cursor} {here : Span} (h : scanNext c = .ok (.finish here)) (x : Char)
    (bound : List Char) : scanAll (x :: bound) c = ⟨[], .ok here⟩ := by
  simp only [scanAll, h]

theorem scanAll_token {c next : Cursor} {t : Token String} (h : scanNext c = .ok (.token t next))
    (x : Char) (bound : List Char) :
    scanAll (x :: bound) c = ⟨t :: (scanAll bound next).tokens, (scanAll bound next).ending⟩ := by
  simp only [scanAll, h]

theorem scanAll_error {c : Cursor} {e : LexError} (h : scanNext c = .error e) (x : Char)
    (bound : List Char) : scanAll (x :: bound) c = ⟨[], .error e⟩ := by
  simp only [scanAll, h]

theorem scanAll_of_end {c : Cursor} (h : c.rest = []) (bound : List Char) :
    scanAll bound c = ⟨[], .ok c.here⟩ := by
  cases bound with
  | nil => rfl
  | cons b bound =>
      have htrivia : Trivia c.rest [] := by
        rw [h]
        exact .none []
      have hhere : c.skipping c.rest [] = c := by
        have hnil := c.skipping_nil
        rwa [h] at hnil ⊢
      rw [scanAll_finish (scanNext_of_trivia htrivia), hhere]

/-- How many tokens may be read does not matter if there are not more characters. -/
theorem scanAll_bound {bound bound' : List Char} {c : Cursor} (h : c.rest.length ≤ bound.length)
    (h' : c.rest.length ≤ bound'.length) : scanAll bound c = scanAll bound' c := by
  induction bound generalizing bound' c with
  | nil =>
      have hnil : c.rest = [] := List.eq_nil_of_length_eq_zero (Nat.le_zero.mp h)
      rw [scanAll_of_end hnil, scanAll_of_end hnil]
  | cons b bound ih =>
      cases bound' with
      | nil =>
          have hnil : c.rest = [] := List.eq_nil_of_length_eq_zero (Nat.le_zero.mp h')
          rw [scanAll_of_end hnil, scanAll_of_end hnil]
      | cons b' bound' =>
          cases hscan : scanNext c with
          | error e => rw [scanAll_error hscan, scanAll_error hscan]
          | ok next =>
              cases next with
              | finish here => rw [scanAll_finish hscan, scanAll_finish hscan]
              | token t next =>
                  obtain ⟨gap, u, hreads⟩ := exists_readsFrom hscan
                  have hlength := hreads.length_lt
                  rw [List.length_cons] at h h'
                  have hsame : scanAll bound next = scanAll bound' next := ih (by omega) (by omega)
                  rw [scanAll_token hscan, scanAll_token hscan, hsame]

/-- Any bound that has as many characters as the text is enough for all its tokens. -/
theorem scan_eq_scanAll {text : String} {cs bound : List Char} (hcs : text.toList = cs)
    (h : cs.length ≤ bound.length) : scan text = scanAll bound ⟨1, 1, cs⟩ := by
  subst hcs
  exact scanAll_bound (Nat.le_refl _) h

/-- A text has tokens if it ends, and the last of them stands where it does. -/
theorem tokenize_eq (text : String) :
    tokenize text = (scan text).ending.map fun here => (scan text).tokens ++ [⟨here, .endOfFile⟩] := by
  unfold tokenize
  dsimp only
  cases (scan text).ending with
  | error e => rfl
  | ok here => rfl

theorem exists_scan_of_tokenize {text : String} {ts : List (Token String)}
    (h : tokenize text = .ok ts) :
    ∃ here, (scan text).ending = .ok here ∧ ts = (scan text).tokens ++ [⟨here, .endOfFile⟩] := by
  rw [tokenize_eq] at h
  cases hending : (scan text).ending with
  | error e =>
      rw [hending] at h
      cases h
  | ok here =>
      rw [hending] at h
      cases h
      exact ⟨here, rfl, rfl⟩

end IslandScript.Lexer
