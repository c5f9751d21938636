import IslandScript.Proofs.Lexer.Trivia

/-!
# Texts without escapes

Where there is no backslash there is no escape, so nothing asks what a character is called: such a text
has the same tokens whatever the names are (`scanAll_of_plain`).
-/

namespace IslandScript
namespace Lexer

/-- There are no escapes among some characters. -/
def Plain (cs : List Char) : Prop := '\\' ∉ cs

variable (names names' : Text.CharNames)

theorem scanCharacters_of_plain {bound read : List Char} {c : Cursor} (h : Plain c.rest) :
    @scanCharacters names bound read c = @scanCharacters names' bound read c := by
  induction bound generalizing read c with
  | nil => rfl
  | cons b bound ih =>
      cases hrest : c.rest with
      | nil => simp only [scanCharacters, Cursor.bump?_nil hrest]
      | cons x v =>
          obtain ⟨hx, hv⟩ := not_or.mp (mt List.mem_cons.mpr (hrest ▸ h))
          have hgoOn := @ih (x :: read) (c.skipping [x] v) (by rwa [Cursor.rest_skipping])
          rw [@scanCharacters_cons names _ _ _ hrest, @scanCharacters_cons names' _ _ _ hrest,
            if_neg (Ne.symm hx), if_neg (Ne.symm hx), hgoOn]

theorem scanString_of_plain {c : Cursor} (h : Plain c.rest) :
    @scanString names c = @scanString names' c := by
  have hnext : Plain (c.take 1).2.rest := by
    rw [Cursor.take_eq, Cursor.rest_skipping]
    exact fun hmem => h (List.mem_of_mem_drop hmem)
  unfold scanString
  dsimp only
  rw [scanCharacters_of_plain names names' hnext]

theorem scanKind_of_plain {c : Cursor} (x : Char) (h : Plain c.rest) :
    @scanKind names c x = @scanKind names' c x := by
  unfold scanKind
  rw [scanString_of_plain names names' h]

theorem scanNext_of_plain {c : Cursor} (h : Plain c.rest) :
    @scanNext names c = @scanNext names' c := by
  unfold scanNext
  cases hskip : skipTrivia c.rest c with
  | error e => rfl
  | ok here =>
      obtain ⟨gap, hrest, -⟩ := trivia_of_skipTrivia (Nat.le_refl _) hskip
      have hhere : Plain here.rest := fun hmem => h (hrest ▸ List.mem_append_right gap hmem)
      cases hx : here.current? with
      | none => simp only [hx]
      | some x => simp only [hx, scanKind_of_plain names names' x hhere]

/-- There are none behind a token either. -/
theorem Plain.next [Text.CharNames] {c next : Cursor} {t : Token String} (h : Plain c.rest)
    (hscan : scanNext c = .ok (.token t next)) : Plain next.rest := by
  obtain ⟨gap, u, hreads⟩ := exists_readsFrom hscan
  exact fun hmem => h (hreads.rest ▸ List.mem_append_right gap (List.mem_append_right u hmem))

/-- The tokens of a text without escapes do not depend on what characters are called. -/
theorem scanAll_of_plain {bound : List Char} {c : Cursor} (h : Plain c.rest) :
    @scanAll names bound c = @scanAll names' bound c := by
  induction bound generalizing c with
  | nil => rfl
  | cons b bound ih =>
      simp only [scanAll, scanNext_of_plain names names' h]
      cases hscan : @scanNext names' c with
      | error e => rfl
      | ok next =>
          cases next with
          | finish span => rfl
          | token t next => simp only [ih (h.next hscan)]

end Lexer

/-- Nor do they if its words are interned on the way. -/
theorem Interner.scanAll_of_plain (names names' : Text.CharNames) {i : Interner} {bound : List Char}
    {c : Cursor} (h : Lexer.Plain c.rest) :
    @Interner.scanAll names i bound c = @Interner.scanAll names' i bound c := by
  induction bound generalizing i c with
  | nil => rfl
  | cons b bound ih =>
      simp only [Interner.scanAll, Lexer.scanNext_of_plain names names' h]
      cases hscan : @Lexer.scanNext names' c with
      | error e => rfl
      | ok next =>
          cases next with
          | finish span => rfl
          | token t next => simp only [ih (h.next hscan)]

end IslandScript
