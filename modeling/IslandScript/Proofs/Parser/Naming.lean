import IslandScript.Proofs.Parser.Renaming.Program

/-!
# Parsing over the names of an interner

An interner that scans a text gives its words names. These are read back from it, and from every interner
that comes from it, as the words (`mapNames_scan`); and of a name of the language it can be told that it
is one without its text (`isReserved_text`). So what is parsed over the names is, once they are read back,
what is parsed over the words (`parse_readBack`).
-/

namespace IslandScript

namespace Interner

variable {i j : Interner} {n : Name}

/-! ## Names and their texts -/

/-- Only one name stands for a text that is not empty. -/
theorem text_eq_iff {l : Nat} {text : String} (hl : i.texts[l]? = some text) (hne : text ≠ "") :
    i.text n = text ↔ n = ⟨l⟩ := by
  have hname : i.get? text = some ⟨l⟩ := get?_eq_some_iff.mpr hl
  unfold Interner.text
  constructor
  · intro heq
    cases hn : i.texts[n.index]? with
    | none =>
        rw [hn] at heq
        exact absurd heq.symm hne
    | some other =>
        rw [hn] at heq
        have hother : other = text := heq
        rw [hother] at hn
        exact Option.some.inj ((get?_eq_some_iff.mpr hn).symm.trans hname)
  · rintro rfl
    rw [hl]
    rfl

/-- Whether a name is reserved can be told without its text. -/
theorem isReserved_text (i : Interner) (n : Name) : Parser.isReserved (i.text n) = n.isReserved := by
  have hthis : i.text n = "this" ↔ n = .this := text_eq_iff (i.fixed 1 "this" rfl) (by decide)
  have hbase : i.text n = "base" ↔ n = .base := text_eq_iff (i.fixed 2 "base" rfl) (by decide)
  rw [Bool.eq_iff_iff]
  simp only [Parser.isReserved, Name.isReserved, Bool.or_eq_true, beq_iff_eq]
  exact or_congr hthis hbase

/-- The names of an interner may be replaced by their texts. -/
theorem renaming_text (i : Interner) : @Parser.Renaming Name String i.naming _ i.text :=
  letI := i.naming
  ⟨fun _ => rfl, i.isReserved_text⟩

/-- A name that stands for a text is left, another is replaced by the name of the empty text, as which it
is read. -/
def known (i : Interner) (n : Name) : Name := if n.index < i.size then n else .empty

/-- A name that is known reads the same from every interner that comes later. -/
theorem text_known (h : i.Grows j) (n : Name) : j.text (i.known n) = i.text n := by
  unfold known
  split
  next hlt =>
    have hi : i.texts[n.index]? = some i.texts[n.index] := Array.getElem?_eq_getElem hlt
    rw [Interner.text, Interner.text, h.getElem? hi, hi]
  next hlt =>
    have hi : i.texts[n.index]? = none := Array.getElem?_eq_none (Nat.le_of_not_lt hlt)
    have hempty : j.texts[Name.empty.index]? = some "" := j.fixed 0 "" rfl
    rw [Interner.text, Interner.text, hempty, hi]
    rfl

theorem isReserved_known (i : Interner) (n : Name) : (i.known n).isReserved = n.isReserved := by
  rw [← i.isReserved_text, text_known .refl, i.isReserved_text]

theorem renaming_known (i : Interner) : @Parser.Renaming Name Name i.naming i.naming i.known :=
  letI := i.naming
  ⟨text_known .refl, i.isReserved_known⟩

theorem known_of_getElem? {text : String} (h : i.texts[n.index]? = some text) : i.known n = n :=
  if_pos (Array.getElem?_eq_some_iff.mp h).1

/-! ## Tokens -/

theorem grows_token (i : Interner) (t : Token String) : i.Grows (i.token t).2 := by
  obtain ⟨span, kind⟩ := t
  cases kind with
  | name text => exact Grows.refl.intern text
  | _ => exact .refl

/-- A token whose name was interned is read back. -/
theorem mapNames_token {t : Token String} (h : (i.token t).2.Grows j) :
    (i.token t).1.mapNames j.text = t := by
  obtain ⟨span, kind⟩ := t
  cases kind with
  | name text => exact congrArg (fun text => Token.mk span (.name text)) (text_of_grows h)
  | _ => rfl

theorem known_token {t : Token String} (h : (i.token t).2.Grows j) :
    (i.token t).1.mapNames j.known = (i.token t).1 := by
  obtain ⟨span, kind⟩ := t
  cases kind with
  | name text =>
      exact congrArg (fun n => Token.mk span (.name n))
        (known_of_getElem? (h.getElem? (i.getElem?_intern text)))
  | _ => rfl

variable [Text.CharNames]

theorem grows_scanAll (i : Interner) (bound : List Char) (c : Cursor) :
    i.Grows (i.scanAll bound c).2 := by
  induction bound generalizing i c with
  | nil => exact .refl
  | cons b bound ih =>
      unfold scanAll
      split
      next => exact .refl
      next => exact .refl
      next t next _ => exact (i.grows_token t).trans (ih _ next)

/-- The tokens of a text are read back as those over its words, and all of their names are known. -/
theorem mapNames_scanAll {bound : List Char} {c : Cursor} (h : (i.scanAll bound c).2.Grows j) :
    (i.scanAll bound c).1.mapNames j.text = Lexer.scanAll bound c ∧
      (i.scanAll bound c).1.mapNames j.known = (i.scanAll bound c).1 := by
  induction bound generalizing i c with
  | nil => exact ⟨rfl, rfl⟩
  | cons b bound ih =>
      cases hscan : Lexer.scanNext c with
      | error e =>
          simp only [scanAll, Lexer.scanAll, hscan]
          exact ⟨rfl, rfl⟩
      | ok next =>
          cases next with
          | finish span =>
              simp only [scanAll, Lexer.scanAll, hscan]
              exact ⟨rfl, rfl⟩
          | token t next =>
              simp only [scanAll, Lexer.scanAll, hscan] at h ⊢
              obtain ⟨htext, hknown⟩ := ih h
              have hgrows := (grows_scanAll _ bound next).trans h
              refine ⟨?_, ?_⟩
              · exact congr (congrArg (fun t (stream : TokenStream String) =>
                  TokenStream.mk (t :: stream.tokens) stream.ending) (mapNames_token hgrows)) htext
              · exact congr (congrArg (fun t (stream : TokenStream Name) =>
                  TokenStream.mk (t :: stream.tokens) stream.ending) (known_token hgrows)) hknown

theorem grows_scan (i : Interner) (text : String) : i.Grows (i.scan text).2 :=
  i.grows_scanAll _ _

theorem mapNames_scan {text : String} (h : (i.scan text).2.Grows j) :
    (i.scan text).1.mapNames j.text = Lexer.scan text :=
  (mapNames_scanAll h).1

theorem known_scan (i : Interner) (text : String) :
    (i.scan text).1.mapNames (i.scan text).2.known = (i.scan text).1 :=
  (mapNames_scanAll .refl).2

end Interner

/-! ## Programs -/

theorem Parsed.mapNames_mapNames {ν μ κ : Type} (f : ν → μ) (g : μ → κ) (parsed : Parsed ν) :
    (parsed.mapNames f).mapNames g = parsed.mapNames (g ∘ f) :=
  congrArg (Parsed.mk · parsed.warnings) (Stmts.mapNames_mapNames f g parsed.program)

namespace Interner

variable {i j : Interner} {text : String}

/-- Where all names of a stream are known, it is parsed over its texts as it is over its names. -/
theorem parse_known (h : i.Grows j) {stream : TokenStream Name}
    (hknown : stream.mapNames i.known = stream) :
    (@TokenStream.parse _ _ i.naming stream).map (·.mapNames j.text) =
      (stream.mapNames i.text).parse := by
  let := i.naming
  have := i.renaming_text
  have := i.renaming_known
  -- the names of the program are those of the stream, so they are known as well
  have hself : stream.parse = stream.parse.map (·.mapNames i.known) := by
    rw [← TokenStream.parse_mapNames, hknown]
  rw [TokenStream.parse_mapNames]
  cases hparse : stream.parse with
  | error e => rfl
  | ok parsed =>
      rw [hparse] at hself
      have hparsed : parsed = parsed.mapNames i.known := Except.ok.inj hself
      have htext : j.text ∘ i.known = i.text := funext (text_known h)
      refine congrArg Except.ok ?_
      calc parsed.mapNames j.text
          = (parsed.mapNames i.known).mapNames j.text := by rw [← hparsed]
        _ = parsed.mapNames (j.text ∘ i.known) := parsed.mapNames_mapNames _ _
        _ = parsed.mapNames i.text := by rw [htext]

variable [Text.CharNames]

theorem parse_eq (i : Interner) (text : String) :
    i.parse text = (@TokenStream.parse _ _ (i.scan text).2.naming (i.scan text).1).map
      fun parsed => { parsed with interner := (i.scan text).2 } :=
  rfl

/-- What is parsed over names is, once they are read back, what is parsed over words. -/
theorem parse_readBack (h : (i.scan text).2.Grows j) :
    (i.parse text).map (·.toParsed.mapNames j.text) = IslandScript.parse text := by
  have hread := parse_known h (i.known_scan text)
  rw [mapNames_scan .refl] at hread
  rw [parse_eq, IslandScript.parse, ← hread]
  cases @TokenStream.parse _ _ (i.scan text).2.naming (i.scan text).1 <;> rfl

/-- The interner of a program comes from the one that its text was parsed with. -/
theorem interner_of_parse {p : InternedProgram} (h : i.parse text = .ok p) :
    p.interner = (i.scan text).2 := by
  rw [parse_eq] at h
  cases hparse : @TokenStream.parse _ _ (i.scan text).2.naming (i.scan text).1 with
  | error e =>
      rw [hparse] at h
      cases h
  | ok parsed =>
      rw [hparse] at h
      cases h
      rfl

theorem grows_parse {p : InternedProgram} (h : i.parse text = .ok p) : i.Grows p.interner := by
  rw [interner_of_parse h]
  exact i.grows_scan text

/-- A text that is parsed over names is parsed over words, and the names stand for these. -/
theorem parse_read {p : InternedProgram} (h : i.parse text = .ok p) (hj : p.interner.Grows j) :
    IslandScript.parse text = .ok (p.toParsed.mapNames j.text) := by
  rw [interner_of_parse h] at hj
  rw [← parse_readBack hj, h]
  rfl

/-- A text is refused over names as it is over words. -/
theorem parse_eq_error_iff {e : Parser.Failure} :
    i.parse text = .error e ↔ IslandScript.parse text = .error e := by
  rw [← @parse_readBack i _ text _ .refl]
  cases i.parse text with
  | error e' =>
      constructor
      · exact fun h => congrArg Except.error (Except.error.inj h)
      · exact fun h => congrArg Except.error (Except.error.inj h)
  | ok p => exact ⟨nofun, nofun⟩

end Interner
end IslandScript
