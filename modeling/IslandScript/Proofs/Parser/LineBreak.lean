import Mathlib
import IslandScript.Command.Characters
import IslandScript.Proofs.Lexer.LineBreak
import IslandScript.Proofs.Parser.Follows.Program

/-!
# Programs one below the other

Of two texts, one below the other, the parser makes the statements of the first and then those of the
second, unless a statement of the first takes up the first token of the second (`parse_lineBreak`). For
that it must end with a conditional or a `try` that may go on, as it may do on a later row. The runs are
compared in three steps: that on the first text with one on both texts up to the first token of the second,
this one with that on both texts, and from that token on the run on the second text with that on both.
-/

namespace IslandScript

/-! ## Further down -/

/-- A span of a text that many rows further down; what stands nowhere stays there. -/
def Span.lower (k : Nat) (s : Span) : Span := if s.isNone then s else s.down k

theorem Span.lower_of_placed {k : Nat} {s : Span} (h : s.isNone = false) : s.lower k = s.down k :=
  if_neg (Bool.eq_false_iff.mp h)

/-- Spans are joined further down as they are above. -/
theorem Span.rangeTo_lower (k : Nat) (s t : Span) :
    (s.lower k).rangeTo (t.lower k) = (s.rangeTo t).lower k := by
  unfold rangeTo lower down isNone
  grind

/-- What is parsed of a text, that many rows further down. -/
def Parsed.lower (k : Nat) (p : Parsed String) : Parsed String :=
  ⟨p.program.map (Stmt.mapSpans (Span.lower k)), p.warnings.map (ParseWarning.mapSpan (Span.lower k))⟩

/-- What is parsed of a text, and behind it what is parsed of another. -/
instance : Append (Parsed String) := ⟨fun p q => ⟨p.program ++ q.program, p.warnings ++ q.warnings⟩⟩

namespace Lexer

theorem row_skipping_ne_zero {c : Cursor} (hc : c.row ≠ 0) (u v : List Char) :
    (c.skipping u v).row ≠ 0 := by
  rw [Cursor.row_skipping]
  omega

variable [Text.CharNames]

/-- The tokens of a text have a place, and the end of the text is none of them. -/
theorem placed_of_mem_scanAll {bound : List Char} {c : Cursor} (hc : c.row ≠ 0) {t : Token String}
    (ht : t ∈ (scanAll bound c).tokens) : t.kind ≠ .endOfFile ∧ t.span.isNone = false := by
  induction bound generalizing c with
  | nil => cases ht
  | cons b bound ih =>
      cases hscan : scanNext c with
      | error e =>
          rw [scanAll_error hscan] at ht
          cases ht
      | ok next =>
          cases next with
          | finish here =>
              rw [scanAll_finish hscan] at ht
              cases ht
          | token x next =>
              obtain ⟨gap, u, hreads⟩ := exists_readsFrom hscan
              rw [scanAll_token hscan] at ht
              rcases List.mem_cons.mp ht with rfl | ht
              · refine ⟨hreads.piece.kind_ne, ?_⟩
                rw [hreads.span]
                exact beq_eq_false_iff_ne.mpr (row_skipping_ne_zero hc gap (u ++ next.rest))
              · refine ih ?_ ht
                rw [hreads.next_eq]
                exact row_skipping_ne_zero hc _ _

theorem placed_of_mem_scan {text : String} {t : Token String} (ht : t ∈ (scan text).tokens) :
    t.kind ≠ .endOfFile ∧ t.span.isNone = false := placed_of_mem_scanAll Nat.one_ne_zero ht

/-- The end of a text has a place. -/
theorem placed_of_ending_scanAll {bound : List Char} {c : Cursor} (hc : c.row ≠ 0) {here : Span}
    (h : (scanAll bound c).ending = .ok here) : here.isNone = false := by
  induction bound generalizing c with
  | nil =>
      cases h
      exact beq_eq_false_iff_ne.mpr hc
  | cons b bound ih =>
      cases hscan : scanNext c with
      | error e =>
          rw [scanAll_error hscan] at h
          cases h
      | ok next =>
          cases next with
          | finish here =>
              rw [scanAll_finish hscan] at h
              cases h
              obtain ⟨-, rfl⟩ := trivia_of_finish hscan
              exact beq_eq_false_iff_ne.mpr (row_skipping_ne_zero hc c.rest [])
          | token x next =>
              obtain ⟨gap, u, hreads⟩ := exists_readsFrom hscan
              rw [scanAll_token hscan] at h
              refine ih ?_ h
              rw [hreads.next_eq]
              exact row_skipping_ne_zero hc _ _

end Lexer

namespace Parser

variable {j : Seam} {s s' : State String}

/-! ## What does not move -/

theorem moved_id_tokens (ts : List (Token String)) : moved id ts = ts := List.map_id ts

theorem moved_id_warnings (ws : List ParseWarning) : moved id ws = ws := by
  have hsame : (moved id : ParseWarning → ParseWarning) = id := by
    funext w
    cases w <;> rfl
  change ws.map (moved id) = ws
  rw [hsame, List.map_id]

theorem moved_id_program (l : Program String) : moved id l = l := by
  have hsame : (moved id : Stmt String → Stmt String) = id := funext Stmt.mapSpans_id
  change l.map (moved id) = l
  rw [hsame, List.map_id]

/-! ## Seams -/

/-- A text that breaks off, and the same going on. -/
def Seam.broken (tail : List (Token String)) (e : LexError) (ending : Except LexError Span) : Seam where
  move := id
  rangeTo_move := fun _ _ => rfl
  before := []
  tail := tail
  ending := .error e
  ending' := ending
  joins := .broken tail e ending

/-- A text, and the same with line ends and another token behind it, where it breaks off. -/
def Seam.upTo {ends : List (Token String)} {first : Token String} (here : Span) (e : LexError)
    (hne : ends ≠ []) (hends : ∀ t ∈ ends, t.kind = .endOfLine) (hfirst : first.kind ≠ .endOfLine) :
    Seam where
  move := id
  rangeTo_move := fun _ _ => rfl
  before := []
  tail := ends ++ [first]
  ending := .ok here
  ending' := .error e
  joins := .upTo here e hne hends hfirst

/-- A text, and the same with line ends behind it. -/
def Seam.blank {ends : List (Token String)} (here last : Span) (hne : ends ≠ [])
    (hends : ∀ t ∈ ends, t.kind = .endOfLine) : Seam where
  move := id
  rangeTo_move := fun _ _ => rfl
  before := []
  tail := ends
  ending := .ok here
  ending' := .ok last
  joins := .blank here last hne hends

/-- The rest of a text, and the same that many rows further down, where there were warnings before. -/
def Seam.lower (k : Nat) (before : List ParseWarning) (here : Span) : Seam where
  move := Span.lower k
  rangeTo_move := Span.rangeTo_lower k
  before := before
  tail := []
  ending := .ok here
  ending' := .ok (here.lower k)
  joins := .same here

/-! ## Runs on a stream and on a longer one -/

/-- The two runs start together, and neither is behind the line ends yet. -/
theorem Seam.tracks_start (hbefore : j.before = []) {ts : List (Token String)}
    (htokens : ∀ t ∈ ts, t.kind ≠ .endOfFile) (h : State.start ⟨ts, j.ending⟩ = .ok s) :
    ∃ phase s', State.start ⟨moved j.move ts ++ j.tail, j.ending'⟩ = .ok s' ∧ j.Tracks phase s s' := by
  cases ts with
  | cons t ts =>
      cases h
      have hinside : j.Tracks .inside ⟨t, ts, j.ending, [], []⟩
          ⟨moved j.move t, moved j.move ts ++ j.tail, j.ending', j.before ++ [], []⟩ :=
        .inside fun _ => htokens
      rw [hbefore] at hinside
      exact ⟨.inside, _, rfl, hinside⟩
  | nil =>
      cases hending : j.ending with
      | error e =>
          rw [hending] at h
          cases h
      | ok here =>
          rw [hending] at h
          cases h
          rcases j.tail_of_ending hending with ⟨htail, hending'⟩ | ⟨t, rest, htail, hline⟩
          · have hinside : j.Tracks .inside ⟨⟨here, .endOfFile⟩, [], j.ending, [], []⟩
                ⟨⟨j.move here, .endOfFile⟩, [] ++ j.tail, j.ending', j.before ++ [], []⟩ :=
              .inside fun hne => absurd htail hne
            rw [hbefore, htail, hending, hending'] at hinside
            rw [htail, hending']
            exact ⟨.inside, _, rfl, hinside⟩
          · have hbreak : j.Tracks .atBreak ⟨⟨here, .endOfFile⟩, [], j.ending, [], []⟩
                ⟨t, rest, j.ending', j.before ++ [], []⟩ := .atBreak hending htail hline
            rw [hbefore, hending] at hbreak
            rw [htail]
            exact ⟨.atBreak, _, rfl, hbreak⟩

theorem Seam.Tracks.skip {phase : Phase} {mid : State String} (h : j.Tracks phase s s')
    (hskip : skipLineEnds s = .ok ((), mid)) :
    ∃ phase' mid', skipLineEnds s' = .ok ((), mid') ∧ j.Tracks phase' mid mid' := by
  have hfollows : Follows j True skipLineEnds skipLineEnds _ _ := follows_skipLineEnds
  obtain ⟨-, ⟨phase', mid', hskip', htracks, -⟩ | ⟨-, -, hfalse⟩⟩ :=
    hfollows phase s s' h (fun _ => trivial) () mid hskip
  · exact ⟨phase', mid', hskip', htracks⟩
  · exact hfalse.elim

/-- A run to the end of a text comes behind the line ends of the longer, or is stopped there. -/
theorem Seam.Tracks.statements {phase : Phase} {n m count : Nat} {l : Program String} {last : State String}
    (h : j.Tracks phase s s') (hnm : n ≤ m)
    (hrun : Parser.statements (grammar n) count s = .ok (l, last)) :
    last.classes = s.classes ∧
      ((∃ phase' last', Parser.statements (grammar m) count s' = .ok (moved j.move l, last') ∧
          j.Tracks phase' last last') ∨
        (∃ e, Parser.statements (grammar m) count s' = .error e) ∧ IsEnd last ∧ LastGoesOn j l) := by
  have hfollows : Follows j True (Parser.statements (grammar n) count)
      (Parser.statements (grammar m) count) _ _ := follows_statements (follows_grammar hnm) count
  obtain ⟨hclasses, ⟨phase', last', hrun', htracks, -⟩ | hstopped⟩ :=
    hfollows phase s s' h (fun _ => trivial) l last hrun
  · exact ⟨hclasses, .inl ⟨phase', last', hrun', htracks⟩⟩
  · exact ⟨hclasses, .inr hstopped⟩

/-- The longer stream has more tokens by those behind the shorter, unless that is at its end. -/
theorem Seam.Tracks.length_eq {phase : Phase} (h : j.Tracks phase s s') :
    s'.rest.length = s.rest.length + j.tail.length ∨ IsEnd s := by
  cases h with
  | inside =>
      left
      simp only [moved, List.length_append, List.length_map]
  | atBreak => exact .inr ⟨rfl, rfl⟩
  | first => exact .inr ⟨rfl, rfl⟩
  | finished => exact .inr ⟨rfl, rfl⟩

/-- Where the shorter stream breaks off, no run comes to its end. -/
theorem Seam.Tracks.inside_of_error {phase : Phase} (h : j.Tracks phase s s') {e : LexError}
    (he : j.ending = .error e) : phase = .inside := by
  cases h with
  | inside => rfl
  | atBreak hok => cases he.symm.trans hok
  | first hok => cases he.symm.trans hok
  | finished hok => cases he.symm.trans hok

theorem Seam.Tracks.warnings_eq {phase : Phase} (h : j.Tracks phase s s') :
    s'.warnings = j.before ++ moved j.move s.warnings := by
  cases h <;> rfl

theorem Seam.Tracks.passed_of_end {phase : Phase} (h : j.Tracks phase s s')
    (hend : s.current.kind = .endOfFile) (htail : j.tail ≠ []) (hline : s'.current.kind ≠ .endOfLine) :
    phase = .passed := by
  cases h with
  | inside htokens => exact absurd hend (htokens htail _ List.mem_cons_self)
  | atBreak _ _ hline' => exact absurd hline' hline
  | first => rfl
  | finished => rfl

theorem Seam.not_goesOn (h : ∀ t ∈ j.tail.getLast?, t.kind = .endOfLine) : ¬ j.GoesOn := by
  rintro ⟨k, ⟨t, ht, rfl⟩, hgoesOn⟩
  rw [h t ht] at hgoesOn
  cases hgoesOn

/-! ## Parsed texts -/

/-- How a text is parsed: where the parser starts, stands behind the first line ends, and stops. -/
structure Run [Text.CharNames]
    (text : String) (p : Parsed String) (start mid last : State String) : Prop where
  start_eq : State.start (Lexer.scan text) = .ok start
  skips : skipLineEnds start = .ok ((), mid)
  reads : statements (grammar (2 * (Lexer.scan text).tokens.length + 2)) p.program.length mid =
    .ok (p.program, last)
  atEnd : last.current.kind = .endOfFile
  bounded : p.program.length ≤ mid.rest.length + 1
  warnings_eq : last.warnings = p.warnings

variable {text : String} {p : Parsed String} {start mid last : State String}

theorem parse_eq_bind [Text.CharNames] (text : String) : parse text =
    (State.start (Lexer.scan text)).bind fun start =>
      (program (grammar (2 * (Lexer.scan text).tokens.length + 2)) start).bind fun (found, s) =>
        .ok ⟨found, s.warnings⟩ := rfl

theorem exists_run [Text.CharNames]
    (h : parse text = .ok p) : ∃ start mid last, Run text p start mid last := by
  rw [parse_eq_bind] at h
  cases hstart : State.start (Lexer.scan text) with
  | error e =>
      rw [hstart] at h
      cases h
  | ok start =>
      rw [hstart] at h
      change (program _ start).bind _ = _ at h
      cases hprogram : program (grammar (2 * (Lexer.scan text).tokens.length + 2)) start with
      | error e =>
          rw [hprogram] at h
          cases h
      | ok result =>
          obtain ⟨found, last⟩ := result
          rw [hprogram] at h
          cases h
          obtain ⟨mid, hskips, hreads, hatEnd, hbounded⟩ := program_eq_ok.mp hprogram
          exact ⟨start, mid, last, hstart, hskips, hreads, hatEnd, hbounded, rfl⟩

theorem Run.parse_eq [Text.CharNames] (h : Run text p start mid last) : parse text = .ok p := by
  have hprogram := program_eq_ok.mpr ⟨mid, h.skips, h.reads, h.atEnd, h.bounded⟩
  rw [parse_eq_bind, h.start_eq]
  change (program _ start).bind _ = _
  rw [hprogram]
  change Except.ok (Parsed.mk p.program last.warnings) = _
  rw [h.warnings_eq]

/-- A text that is parsed has no lexical error: the parser would come to it. -/
theorem Run.ending [Text.CharNames]
    (h : Run text p start mid last) : ∃ here, (Lexer.scan text).ending = .ok here := by
  cases hending : (Lexer.scan text).ending with
  | ok here => exact ⟨here, rfl⟩
  | error e =>
      -- With any token behind it the text would be read alike, and so its end is not in sight.
      exfalso
      have hstart : State.start ⟨(Lexer.scan text).tokens, .error e⟩ = .ok start := by
        rw [← hending]
        exact h.start_eq
      obtain ⟨phase, s', -, htracks⟩ :=
        (Seam.broken [⟨Span.none, .endOfLine⟩] e (.error e)).tracks_start rfl
          (fun t ht => (Lexer.placed_of_mem_scan ht).1) hstart
      obtain ⟨phase, mid', -, htracks⟩ := htracks.skip h.skips
      obtain ⟨-, ⟨phase, last', -, htracks⟩ | ⟨-, -, -, hgoesOn⟩⟩ :=
        htracks.statements (Nat.le_refl _) h.reads
      · obtain rfl := htracks.inside_of_error rfl
        cases htracks with
        | inside htokens => exact htokens (List.cons_ne_nil _ _) _ List.mem_cons_self h.atEnd
      · refine Seam.not_goesOn (fun t ht => ?_) hgoesOn
        cases ht
        rfl

theorem Run.start_of_ending [Text.CharNames] (h : Run text p start mid last) {here : Span}
    (hending : (Lexer.scan text).ending = .ok here) :
    State.start ⟨(Lexer.scan text).tokens, .ok here⟩ = .ok start := by
  rw [← hending]
  exact h.start_eq

theorem classes_start {stream : TokenStream String} (h : State.start stream = .ok s) :
    s.classes = [] := by
  obtain ⟨ts, ending⟩ := stream
  cases ts with
  | cons t ts =>
      cases h
      rfl
  | nil =>
      cases ending with
      | error e => cases h
      | ok here =>
          cases h
          rfl

theorem Run.classes_mid [Text.CharNames] (h : Run text p start mid last) : mid.classes = [] :=
  (skipLineEnds_eq_ok h.skips).1.trans (classes_start h.start_eq)

/-- At the end of a text there are no statements. -/
theorem Run.eq_zero [Text.CharNames]
    (h : Run text p start mid last) (hend : IsEnd mid) : p.program.length = 0 :=
  eq_zero_of_statements hend.kind h.reads

/-! ## The first token behind line ends -/

/-- The first token of a text that is no line end. -/
def firstToken? [Text.CharNames] (text : String) : Option (Token String) :=
  (Lexer.scan text).tokens.find? (·.kind != .endOfLine)

/-- Two texts, one below the other, up to the first token of the second that is no line end. -/
def upToFirst [Text.CharNames] (a b : String) : TokenStream String :=
  let ends := (Lexer.scan b).tokens.takeWhile (·.kind == .endOfLine)
  let count := (Lexer.scan a).tokens.length + 1 + ends.length + 1
  ⟨(Lexer.scan (a ++ "\n" ++ b)).tokens.take count, .error ⟨.earlyEndOfFile, Span.none⟩⟩

/-- Whether that many statements can be read from a stream. -/
def hasStatements (stream : TokenStream String) (n : Nat) : Bool :=
  match State.start stream with
  | .ok start => (reading (grammar (2 * stream.tokens.length + 2)) n start).isOk
  | .error _ => false

/-- Whether the first statements of two texts, one below the other, cannot be read without what comes
behind the first token of the second: one of them takes that token up. -/
def takesUp [Text.CharNames] (n : Nat) (a b : String) : Bool :=
  (firstToken? b).isSome && !hasStatements (upToFirst a b) n

section

variable {ends : List (Token String)} {first : Token String} {more : List (Token String)}

theorem exists_first (ts : List (Token String)) : (∀ t ∈ ts, t.kind = .endOfLine) ∨
    ∃ ends first more, ts = ends ++ first :: more ∧ (∀ t ∈ ends, t.kind = .endOfLine) ∧
      first.kind ≠ .endOfLine := by
  induction ts with
  | nil => exact .inl fun t ht => nomatch ht
  | cons t ts ih =>
      by_cases hline : t.kind = .endOfLine
      · rcases ih with hblank | ⟨ends, first, more, rfl, hends, hfirst⟩
        · exact .inl (List.forall_mem_cons.mpr ⟨hline, hblank⟩)
        · exact .inr ⟨t :: ends, first, more, rfl, List.forall_mem_cons.mpr ⟨hline, hends⟩, hfirst⟩
      · exact .inr ⟨[], t, ts, rfl, (fun x hx => nomatch hx), hline⟩

theorem firstToken?_of_blank [Text.CharNames]
    (h : ∀ t ∈ (Lexer.scan text).tokens, t.kind = .endOfLine) :
    firstToken? text = none := by
  refine List.find?_eq_none.mpr fun t ht => ?_
  simp [h t ht]

theorem firstToken?_eq [Text.CharNames] (h : (Lexer.scan text).tokens = ends ++ first :: more)
    (hends : ∀ t ∈ ends, t.kind = .endOfLine) (hfirst : first.kind ≠ .endOfLine) :
    firstToken? text = some first := by
  have hnone : ends.find? (·.kind != .endOfLine) = none :=
    List.find?_eq_none.mpr fun t ht => by simp [hends t ht]
  rw [firstToken?, h, List.find?_append, hnone, Option.none_or]
  exact List.find?_cons_of_pos (bne_iff_ne.mpr hfirst)

theorem takeWhile_endOfLine (hends : ∀ t ∈ ends, t.kind = .endOfLine) (hfirst : first.kind ≠ .endOfLine) :
    (ends ++ first :: more).takeWhile (·.kind == .endOfLine) = ends := by
  rw [List.takeWhile_append_of_pos fun t ht => beq_iff_eq.mpr (hends t ht),
    List.takeWhile_cons_of_neg (by simpa using hfirst), List.append_nil]

theorem first_ne_endOfFile [Text.CharNames] (h : (Lexer.scan text).tokens = ends ++ first :: more) :
    first.kind ≠ .endOfFile := by
  have hmem : first ∈ (Lexer.scan text).tokens := by
    rw [h]
    exact List.mem_append_right _ List.mem_cons_self
  exact (Lexer.placed_of_mem_scan hmem).1

/-- Before its first token a text has line ends only, and the parser passes them. -/
theorem skipLineEnds_start {ending : Except LexError Span} (hends : ∀ t ∈ ends, t.kind = .endOfLine)
    (hfirst : first.kind ≠ .endOfLine) (h : State.start ⟨ends ++ first :: more, ending⟩ = .ok s) :
    skipLineEnds s = .ok ((), ⟨first, more, ending, [], []⟩) := by
  cases ends with
  | nil =>
      cases h
      exact skipLineEnds_of_ne hfirst
  | cons t ends =>
      cases h
      rw [List.forall_mem_cons] at hends
      rw [skipLineEnds_append hends.2 hends.1 rfl]
      exact skipLineEnds_of_ne hfirst

/-- A text of line ends only ends behind them. -/
theorem skipLineEnds_start_blank {here : Span} (hends : ∀ t ∈ ends, t.kind = .endOfLine)
    (h : State.start ⟨ends, .ok here⟩ = .ok s) :
    skipLineEnds s = .ok ((), ⟨⟨here, .endOfFile⟩, [], .ok here, [], []⟩) := by
  cases ends with
  | nil =>
      cases h
      exact skipLineEnds_of_ne fun h => nomatch h
  | cons t ends =>
      cases h
      rw [List.forall_mem_cons] at hends
      rcases List.eq_nil_or_concat' ends with rfl | ⟨ends, last, rfl⟩
      · exact skipLineEnds_of_nil hends.1 rfl rfl
      · rw [skipLineEnds_append (fun x hx => hends.2 x (List.mem_append_left _ hx)) hends.1 rfl]
        exact skipLineEnds_of_nil (hends.2 last (by simp)) rfl rfl

end

/-! ## Two texts -/

section

variable {a b : String} {pa pb : Parsed String} {startA midA lastA startB midB lastB : State String}
  {ends : List (Token String)} {first : Token String} {more : List (Token String)}

section

variable [Text.CharNames]

/-- The tokens of two texts, parted behind the first of the second. -/
theorem tokens_joined {here : Span} (hending : (Lexer.scan a).ending = .ok here)
    (htokens : (Lexer.scan b).tokens = ends ++ first :: more) :
    (Lexer.scan (a ++ "\n" ++ b)).tokens = ((Lexer.scan a).tokens ++
      (⟨here, .endOfLine⟩ :: ends.map (·.down (1 + a.toList.count '\n')) ++
        [first.down (1 + a.toList.count '\n')])) ++ more.map (·.down (1 + a.toList.count '\n')) := by
  rw [Lexer.scan_lineBreak hending b, htokens]
  simp

/-- The stream of two texts up to the first token of the second. -/
theorem upToFirst_eq {here : Span} (hending : (Lexer.scan a).ending = .ok here)
    (htokens : (Lexer.scan b).tokens = ends ++ first :: more) (hends : ∀ t ∈ ends, t.kind = .endOfLine)
    (hfirst : first.kind ≠ .endOfLine) :
    upToFirst a b = ⟨(Lexer.scan a).tokens ++
      (⟨here, .endOfLine⟩ :: ends.map (·.down (1 + a.toList.count '\n')) ++
        [first.down (1 + a.toList.count '\n')]), .error ⟨.earlyEndOfFile, Span.none⟩⟩ := by
  have hcount : ((Lexer.scan a).tokens ++ (⟨here, .endOfLine⟩ ::
      ends.map (·.down (1 + a.toList.count '\n')) ++ [first.down (1 + a.toList.count '\n')])).length =
      (Lexer.scan a).tokens.length + 1 + ends.length + 1 := by
    simp only [List.length_append, List.length_cons, List.length_map, List.length_nil]
    omega
  unfold upToFirst
  dsimp only
  rw [tokens_joined hending htokens, htokens, takeWhile_endOfLine hends hfirst, ← hcount, List.take_left']
  rfl

/-- The first text is read up to the first token of the second, or its last statement takes that up. -/
theorem Run.reads_upToFirst (hrun : Run a pa startA midA lastA)
    (htokens : (Lexer.scan b).tokens = ends ++ first :: more) (hends : ∀ t ∈ ends, t.kind = .endOfLine)
    (hfirst : first.kind ≠ .endOfLine) :
    ∃ start mid, State.start (upToFirst a b) = .ok start ∧ skipLineEnds start = .ok ((), mid) ∧
      pa.program.length ≤ mid.rest.length ∧
      (statements (grammar (2 * (upToFirst a b).tokens.length + 2)) pa.program.length mid =
          .ok (pa.program, ⟨first.down (1 + a.toList.count '\n'), [],
            .error ⟨.earlyEndOfFile, Span.none⟩, pa.warnings, []⟩) ∨
        (∃ e, statements (grammar (2 * (upToFirst a b).tokens.length + 2)) pa.program.length mid =
          .error e) ∧
        (∃ last ∈ pa.program.getLast?, last.unfinished = true) ∧ goesOn first.kind = true) := by
  obtain ⟨here, hending⟩ := hrun.ending
  have hends' : ∀ t ∈ (⟨here, .endOfLine⟩ :: ends.map (·.down (1 + a.toList.count '\n')) :
      List (Token String)), t.kind = .endOfLine := by
    refine List.forall_mem_cons.mpr ⟨rfl, List.forall_mem_map.mpr hends⟩
  have hfirst' : (first.down (1 + a.toList.count '\n')).kind ≠ .endOfLine := hfirst
  have hstart := hrun.start_of_ending hending
  obtain ⟨phase, start, hstart', htracks⟩ :=
    (Seam.upTo here ⟨.earlyEndOfFile, Span.none⟩ (List.cons_ne_nil _ _) hends' hfirst').tracks_start rfl
      (fun t ht => (Lexer.placed_of_mem_scan ht).1) hstart
  obtain ⟨phase, mid, hskip, htracks⟩ := htracks.skip hrun.skips
  rw [upToFirst_eq hending htokens hends hfirst]
  refine ⟨start, mid, ?_, hskip, ?_, ?_⟩
  · change State.start ⟨moved id _ ++ _, _⟩ = _ at hstart'
    rw [moved_id_tokens] at hstart'
    exact hstart'
  · rcases htracks.length_eq with hlength | hend
    · have hbounded := hrun.bounded
      have htail : 0 < (Seam.upTo here ⟨.earlyEndOfFile, Span.none⟩ (List.cons_ne_nil _ _) hends'
          hfirst').tail.length := List.length_pos_of_ne_nil (by simp [Seam.upTo])
      omega
    · rw [hrun.eq_zero hend]
      exact Nat.zero_le _
  · have hnest : 2 * (Lexer.scan a).tokens.length + 2 ≤ 2 * ((Lexer.scan a).tokens ++
        (⟨here, .endOfLine⟩ :: ends.map (·.down (1 + a.toList.count '\n')) ++
          [first.down (1 + a.toList.count '\n')])).length + 2 := by
      rw [List.length_append]
      omega
    obtain ⟨hclasses, ⟨phase, last, hreads, htracks⟩ | ⟨he, -, hlast, _, ⟨t, ht, rfl⟩, hgoesOn⟩⟩ :=
      htracks.statements hnest hrun.reads
    · -- The other run stands behind the line ends, at the first token.
      left
      have hline := statements_kind_ne hreads (skipLineEnds_eq_ok hskip).2
      obtain rfl := htracks.passed_of_end hrun.atEnd (by simp [Seam.upTo]) hline
      have hwarnings := hrun.warnings_eq
      rw [hrun.classes_mid] at hclasses
      rw [← hwarnings, ← hclasses]
      cases htracks with
      | @first here' t e ws classes hok htail =>
          have hlast := htail.symm.trans List.getLast?_concat
          cases hlast
          change statements _ _ mid = .ok (moved id pa.program, ⟨_, [], _, [] ++ moved id ws, classes⟩)
            at hreads
          rw [moved_id_program, moved_id_warnings] at hreads
          exact hreads
      | finished _ hok => cases hok
    · -- It was stopped there.
      right
      have htail : (Seam.upTo here ⟨.earlyEndOfFile, Span.none⟩ (List.cons_ne_nil _ _) hends'
          hfirst').tail.getLast? = some (first.down (1 + a.toList.count '\n')) := List.getLast?_concat
      obtain rfl : first.down (1 + a.toList.count '\n') = t := Option.some_inj.mp (htail.symm.trans ht)
      exact ⟨he, hlast, hgoesOn⟩

/-- The second text alone is read from its first token. -/
theorem Run.mid_eq (hrun : Run b pb startB midB lastB)
    (htokens : (Lexer.scan b).tokens = ends ++ first :: more) (hends : ∀ t ∈ ends, t.kind = .endOfLine)
    (hfirst : first.kind ≠ .endOfLine) : midB = ⟨first, more, (Lexer.scan b).ending, [], []⟩ := by
  have hstart : State.start ⟨ends ++ first :: more, (Lexer.scan b).ending⟩ = .ok startB := by
    rw [← htokens]
    exact hrun.start_eq
  have hskips := hrun.skips.symm.trans (skipLineEnds_start hends hfirst hstart)
  cases hskips
  rfl

theorem moved_lower {ts : List (Token String)} {text : String} (h : ∀ t ∈ ts, t ∈ (Lexer.scan text).tokens)
    (k : Nat) : moved (Span.lower k) ts = ts.map (·.down k) := by
  refine List.map_congr_left fun t ht => ?_
  have hplaced := (Lexer.placed_of_mem_scan (h t ht)).2
  change (⟨t.span.lower k, t.kind⟩ : Token String) = _
  rw [Span.lower_of_placed hplaced]
  rfl

/-- The second text is read behind the first as it is alone. -/
theorem Run.reads_lower (hrun : Run b pb startB midB lastB) {here : Span}
    (hending : (Lexer.scan b).ending = .ok here) (htokens : (Lexer.scan b).tokens = ends ++ first :: more)
    (hends : ∀ t ∈ ends, t.kind = .endOfLine) (hfirst : first.kind ≠ .endOfLine) (k : Nat) {n : Nat}
    (hnest : 2 * (Lexer.scan b).tokens.length + 2 ≤ n) (before : List ParseWarning) :
    ∃ last, statements (grammar n) pb.program.length
        ⟨first.down k, more.map (·.down k), .ok (here.down k), before, []⟩ =
          .ok (pb.program.map (Stmt.mapSpans (Span.lower k)), last) ∧
      last.current.kind = .endOfFile ∧
      last.warnings = before ++ pb.warnings.map (ParseWarning.mapSpan (Span.lower k)) := by
  have hmid := hrun.mid_eq htokens hends hfirst
  rw [hending] at hmid
  have htracks : (Seam.lower k before here).Tracks .inside ⟨first, more, .ok here, [], []⟩
      ⟨moved (Span.lower k) first, moved (Span.lower k) more ++ [], .ok (here.lower k), before ++ [],
        []⟩ :=
    .inside fun hne => absurd rfl hne
  have hmem (t : Token String) (ht : t ∈ first :: more) : t ∈ (Lexer.scan b).tokens := by
    rw [htokens]
    exact List.mem_append_right _ ht
  have hmoved := moved_lower hmem k
  have hfirst' : moved (Span.lower k) first = first.down k := (List.cons.inj hmoved).1
  have hmore' : moved (Span.lower k) more = more.map (·.down k) := (List.cons.inj hmoved).2
  have hhere : here.isNone = false := Lexer.placed_of_ending_scanAll Nat.one_ne_zero hending
  rw [hfirst', hmore', Span.lower_of_placed hhere, List.append_nil, List.append_nil, ← hmid] at htracks
  obtain ⟨-, ⟨phase, last, hreads, htracks⟩ | ⟨-, -, -, hgoesOn⟩⟩ := htracks.statements hnest hrun.reads
  · refine ⟨last, hreads, ?_, ?_⟩
    · have hend := hrun.atEnd
      cases htracks with
      | inside => exact hend
      | atBreak _ htail => cases htail
      | first _ htail => cases htail
      | finished => rfl
    · rw [htracks.warnings_eq, ← hrun.warnings_eq]
      rfl
  · exact absurd hgoesOn (Seam.not_goesOn fun t ht => nomatch ht)

end

/-- Where the longer stream only goes on behind the shorter, which breaks off, it is read alike. -/
theorem reads_broken {ts : List (Token String)} {e : LexError} (tail : List (Token String))
    (ending : Except LexError Span) (htokens : ∀ t ∈ ts, t.kind ≠ .endOfFile) {n m count : Nat}
    (hnm : n ≤ m) {start mid : State String}
    (hstart : State.start ⟨ts, .error e⟩ = .ok start) (hskips : skipLineEnds start = .ok ((), mid))
    {l : Program String} {t : Token String} {ws : List ParseWarning} {classes : List String}
    (hreads : statements (grammar n) count mid = .ok (l, ⟨t, [], .error e, ws, classes⟩))
    (ht : t.kind ≠ .endOfFile) :
    ∃ start' mid', State.start ⟨ts ++ tail, ending⟩ = .ok start' ∧ skipLineEnds start' = .ok ((), mid') ∧
      mid'.rest.length = mid.rest.length + tail.length ∧
      statements (grammar m) count mid' = .ok (l, ⟨t, tail, ending, ws, classes⟩) := by
  obtain ⟨phase, start', hstart', htracks⟩ := (Seam.broken tail e ending).tracks_start rfl htokens hstart
  obtain ⟨phase, mid', hskips', htracks⟩ := htracks.skip hskips
  refine ⟨start', mid', ?_, hskips', ?_, ?_⟩
  · change State.start ⟨moved id _ ++ _, _⟩ = _ at hstart'
    rw [moved_id_tokens] at hstart'
    exact hstart'
  · obtain rfl := htracks.inside_of_error rfl
    cases htracks with
    | inside =>
        simp only [moved, List.length_append, List.length_map]
        rfl
  · obtain ⟨-, ⟨phase, last, hreads', htracks⟩ | ⟨-, hend, -⟩⟩ := htracks.statements hnm hreads
    · obtain rfl := htracks.inside_of_error rfl
      cases htracks with
      | inside =>
          change statements _ _ mid' = .ok (moved id l, ⟨t, tail, _, [] ++ moved id ws, _⟩) at hreads'
          rw [moved_id_program, moved_id_warnings] at hreads'
          exact hreads'
    · exact absurd hend.kind ht

/-- Where the first text is read up to the first token of the second, both are read, one behind the
other. -/
theorem Run.lineBreak [Text.CharNames]
    (hrunA : Run a pa startA midA lastA) (hrunB : Run b pb startB midB lastB)
    (htokens : (Lexer.scan b).tokens = ends ++ first :: more) (hends : ∀ t ∈ ends, t.kind = .endOfLine)
    (hfirst : first.kind ≠ .endOfLine) {start mid : State String}
    (hstart : State.start (upToFirst a b) = .ok start) (hskips : skipLineEnds start = .ok ((), mid))
    (hbounded : pa.program.length ≤ mid.rest.length)
    (hreads : statements (grammar (2 * (upToFirst a b).tokens.length + 2)) pa.program.length mid =
      .ok (pa.program, ⟨first.down (1 + a.toList.count '\n'), [],
        .error ⟨.earlyEndOfFile, Span.none⟩, pa.warnings, []⟩)) :
    ∃ start mid last, Run (a ++ "\n" ++ b) (pa ++ pb.lower (1 + a.toList.count '\n')) start mid last := by
  obtain ⟨hereA, hendingA⟩ := hrunA.ending
  obtain ⟨hereB, hendingB⟩ := hrunB.ending
  have hjoined := tokens_joined hendingA htokens
  have hending : (Lexer.scan (a ++ "\n" ++ b)).ending = .ok (hereB.down (1 + a.toList.count '\n')) := by
    rw [Lexer.scan_lineBreak hendingA b, hendingB]
  have hlength := congrArg List.length hjoined
  have hlength' := congrArg List.length htokens
  rw [upToFirst_eq hendingA htokens hends hfirst] at hstart hreads
  simp only [List.length_append, List.length_cons, List.length_map, List.length_nil]
    at hlength hlength' hreads
  have hplaced : first.kind ≠ .endOfFile := first_ne_endOfFile htokens
  obtain ⟨start', mid', hstart', hskips', hrest, hreadsA⟩ :=
    reads_broken (more.map (·.down (1 + a.toList.count '\n')))
      (.ok (hereB.down (1 + a.toList.count '\n')))
      (m := 2 * (Lexer.scan (a ++ "\n" ++ b)).tokens.length + 2)
      (fun t ht => (Lexer.placed_of_mem_scan (by rw [hjoined]; exact List.mem_append_left _ ht)).1)
      (by omega) hstart hskips hreads hplaced
  obtain ⟨last, hreadsB, hend, hwarnings⟩ := hrunB.reads_lower hendingB htokens hends hfirst
    (1 + a.toList.count '\n') (n := 2 * (Lexer.scan (a ++ "\n" ++ b)).tokens.length + 2) (by omega)
    pa.warnings
  have hcount : (pa ++ pb.lower (1 + a.toList.count '\n')).program.length =
      pa.program.length + pb.program.length := by
    change (pa.program ++ pb.program.map _).length = _
    rw [List.length_append, List.length_map]
  -- The one run ends where the other starts: at the first token of the second text.
  refine ⟨start', mid', last, ?_⟩
  exact {
    start_eq := by
      rw [← hstart', ← hjoined, ← hending]
    skips := hskips'
    reads := by
      rw [hcount]
      exact statements_add hreadsA hreadsB
    atEnd := hend
    bounded := by
      have hboundedB := hrunB.bounded
      rw [hrunB.mid_eq htokens hends hfirst] at hboundedB
      rw [List.length_map] at hrest
      dsimp only at hboundedB
      omega
    warnings_eq := hwarnings }

/-- A second text of line ends only adds nothing. -/
theorem Run.lineBreak_blank [Text.CharNames]
    (hrunA : Run a pa startA midA lastA) (hrunB : Run b pb startB midB lastB)
    (hblank : ∀ t ∈ (Lexer.scan b).tokens, t.kind = .endOfLine) :
    ∃ start mid last, Run (a ++ "\n" ++ b) (pa ++ pb.lower (1 + a.toList.count '\n')) start mid last := by
  obtain ⟨hereA, hendingA⟩ := hrunA.ending
  obtain ⟨hereB, hendingB⟩ := hrunB.ending
  -- The second text has neither statements nor warnings.
  have hnothing : pb = ⟨[], []⟩ := by
    have hskipsB := hrunB.skips.symm.trans
      (skipLineEnds_start_blank hblank (hrunB.start_of_ending hendingB))
    cases hskipsB
    have hreadsB := hrunB.reads
    rw [hrunB.eq_zero ⟨rfl, rfl⟩] at hreadsB
    have hwarningsB := hrunB.warnings_eq
    obtain ⟨program, warnings⟩ := pb
    cases hreadsB
    cases hwarningsB
    rfl
  have hsame : pa ++ pb.lower (1 + a.toList.count '\n') = pa := by
    rw [hnothing]
    change (⟨pa.program ++ [], pa.warnings ++ []⟩ : Parsed String) = pa
    rw [List.append_nil, List.append_nil]
  rw [hsame]
  have hends : ∀ t ∈ (⟨hereA, .endOfLine⟩ :: (Lexer.scan b).tokens.map
      (·.down (1 + a.toList.count '\n')) : List (Token String)), t.kind = .endOfLine := by
    refine List.forall_mem_cons.mpr ⟨rfl, List.forall_mem_map.mpr hblank⟩
  have hjoined := Lexer.scan_lineBreak hendingA b
  rw [hendingB] at hjoined
  have hstart := hrunA.start_of_ending hendingA
  obtain ⟨phase, start, hstart', htracks⟩ :=
    (Seam.blank hereA (hereB.down (1 + a.toList.count '\n')) (List.cons_ne_nil _ _) hends).tracks_start rfl
      (fun t ht => (Lexer.placed_of_mem_scan ht).1) hstart
  obtain ⟨phase, mid, hskips, htracks⟩ := htracks.skip hrunA.skips
  have hlength := htracks.length_le
  have hnest : 2 * (Lexer.scan a).tokens.length + 2 ≤
      2 * (Lexer.scan (a ++ "\n" ++ b)).tokens.length + 2 := by
    rw [hjoined, List.length_append]
    omega
  obtain ⟨-, ⟨phase, last, hreads, htracks⟩ | ⟨-, -, -, hgoesOn⟩⟩ := htracks.statements hnest hrunA.reads
  · have hline := statements_kind_ne hreads (skipLineEnds_eq_ok hskips).2
    obtain rfl := htracks.passed_of_end hrunA.atEnd (by simp [Seam.blank]) hline
    refine ⟨start, mid, last, ?_⟩
    exact {
      start_eq := by
        change State.start ⟨moved id _ ++ _, _⟩ = _ at hstart'
        rw [moved_id_tokens] at hstart'
        rw [hjoined]
        exact hstart'
      skips := hskips
      reads := by
        change statements _ _ mid = .ok (moved id pa.program, last) at hreads
        rw [moved_id_program] at hreads
        exact hreads
      atEnd := by
        cases htracks with
        | first _ _ _ herror => cases herror
        | finished => rfl
      bounded := hrunA.bounded.trans (Nat.succ_le_succ hlength)
      warnings_eq := by
        rw [htracks.warnings_eq, hrunA.warnings_eq]
        exact moved_id_warnings pa.warnings }
  · -- Nothing but line ends could have stopped it.
    refine absurd hgoesOn (Seam.not_goesOn fun t ht => ?_)
    exact hends t (List.mem_of_getLast? ht)

/-- The first token of a text that is parsed starts a statement. -/
theorem Run.mem_takenUp [Text.CharNames] (hrunB : Run b pb startB midB lastB)
    (htokens : (Lexer.scan b).tokens = ends ++ first :: more) (hends : ∀ t ∈ ends, t.kind = .endOfLine)
    (hfirst : first.kind ≠ .endOfLine) (hgoesOn : goesOn first.kind = true) : first.kind ∈ takenUp := by
  have hmid := hrunB.mid_eq htokens hends hfirst
  obtain ⟨program, warnings⟩ := pb
  have hreads := hrunB.reads
  rw [hmid] at hreads
  by_contra hnot
  cases hcount : program.length with
  | zero =>
      rw [hcount] at hreads
      cases hreads
      exact first_ne_endOfFile htokens hrunB.atEnd
  | succ n =>
      rw [hcount] at hreads
      obtain ⟨_, _, _, _, hstmt, -⟩ := statements_succ_eq_ok.mp hreads
      obtain ⟨e, he⟩ := stmt_error (s := ⟨first, more, (Lexer.scan b).ending, [], []⟩)
        (.inl hgoesOn) hnot (2 * (Lexer.scan b).tokens.length + 2)
      cases he.symm.trans hstmt

end

/-- Of two texts, one below the other, the statements and warnings of the first are parsed and then those
of the second, that many rows further down, unless a statement of the first takes up the first token of the
second. Then it is the last statement, it may go on, and the token is one that goes on with it and that may
start a statement as well. -/
theorem parse_lineBreak [Text.CharNames]
    {a b : String} {pa pb : Parsed String} (ha : parse a = .ok pa) (hb : parse b = .ok pb) :
    (takesUp pa.program.length a b = false →
      parse (a ++ "\n" ++ b) = .ok (pa ++ pb.lower (1 + a.toList.count '\n'))) ∧
    (takesUp pa.program.length a b = true →
      (∃ last ∈ pa.program.getLast?, last.unfinished = true) ∧
        ∃ first ∈ firstToken? b, first.kind ∈ takenUp) := by
  obtain ⟨startA, midA, lastA, hrunA⟩ := exists_run ha
  obtain ⟨startB, midB, lastB, hrunB⟩ := exists_run hb
  rcases exists_first (Lexer.scan b).tokens with hblank | ⟨ends, first, more, htokens, hends, hfirst⟩
  · have hnone : takesUp pa.program.length a b = false := by
      rw [takesUp, firstToken?_of_blank hblank]
      rfl
    obtain ⟨_, _, _, hrun⟩ := hrunA.lineBreak_blank hrunB hblank
    exact ⟨fun _ => hrun.parse_eq, fun htakes => absurd (hnone.symm.trans htakes) Bool.false_ne_true⟩
  · have hsome := firstToken?_eq htokens hends hfirst
    obtain ⟨start, mid, hstart, hskips, hbounded, hreads⟩ := hrunA.reads_upToFirst htokens hends hfirst
    have htakes : takesUp pa.program.length a b = !(statements
        (grammar (2 * (upToFirst a b).tokens.length + 2)) pa.program.length mid).isOk := by
      rw [takesUp, hsome, hasStatements, hstart]
      dsimp only
      rw [reading, bind_eq hskips]
      rfl
    rcases hreads with hreads | ⟨⟨e, he⟩, hlast, hgoesOn⟩
    · obtain ⟨_, _, _, hrun⟩ := hrunA.lineBreak hrunB htokens hends hfirst hstart hskips hbounded hreads
      rw [hreads] at htakes
      exact ⟨fun _ => hrun.parse_eq, fun h => absurd (htakes.symm.trans h) Bool.false_ne_true⟩
    · rw [he] at htakes
      refine ⟨fun h => absurd (h.symm.trans htakes) Bool.false_ne_true, fun _ => ?_⟩
      exact ⟨hlast, first, hsome, hrunB.mem_takenUp htokens hends hfirst hgoesOn⟩

attribute [local instance] Command.charNames

/-- A conditional is read alone before a `throw` under its other name, and a `try` is not. -/
theorem parse_lineBreak_catch :
    parse ("if (x) y" ++ "\n" ++ "catch z") =
        .ok (⟨[.expr ⟨1, 1, 2⟩ (.ifElse ⟨1, 1, 2⟩ (.name ⟨1, 5, 1⟩ "x") (.name ⟨1, 8, 1⟩ "y") none)], []⟩ ++
          (⟨[.throwValue ⟨1, 1, 5⟩ (.name ⟨1, 7, 1⟩ "z")], []⟩ : Parsed String).lower 1) ∧
      ∃ first ∈ firstToken? "catch z", first.kind ∈ takenUp := by
  have hthrow : parse "catch z" = .ok ⟨[.throwValue ⟨1, 1, 5⟩ (.name ⟨1, 7, 1⟩ "z")], []⟩ := by cbv
  have hif : parse "if (x) y" = .ok ⟨[.expr ⟨1, 1, 2⟩
      (.ifElse ⟨1, 1, 2⟩ (.name ⟨1, 5, 1⟩ "x") (.name ⟨1, 8, 1⟩ "y") none)], []⟩ := by cbv
  have htry : parse "try y" = .ok ⟨[.expr ⟨1, 1, 3⟩
      (.tryCatch ⟨1, 1, 3⟩ (.name ⟨1, 5, 1⟩ "y") none none none)], []⟩ := by cbv
  have halone : takesUp 1 "if (x) y" "catch z" = false := by decide +kernel
  have htakes : takesUp 1 "try y" "catch z" = true := by decide +kernel
  exact ⟨(parse_lineBreak hif hthrow).1 halone, ((parse_lineBreak htry hthrow).2 htakes).2⟩

/-- A `throw` under its other name is the `catch` part of a `try` on the row before. -/
theorem parse_lineBreak_tryCatch :
    ∃ pa pb, parse "try x" = .ok pa ∧ parse "catch y" = .ok pb ∧
      parse ("try x" ++ "\n" ++ "catch y") ≠ .ok (pa ++ pb.lower 1) := by
  have htry : parse "try x" = .ok ⟨[.expr ⟨1, 1, 3⟩
      (.tryCatch ⟨1, 1, 3⟩ (.name ⟨1, 5, 1⟩ "x") none none none)], []⟩ := by cbv
  have hthrow : parse "catch y" = .ok ⟨[.throwValue ⟨1, 1, 5⟩ (.name ⟨1, 7, 1⟩ "y")], []⟩ := by cbv
  have hboth : parse ("try x" ++ "\n" ++ "catch y") = .ok ⟨[.expr ⟨1, 1, 3⟩ (.tryCatch ⟨1, 1, 3⟩
      (.name ⟨1, 5, 1⟩ "x") none (some (.name ⟨2, 7, 1⟩ "y")) none)], []⟩ := by cbv
  refine ⟨_, _, htry, hthrow, ?_⟩
  rw [hboth]
  intro h
  have hlength := congrArg (fun p => p.program.length) (Except.ok.inj h)
  exact absurd hlength (by decide)

end Parser

end IslandScript
