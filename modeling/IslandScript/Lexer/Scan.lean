import IslandScript.Lexer.Escape
import IslandScript.Text.Alphabetic
import IslandScript.Token

/-!
# From text to tokens

Blanks and comments are skipped, then the longest token is read. Semicolons, carriage returns and
newlines all end a line. A text has its tokens and then either its end or the error that stops
the lexer there; what comes before an error is still a sequence of tokens. The names among the
tokens are texts; an interner that scans a text gives them names of its own on the way.
-/

namespace IslandScript.Lexer

/-- A token's kind and the cursor behind it. -/
abbrev Scanned := Except LexError (TokenKind String × Cursor)

/-- Whether a character starts a word. -/
def isWordStart (c : Char) : Bool := Text.isAlphabetic c || c == '_'

/-- Whether a character continues a word. -/
def isWordPart (c : Char) : Bool := Text.isAlphanumeric c || c == '_'

/-- Whether a character belongs to the digits of a decimal. -/
def isDecimalPart (c : Char) : Bool := c.isDigit || c == '_'

/-- Whether a character belongs to the digits of a binary number. -/
def isBinaryPart (c : Char) : Bool := c == '0' || c == '1' || c == '_'

/-- Whether a character belongs to the digits of a hexadecimal number. -/
def isHexPart (c : Char) : Bool := Number.isHexDigit c || c == '_'

/-- Whether a character ends a line. -/
def isLineEnd (c : Char) : Bool := c == ';' || c == '\r' || c == '\n'

/-- Digits without the underscores between them. -/
def withoutUnderscores (cs : List Char) : List Char := cs.filter (· != '_')

/-- A token of a number literal, if its text is one. -/
def numberToken (first : Span) (text : List Char) (value : Option Float) (next : Cursor) :
    Scanned :=
  match value with
  | some n => .ok (.value (.number n), next)
  | none => .error ⟨.invalidNumber (String.ofList text), next.spanFrom first⟩

/-- Reads a binary or hexadecimal integer at its two-character marker. The first character behind
the marker is taken whatever it is, so that an error can name it. -/
def scanRadix (c : Cursor) (radix : Nat) (isPart : Char → Bool) : Scanned :=
  let (marker, next) := c.take 2
  let (lead, next) := next.take 1
  let (digits, next) := next.takeWhile isPart
  let value := Number.readInt64? radix (withoutUnderscores (lead ++ digits))
  numberToken c.here (marker ++ lead ++ digits) (value.map Float.ofInt) next

/-- Reads the fraction of a decimal: a point and at least one digit or underscore. -/
def scanFraction (c : Cursor) : List Char × Cursor :=
  if c.current? == some '.' && (c.peek? 1).any isDecimalPart then
    let (point, next) := c.take 1
    let (digits, next) := next.takeWhile isDecimalPart
    (point ++ digits, next)
  else ([], c)

/-- Reads the exponent of a decimal: the marker, one character of any kind, and digits. -/
def scanExponent (c : Cursor) : List Char × Cursor :=
  if c.current? == some 'e' || c.current? == some 'E' then
    let (lead, next) := c.take 2
    let (digits, next) := next.takeWhile isDecimalPart
    (lead ++ digits, next)
  else ([], c)

/-- Reads a decimal. -/
def scanDecimal (c : Cursor) : Scanned :=
  let (whole, next) := c.takeWhile isDecimalPart
  let (fraction, next) := scanFraction next
  let (exponent, next) := scanExponent next
  let text := whole ++ fraction ++ exponent
  numberToken c.here text (Number.readDecimal? (withoutUnderscores text)) next

/-- Reads a number. -/
def scanNumber (c : Cursor) : Scanned :=
  if c.startsWith ['0', 'b'] then scanRadix c 2 isBinaryPart
  else if c.startsWith ['0', 'x'] then scanRadix c 16 isHexPart
  else scanDecimal c

/-- The kind of token a word is: a keyword, a constant or a name. -/
def wordKind (word : List Char) : TokenKind String :=
  match Keyword.ofWord? word with
  | some k => .keyword k
  | none =>
    match Literal.ofWord? (String.ofList word) with
    | some literal => .value literal
    | none => .name (String.ofList word)

/-- Reads a word. -/
def scanWord (c : Cursor) : TokenKind String × Cursor :=
  let (word, next) := c.takeWhile isWordPart
  (wordKind word, next)

variable [Text.CharNames]

/-- Reads the characters of a string through its closing quote, at most as many as `bound` has.
Those read so far are `read`, the last one first. -/
def scanCharacters : List Char → List Char → Cursor → Except LexError (List Char × Cursor)
  | [], _, c => .error ⟨.earlyEndOfFile, c.here⟩
  | _ :: bound, read, c =>
    match c.bump? with
    | none => .error ⟨.earlyEndOfFile, c.here⟩
    | some ('"', next) => .ok (read.reverse, next)
    | some ('\\', next) =>
      match scanEscape next with
      | .error e => .error e
      | .ok (x, next) => scanCharacters bound (x :: read) next
    | some (x, next) => scanCharacters bound (x :: read) next

/-- Reads a string at its opening quote. -/
def scanString (c : Cursor) : Scanned :=
  let (_, next) := c.take 1
  match scanCharacters next.rest [] next with
  | .error e => .error e
  | .ok (cs, next) => .ok (.value (.string (String.ofList cs)), next)

/-- Reads a symbol or a line end. -/
def scanSymbol (c : Cursor) (x : Char) : Scanned :=
  if isLineEnd x then .ok (.endOfLine, (c.take 1).2)
  else
    match Symbol.startOf? c.rest with
    | some s => .ok (.symbol s, (c.take s.text.length).2)
    | none => .error ⟨.illegalCharacter x, c.here⟩

/-- Reads the token that starts with the current character `x`. -/
def scanKind (c : Cursor) (x : Char) : Scanned :=
  if x.isDigit then scanNumber c
  else if isWordStart x then .ok (scanWord c)
  else if x == '"' then scanString c
  else scanSymbol c x

/-- Skips blanks and comments, at most as many as `bound` has characters. -/
def skipTrivia : List Char → Cursor → Except LexError Cursor
  | [], c => .ok c
  | _ :: bound, c =>
    if c.current? == some ' ' || c.current? == some '\t' then skipTrivia bound (c.take 1).2
    else if c.startsWith ['/', '/'] then skipTrivia bound c.skipLine
    else if c.startsWith ['/', '*'] then
      match (c.take 2).2.skipThrough ['*', '/'] with
      | (true, next) => skipTrivia bound next
      | (false, next) => .error ⟨.earlyEndOfFile, next.here⟩
    else .ok c

/-- What comes next in a text: a token, or its end. -/
inductive Next where
  | token (t : Token String) (rest : Cursor)
  | finish (span : Span)

/-- Reads the next token behind blanks and comments. -/
def scanNext (c : Cursor) : Except LexError Next :=
  match skipTrivia c.rest c with
  | .error e => .error e
  | .ok c =>
    match c.current? with
    | none => .ok (.finish c.here)
    | some x =>
      match scanKind c x with
      | .error e => .error e
      | .ok (kind, next) => .ok (.token ⟨next.spanFrom c.here, kind⟩ next)

end IslandScript.Lexer

namespace IslandScript

/-- The tokens of a text, and how it ends: at a place, or with an error behind the tokens. -/
structure TokenStream (ν : Type) where
  tokens : List (Token ν)
  ending : Except LexError Span

namespace Lexer

variable [Text.CharNames]

/-- Reads at most as many tokens as `bound` has characters. -/
def scanAll : List Char → Cursor → TokenStream String
  | [], c => ⟨[], .ok c.here⟩
  | _ :: bound, c =>
    match scanNext c with
    | .error e => ⟨[], .error e⟩
    | .ok (.finish span) => ⟨[], .ok span⟩
    | .ok (.token t next) =>
      let stream := scanAll bound next
      { stream with tokens := t :: stream.tokens }

/-- The tokens of a text; there are no more of them than characters. -/
def scan (text : String) : TokenStream String :=
  let c := Cursor.start text
  scanAll c.rest c

/-- All tokens of a text through its end, or the error that stops them. -/
def tokenize (text : String) : Except LexError (List (Token String)) :=
  let stream := scan text
  match stream.ending with
  | .ok span => .ok (stream.tokens ++ [⟨span, .endOfFile⟩])
  | .error e => .error e

end Lexer

namespace Interner

/-- Interns the name that a token is, if it is one. -/
def token (i : Interner) (t : Token String) : Token Name × Interner :=
  match t.kind with
  | .name text =>
    let (n, i) := i.intern text
    (⟨t.span, .name n⟩, i)
  | kind => (⟨t.span, kind.map fun _ => .empty⟩, i)

variable [Text.CharNames]

/-- Reads at most as many tokens as `bound` has characters. A name is interned as soon as it was
read. -/
def scanAll (i : Interner) : List Char → Cursor → TokenStream Name × Interner
  | [], c => (⟨[], .ok c.here⟩, i)
  | _ :: bound, c =>
    match Lexer.scanNext c with
    | .error e => (⟨[], .error e⟩, i)
    | .ok (.finish span) => (⟨[], .ok span⟩, i)
    | .ok (.token t next) =>
      let (t, i) := i.token t
      let (stream, i) := i.scanAll bound next
      ({ stream with tokens := t :: stream.tokens }, i)

/-- The tokens of a text with its names interned, and the interner that knows them. -/
def scan (i : Interner) (text : String) : TokenStream Name × Interner :=
  let c := Cursor.start text
  i.scanAll c.rest c

end Interner
end IslandScript
