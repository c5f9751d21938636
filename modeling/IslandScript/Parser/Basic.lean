import IslandScript.Lexer.Scan
import IslandScript.Parser.Error
import IslandScript.Syntax.Tree

/-!
# Parsers over tokens

A parser works on names of any kind, of which it is told the texts. It sees the current token; moving
past it fails if the text has no further token because of a lexical error, and stays in place at the end
of the text. Loops and nesting are bounded by the number of tokens left, so a parser that consumes a
token in each round always finishes; one that would not is stopped and reports that it ran out of its
bound, which is no parse error.
-/

namespace IslandScript
namespace Parser

/-- Where a parser stands: the current token and those behind it, how the text ends, the warnings
so far, and the classes whose bodies are being parsed, innermost first. -/
structure State (ν : Type) where
  current : Token ν
  rest : List (Token ν)
  ending : Except LexError Span
  warnings : List ParseWarning
  classes : List ν

/-- Why a parser gives no answer. -/
inductive Failure where
  | error (e : ParseError)
  | outOfBound
  deriving DecidableEq, Repr

end Parser

/-- A parser of an `α`, over names `ν`. -/
abbrev Parser (ν α : Type) := StateT (Parser.State ν) (Except Parser.Failure) α

namespace Parser

variable {ν α β σ : Type} [DecidableEq ν] [Naming ν]

/-- Fails with a cause at a place. -/
def fail (kind : ParseErrorKind) (span : Span) : Parser ν α :=
  throw (.error ⟨kind, span, none⟩)

/-- Runs a parser; an error that leaves it is placed in a construct. -/
def inside (c : Construct) (p : Parser ν α) : Parser ν α := fun s =>
  match p s with
  | .error (.error e) => .error (.error (e.inside c))
  | result => result

/-! ### Loops -/

/-- What a round of a loop decides: another round, or the result. -/
inductive Step (σ β : Type) where
  | again (s : σ)
  | done (b : β)

/-- Runs a loop for at most one round for each token of a list. -/
def iterate : List (Token ν) → (σ → Parser ν (Step σ β)) → σ → Parser ν β
  | [], _, _ => throw .outOfBound
  | _ :: bound, round, s => do
    match ← round s with
    | .again s => iterate bound round s
    | .done b => return b

/-- Runs a loop whose rounds each consume a token, except perhaps the last: two rounds more than
there are tokens behind the current one are enough. -/
def loop (round : σ → Parser ν (Step σ β)) (s : σ) : Parser ν β := do
  let here ← get
  iterate (here.current :: here.current :: here.rest) round s

/-! ### The current token -/

/-- The kind of the current token. -/
def kind : Parser ν (TokenKind ν) := return (← get).current.kind

/-- The place of the current token. -/
def here : Parser ν Span := return (← get).current.span

/-- Whether the current token is a symbol. -/
def at? (s : Symbol) : Parser ν Bool := return (← kind) == .symbol s

/-- Whether the current token is a keyword. -/
def atWord? (k : Keyword) : Parser ν Bool := return (← kind) == .keyword k

/-- Moves past the current token, which is the answer. -/
def advance : Parser ν (Token ν) := fun s =>
  match s.rest, s.ending with
  | t :: rest, _ => .ok (s.current, { s with current := t, rest })
  | [], .ok span => .ok (s.current, { s with current := ⟨span, .endOfFile⟩ })
  | [], .error e => .error (.error ⟨.lexical e.kind, e.span, none⟩)

/-- Moves past the current token if it is of a kind. -/
def eatKind (expected : TokenKind ν) : Parser ν Bool := do
  if (← kind) == expected then
    let _ ← advance
    return true
  else return false

/-- Moves past a symbol if it is the current token. -/
def eat (s : Symbol) : Parser ν Bool := eatKind (.symbol s)

/-- Moves past a keyword if it is the current token. -/
def eatWord (k : Keyword) : Parser ν Bool := eatKind (.keyword k)

/-- Moves past a token of a kind, which must be the current one; the answer is its place. -/
def expectKind (expected : TokenKind ν) : Parser ν Span := do
  let t := (← get).current
  if t.kind == expected then
    let _ ← advance
    return t.span
  else fail (.invalidToken (t.kind.map Naming.text) (expected.map Naming.text)) t.span

/-- Moves past a symbol, which must be the current token. -/
def expect (s : Symbol) : Parser ν Span := expectKind (.symbol s)

/-- Moves past a keyword, which must be the current token. -/
def expectWord (k : Keyword) : Parser ν Span := expectKind (.keyword k)

/-- Moves past any line ends. -/
def skipLineEnds : Parser ν Unit :=
  loop (fun _ => do if ← eatKind .endOfLine then return .again () else return .done ()) ()

/-- Moves past a symbol if it is the current token, and past the line ends behind it. -/
def eatLine (s : Symbol) : Parser ν Bool := do
  if ← eat s then
    skipLineEnds
    return true
  else return false

/-- Moves past a symbol, which must be the current token, and past the line ends behind it. -/
def expectLine (s : Symbol) : Parser ν Span := do
  let span ← expect s
  skipLineEnds
  return span

/-! ### Names -/

/-- Moves past a name, which must be the current token. -/
def expectName : Parser ν (ν × Span) := do
  let t := (← get).current
  match t.kind with
  | .name n =>
    let _ ← advance
    return (n, t.span)
  | found => fail (.invalidToken (found.map Naming.text) (.name "")) t.span

/-- Whether a name belongs to the language. -/
def isReserved (n : String) : Bool := n == "this" || n == "base"

/-- Texts are names of themselves. -/
instance : Naming String := ⟨fun n => n, isReserved⟩

@[simp] theorem text_string (n : String) : Naming.text n = n := rfl

@[simp] theorem isReserved_string (n : String) : Naming.isReserved n = isReserved n := rfl

@[simp] theorem map_text (k : TokenKind String) : k.map Naming.text = k := by
  cases k <;> rfl

/-- The warning about a name of underscores only. -/
def underscoreWarning? (n : String) (span : Span) : Option ParseWarning :=
  if n == "_" then some (.discardedName span)
  else if !n.isEmpty && n.toList.all (· == '_') then some (.vagueName span)
  else none

/-- Moves past a name that is being declared: it must not be reserved. -/
def declaredName : Parser ν (ν × Span) := do
  let (n, span) ← expectName
  let text := Naming.text n
  if Naming.isReserved n then fail (.reservedName text) span
  else
    modify fun s => { s with warnings := s.warnings ++ (underscoreWarning? text span).toList }
    return (n, span)

/-- The label behind a loop keyword or a jump, if there is one. -/
def label : Parser ν (Option ν) := do
  if ← eat .atSign then return some (← expectName).1 else return none

/-- A name, or names in parentheses. -/
def pattern : Parser ν (Pattern ν) := do
  if ← eat .leftParen then
    let names ← loop (fun names => do
      let (n, _) ← declaredName
      if ← eat .comma then return .again (n :: names) else return .done (n :: names)) []
    let _ ← expect .rightParen
    return .items names.reverse
  else return .name (← declaredName).1

/-- The path of a function declared here: the innermost class, a dot and its name. -/
def linkPath (name : ν) : Parser ν String := do
  return (((← get).classes.head?.map Naming.text).getD "") ++ "." ++ Naming.text name

/-- Runs a parser inside the body of a class. -/
def withinClass (name : ν) (p : Parser ν α) : Parser ν α := do
  modify fun s => { s with classes := name :: s.classes }
  let a ← p
  modify fun s => { s with classes := s.classes.tail }
  return a

/-! ### Lists -/

/-- An item, and the comma behind it if there is one. -/
def commaRound (item : Parser ν α) (found : List α) : Parser ν (Step (List α) (List α)) := do
  let a ← item
  if ← eatLine .comma then return .again (a :: found) else return .done (a :: found)

/-- Items separated by commas; line ends may follow a comma. -/
def commaList (item : Parser ν α) : Parser ν (List α) := do
  let found ← loop (commaRound item) []
  return found.reverse

/-- Items up to a closing brace, each with any line ends behind it. -/
def untilBrace (item : Parser ν α) : Parser ν (List α) := do
  let found ← loop (fun found => do
    if ← eat .rightBrace then return .done found
    else
      let a ← item
      skipLineEnds
      return .again (a :: found)) []
  return found.reverse

/-- The parsers that a grammar rule calls for nested parts, where a token was consumed before. -/
structure Grammar (ν : Type) where
  /-- An expression. -/
  expr : Parser ν (Expr ν)
  /-- An expression that is no assignment. -/
  spread : Parser ν (Expr ν)
  /-- An operand of a prefix operator. -/
  unary : Parser ν (Expr ν)
  /-- A statement. -/
  stmt : Parser ν (Stmt ν)

end Parser
end IslandScript
