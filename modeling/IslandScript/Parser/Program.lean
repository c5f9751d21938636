import IslandScript.Parser.Declaration

/-!
# Programs

The rules of the grammar call one another for nested parts. `grammar n` is the grammar in which
such calls may nest `n` deep; every call but the one from a statement to its expression comes
behind a token that was consumed, so twice the number of tokens is a bound that no text reaches.
-/

namespace IslandScript.Parser

variable {ν : Type} [DecidableEq ν] [Naming ν]

/-- A statement. In the place of a statement, `catch` is another word for `throw`. -/
def stmtStep (g : Grammar ν) : Parser ν (Stmt ν) := do
  match ← kind with
  | .keyword .letKey | .keyword .varKey => inside .declaration (declaration g)
  | .keyword .whileKey => inside .whileLoop (whileLoop g)
  | .keyword .doKey => inside .doLoop (doLoop g)
  | .keyword .loop => inside .loop (countedLoop g)
  | .keyword .forKey => inside .forLoop (forLoop g)
  | .keyword .breakKey => jump .breakLoop
  | .keyword .continueKey => jump .continueLoop
  | .keyword .throwKey | .keyword .catchKey => throwStmt g
  | .keyword .returnKey => leave g .returnValue
  | .keyword .exit => leave g .exitValue
  | .keyword .funKey => inside .function (function g)
  | .keyword .classKey => inside .cls (classDecl g)
  | .keyword .object => inside .object (objectDecl g)
  | .keyword .enumKey => inside .enum (enumDecl g)
  | .symbol .leftBrace => stmtBody g
  | _ => exprStmt g

/-- The grammar whose rules may nest `n` deep. -/
def grammar : Nat → Grammar ν
  | 0 => ⟨throw .outOfBound, throw .outOfBound, throw .outOfBound, throw .outOfBound⟩
  | n + 1 =>
    { expr := fun s => exprStep (grammar n) s
      spread := fun s => spreadStep (grammar n) s
      unary := fun s => unaryStep (grammar n) s
      stmt := fun s => stmtStep (grammar n) s }

/-- A statement and any line ends behind it, unless the text is at its end. -/
def programRound (g : Grammar ν) (found : Program ν) :
    Parser ν (Step (Program ν) (Program ν)) := do
  if (← kind) == .endOfFile then return .done found
  else
    let s ← g.stmt
    skipLineEnds
    return .again (s :: found)

/-- Statements up to the end of the text, line ends between them. -/
def program (g : Grammar ν) : Parser ν (Program ν) := do
  skipLineEnds
  let found ← loop (programRound g) []
  return found.reverse

/-- The state before the first token of a stream. -/
def State.start (stream : TokenStream ν) : Except Failure (State ν) :=
  match stream.tokens, stream.ending with
  | t :: rest, ending => .ok ⟨t, rest, ending, [], []⟩
  | [], .ok span => .ok ⟨⟨span, .endOfFile⟩, [], .ok span, [], []⟩
  | [], .error e => .error (.error ⟨.lexical e.kind, e.span, none⟩)

end IslandScript.Parser

namespace IslandScript

/-- A program and the warnings about it. -/
structure Parsed (ν : Type) where
  program : Program ν
  warnings : List ParseWarning

/-- Parses a stream of tokens. -/
def TokenStream.parse {ν : Type} [DecidableEq ν] [Naming ν] (stream : TokenStream ν) :
    Except Parser.Failure (Parsed ν) := do
  let start ← Parser.State.start stream
  let (program, s) ← Parser.program (Parser.grammar (2 * stream.tokens.length + 2)) start
  return ⟨program, s.warnings⟩

/-- What was parsed over the names of an interner. -/
structure InternedProgram extends Parsed Name where
  interner : Interner

variable [Text.CharNames]

/-- Parses a text over the names that an interner has for its words, and gives to them. -/
def Interner.parse (i : Interner) (text : String) : Except Parser.Failure InternedProgram :=
  let (stream, i) := i.scan text
  letI := i.naming
  stream.parse.map fun parsed => { parsed with interner := i }

/-- Parses a text whose words are names of themselves. -/
def parse (text : String) : Except Parser.Failure (Parsed String) :=
  (Lexer.scan text).parse

end IslandScript
