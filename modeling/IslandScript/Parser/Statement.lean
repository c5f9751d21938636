import IslandScript.Parser.Expression

/-!
# Statements

Declarations, loops, jumps and expressions. A body is a braced block or a single statement.
-/

namespace IslandScript.Parser

variable {ν : Type} [DecidableEq ν] [Naming ν]

/-- A block in braces or a single statement. -/
def stmtBody (g : Grammar ν) : Parser ν (Stmt ν) := do
  let span ← here
  if ← eatLine .leftBrace then return .block span (← untilBrace g.stmt) else g.stmt

/-- Whether a declaration binds a constant, by its keyword. -/
def bindingKeyword : Parser ν BindingKind := do
  if ← eatWord .letKey then return .constant
  else
    let _ ← expectWord .varKey
    return .variable

/-- `let|var [mut] names = value` -/
def declaration (g : Grammar ν) : Parser ν (Stmt ν) := do
  let span ← here
  let kind ← bindingKeyword
  let mutable ← eatWord .mutKey
  let names ← pattern
  let _ ← expectLine .equal
  return .declare span kind mutable names (← g.expr)

/-- `while [@label] (condition) body` -/
def whileLoop (g : Grammar ν) : Parser ν (Stmt ν) := do
  let span ← expectWord .whileKey
  let label ← label
  let condition ← parenthesized g
  return .whileLoop span label condition (← stmtBody g)

/-- `do [@label] body while (condition)` -/
def doLoop (g : Grammar ν) : Parser ν (Stmt ν) := do
  let span ← expectWord .doKey
  let label ← label
  let body ← stmtBody g
  skipLineEnds
  let _ ← expectWord .whileKey
  return .doLoop span label body (← parenthesized g)

/-- The count of a `loop`: an expression in parentheses, or nothing. -/
def loopCount (g : Grammar ν) : Parser ν (Option (Expr ν)) := do
  if ← at? .leftParen then some <$> parenthesized g else return none

/-- `loop [@label] [(count)] body` -/
def countedLoop (g : Grammar ν) : Parser ν (Stmt ν) := do
  let span ← expectWord .loop
  let label ← label
  let count ← loopCount g
  return .loop span label count (← stmtBody g)

/-- `for [@label] (names : iterable) body` -/
def forLoop (g : Grammar ν) : Parser ν (Stmt ν) := do
  let span ← expectWord .forKey
  let label ← label
  let _ ← expect .leftParen
  let names ← pattern
  let _ ← expect .colon
  let iterable ← g.expr
  let _ ← expect .rightParen
  return .forLoop span label names iterable (← stmtBody g)

/-- `break [@label]` or `continue [@label]` -/
def jump (make : Span → Option ν → Stmt ν) : Parser ν (Stmt ν) := do
  let t ← advance
  return make t.span (← label)

/-- `throw value` -/
def throwStmt (g : Grammar ν) : Parser ν (Stmt ν) := do
  let t ← advance
  return .throwValue t.span (← g.expr)

/-- Whether a `return` or `exit` before this token has no value. -/
def endsStatement : TokenKind ν → Bool
  | .endOfLine | .endOfFile | .symbol .rightBrace => true
  | _ => false

/-- `return [value]` or `exit [value]` -/
def leave (g : Grammar ν) (make : Span → Option (Expr ν) → Stmt ν) :
    Parser ν (Stmt ν) := do
  let t ← advance
  if endsStatement (← kind) then return make t.span none
  else return make t.span (some (← g.expr))

/-- An expression as a statement. -/
def exprStmt (g : Grammar ν) : Parser ν (Stmt ν) := do
  let span ← here
  return .expr span (← g.expr)

end IslandScript.Parser
