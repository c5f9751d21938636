import IslandScript.Parser.Basic

/-!
# Expression bodies

The bodies of lambdas, conditionals and `try`: a braced sequence of items or a single item. An
item is an expression or a statement in the place of one. The optional parts of a conditional or
a `try` may stand on later lines, so line ends are passed over in search of them.
-/

namespace IslandScript.Parser

variable {ν : Type} [DecidableEq ν] [Naming ν]

/-- Whether a keyword starts a statement that may stand in an expression body. -/
def startsStatement : Keyword → Bool
  | .letKey | .varKey | .whileKey | .doKey | .loop | .forKey | .breakKey | .continueKey
  | .returnKey | .throwKey | .exit | .funKey | .classKey | .object | .enumKey => true
  | _ => false

/-- An item of an expression body. -/
def bodyItem (g : Grammar ν) : Parser ν (Expr ν) := do
  match ← kind with
  | .keyword k =>
    if startsStatement k then
      let span ← here
      return .statement span (← g.stmt)
    else g.expr
  | _ => g.expr

/-- An expression body: items in braces, or one item. -/
def exprBody (g : Grammar ν) : Parser ν (Expr ν) := do
  let span ← here
  if ← eatLine .leftBrace then return .block span (← untilBrace (bodyItem g))
  else bodyItem g

/-- An expression in parentheses. -/
def parenthesized (g : Grammar ν) : Parser ν (Expr ν) := do
  let _ ← expect .leftParen
  let e ← g.expr
  let _ ← expect .rightParen
  return e

/-- `if (condition) body [else body]` -/
def ifElse (g : Grammar ν) : Parser ν (Expr ν) := do
  let span ← expectWord .ifKey
  let condition ← parenthesized g
  let body ← exprBody g
  skipLineEnds
  if ← eatWord .elseKey then return .ifElse span condition body (some (← exprBody g))
  else return .ifElse span condition body none

/-- `condition -> body` -/
def branch (g : Grammar ν) : Parser ν (Branch (Expr ν)) := do
  let span ← here
  let condition ← g.expr
  let _ ← expectLine .arrow
  let body ← exprBody g
  skipLineEnds
  return ⟨span, condition, body⟩

/-- The `else` branch of a `when` behind its keyword; a closing brace must follow. -/
def elseBranch (g : Grammar ν) : Parser ν (Expr ν) := do
  let _ ← expectLine .arrow
  let body ← exprBody g
  skipLineEnds
  if ← at? .rightBrace then return body else fail .earlyElseBranch (← here)

/-- The branches of a `when` up to the closing brace. -/
def branches (g : Grammar ν) : Parser ν (List (Branch (Expr ν)) × Option (Expr ν)) := do
  let (found, otherwise) ← loop (fun found => do
    if ← at? .rightBrace then return .done (found, none)
    else if ← eatWord .elseKey then return .done (found, some (← elseBranch g))
    else return .again ((← branch g) :: found)) []
  return (found.reverse, otherwise)

/-- The subject of a `when`: a name in parentheses, or nothing. -/
def subject : Parser ν (Option ν) := do
  if ← eat .leftParen then
    let (n, _) ← expectName
    let _ ← expect .rightParen
    return some n
  else return none

/-- `when [(subject)] { condition -> body ... [else -> body] }` -/
def whenCase (g : Grammar ν) : Parser ν (Expr ν) := do
  let span ← expectWord .when
  let subject ← subject
  let _ ← expectLine .leftBrace
  let (branches, otherwise) ← branches g
  let _ ← expect .rightBrace
  return .whenCase span subject branches otherwise

/-- The name a `catch` gives to what was thrown, or nothing. -/
def caughtName : Parser ν (Option ν) := do
  if ← eat .leftParen then
    let (n, _) ← declaredName
    let _ ← expect .rightParen
    return some n
  else return none

/-- The `catch` part of a `try`: the name and the body. -/
def catchPart (g : Grammar ν) : Parser ν (Option ν × Option (Expr ν)) := do
  if ← eatWord .catchKey then
    let error ← caughtName
    let handler ← exprBody g
    skipLineEnds
    return (error, some handler)
  else return (none, none)

/-- The `finally` part of a `try`. -/
def finallyPart (g : Grammar ν) : Parser ν (Option (Expr ν)) := do
  if ← eatWord .finallyKey then return some (← exprBody g) else return none

/-- `try body [catch [(name)] body] [finally body]` -/
def tryCatch (g : Grammar ν) : Parser ν (Expr ν) := do
  let span ← expectWord .tryKey
  let body ← exprBody g
  skipLineEnds
  let (error, handler) ← catchPart g
  return .tryCatch span body error handler (← finallyPart g)

end IslandScript.Parser
