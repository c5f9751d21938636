import IslandScript.Parser.Statement

/-!
# Functions, classes, objects and enums

The path of a function is the class whose body declares it, a dot and its name; that of a class
is its name.
-/

namespace IslandScript.Parser

variable {ν : Type} [DecidableEq ν] [Naming ν]

/-- The marker of a class parameter; parameters of functions have none. -/
def marker (ofClass : Bool) : Parser ν (Option BindingKind) := do
  if ofClass then
    if ← eatWord .letKey then return some .constant
    else if ← eatWord .varKey then return some .variable
    else return none
  else return none

/-- `[let|var] [mut] [*] name [= default]` -/
def param (g : Grammar ν) (ofClass : Bool) : Parser ν (Param ν (Expr ν)) := do
  let start ← here
  let marker ← marker ofClass
  let mutable ← eatWord .mutKey
  let variadic ← eat .star
  let (n, span) ← declaredName
  if mutable && variadic then fail (.mutableVariadic (Naming.text n)) span
  else
    let default ← if ← eat .equal then some <$> g.expr else pure none
    return ⟨start.rangeTo span, marker, mutable, variadic, n, default⟩

/-- A parameter behind those already parsed, none of which may be variadic. -/
def nextParam (g : Grammar ν) (ofClass : Bool) (before : List (Param ν (Expr ν))) :
    Parser ν (Param ν (Expr ν)) := do
  match before with
  | p :: _ =>
    if p.variadic then fail (.misplacedVariadic (Naming.text p.name)) p.span else param g ofClass
  | [] => param g ofClass

/-- Parameters behind an opening parenthesis, through the closing one. -/
def paramList (g : Grammar ν) (ofClass : Bool) : Parser ν (List (Param ν (Expr ν))) := do
  skipLineEnds
  if ← eat .rightParen then return []
  else
    let params ← loop (fun params => do
      let p ← nextParam g ofClass params
      if ← eatLine .comma then return .again (p :: params) else return .done (p :: params)) []
    skipLineEnds
    let _ ← expect .rightParen
    return params.reverse

/-- Parameters in parentheses, or none. -/
def params (g : Grammar ν) (ofClass : Bool) : Parser ν (List (Param ν (Expr ν))) := do
  if ← eat .leftParen then paramList g ofClass else return []

/-- The body of a function: a block, an expression behind an equal sign, or none. -/
def functionBody (g : Grammar ν) : Parser ν (Option (Stmt ν)) := do
  if ← at? .leftBrace then return some (← stmtBody g)
  else if ← at? .equal then
    let span ← expectLine .equal
    return some (.returnValue span (some (← g.expr)))
  else return none

/-- `fun [@] name [(params)] [{ body } | = value]` -/
def function (g : Grammar ν) : Parser ν (Stmt ν) := do
  let span ← expectWord .funKey
  let linked ← eat .atSign
  let (n, _) ← declaredName
  let params ← params g false
  let body ← functionBody g
  return .function span ⟨span, ← linkPath n, linked, some n, params, body⟩

/-- The base of a class, or none. -/
def base (g : Grammar ν) : Parser ν (Option (Expr ν)) := do
  if ← eat .colon then some <$> g.expr else return none

/-- The initializer statements of a class, or none. -/
def classBody (g : Grammar ν) (name : ν) : Parser ν (List (Stmt ν)) := do
  if ← eatLine .leftBrace then withinClass name (untilBrace g.stmt) else return []

/-- `class [@] Name [(params)] [: base] [{ statements }]` -/
def classDecl (g : Grammar ν) : Parser ν (Stmt ν) := do
  let span ← expectWord .classKey
  let linked ← eat .atSign
  let (n, _) ← declaredName
  let params ← params g true
  let base ← base g
  return .cls span ⟨span, Naming.text n, linked, n, params, base, ← classBody g n⟩

/-- `object Name [: base] [{ statements }]` -/
def objectDecl (g : Grammar ν) : Parser ν (Stmt ν) := do
  let span ← expectWord .object
  let (n, _) ← declaredName
  let base ← base g
  return .object span ⟨span, Naming.text n, false, n, [], base, ← classBody g n⟩

/-- An entry of an enum, with the comma and the line ends behind it. -/
def enumEntry (g : Grammar ν) (ordinal : Nat) : Parser ν (EnumEntry ν (Expr ν)) := do
  let (n, span) ← declaredName
  let args ← if ← eat .leftParen then callArgs g else pure []
  let _ ← eat .comma
  skipLineEnds
  return ⟨span, n, args, ordinal⟩

/-- The entries of an enum through the closing brace. -/
def enumEntries (g : Grammar ν) : Parser ν (List (EnumEntry ν (Expr ν))) := do
  let found ← loop (fun found => do
    if ← eat .rightBrace then return .done found
    else return .again ((← enumEntry g found.length) :: found)) []
  return found.reverse

/-- `enum Name [(params)] { Entry[(args)] ... }` -/
def enumDecl (g : Grammar ν) : Parser ν (Stmt ν) := do
  let span ← expectWord .enumKey
  let (n, _) ← declaredName
  let params ← params g true
  let _ ← expectLine .leftBrace
  let entries ← enumEntries g
  return .enum span ⟨span, ⟨span, Naming.text n, false, n, params, none, []⟩, entries⟩

end IslandScript.Parser
