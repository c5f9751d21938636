import IslandScript.Parser.Block

/-!
# Expressions

From the loosest to the tightest:

1. assignment `= += -= *= /= %=`, to the right
2. spread `*`
3. `or`, then `and`
4. equality `== !=`, then comparison `< <= > >=`
5. sums `+ -`, then products `* / %`
6. prefixes `- ! #`
7. postfixes `.member`, `[arguments]`, `(arguments)`
8. values, names, groups, lists, lambdas and the keyword expressions

An infix operator groups to the left and gives its place to the whole. Call arguments may be
anything but assignments, since `name = value` names an argument there.
-/

namespace IslandScript.Parser

variable {ν : Type} [DecidableEq ν] [Naming ν]

/-! ### Lists and lambdas -/

/-- What follows the one element of a comprehension, up to the closing bracket. -/
def comprehension (g : Grammar ν) (span : Span) (element : Expr ν) : Parser ν (Expr ν) := do
  let _ ← expectWord .forKey
  let names ← pattern
  let _ ← expect .colon
  let iterable ← g.expr
  skipLineEnds
  let condition ← if ← eatWord .ifKey then some <$> g.expr else pure none
  skipLineEnds
  let _ ← expect .rightBracket
  return .comprehension span element names iterable condition

/-- What follows the elements of a list, through the closing bracket. -/
def listEnd (g : Grammar ν) (span : Span) (elements : List (Expr ν)) : Parser ν (Expr ν) := do
  match elements, ← atWord? .forKey with
  | [element], true => comprehension g span element
  | _, _ =>
    let _ ← expect .rightBracket
    return .list span elements

/-- `[a, b, ...]`, or a comprehension `[element for names : iterable if condition]`. -/
def listExpr (g : Grammar ν) : Parser ν (Expr ν) := do
  let span ← expectLine .leftBracket
  if ← eat .rightBracket then return .list span []
  else
    let elements ← commaList g.expr
    skipLineEnds
    listEnd g span elements

/-- A parameter of a lambda: a bare name. -/
def lambdaParam : Parser ν (Param ν (Expr ν)) := do
  let (n, span) ← expectName
  return ⟨span, none, false, false, n, none⟩

/-- The parameters of a lambda up to its arrow; a second colon stands for none. -/
def lambdaParams : Parser ν (List (Param ν (Expr ν))) := do
  if ← eat .colon then return []
  else
    let params ← loop (fun params => do
      let p ← lambdaParam
      if ← eat .comma then return .again (p :: params) else return .done (p :: params)) []
    let _ ← expect .arrow
    return params.reverse

/-- `: a, b -> body`, or `:: body` -/
def lambda (g : Grammar ν) : Parser ν (Expr ν) := do
  let span ← expect .colon
  let params ← lambdaParams
  let body ← exprBody g
  return .lambda span ⟨span, "", false, none, params, some (.returnValue body.span (some body))⟩

/-! ### Terminals -/

/-- An expression that starts with the current token and holds no operator outside. -/
def terminal (g : Grammar ν) : Parser ν (Expr ν) := do
  match (← get).current with
  | ⟨span, .value literal⟩ =>
    let _ ← advance
    return .value span literal
  | ⟨span, .name n⟩ =>
    let _ ← advance
    return .name span n
  | ⟨_, .symbol .leftParen⟩ => parenthesized g
  | ⟨_, .symbol .leftBracket⟩ => inside .list (listExpr g)
  | ⟨_, .symbol .colon⟩ => inside .lambda (lambda g)
  | ⟨_, .keyword .ifKey⟩ => inside .ifElse (ifElse g)
  | ⟨_, .keyword .when⟩ => inside .whenCase (whenCase g)
  | ⟨_, .keyword .tryKey⟩ => inside .tryCatch (tryCatch g)
  | ⟨span, found⟩ => fail (.invalidTerminal (found.map Naming.text)) span

/-! ### Postfixes -/

/-- An argument of an index. -/
def indexArg (g : Grammar ν) : Parser ν (Arg ν (Expr ν)) := do
  let span ← here
  let spread ← eat .star
  return ⟨span, spread, none, ← g.expr⟩

/-- An argument of a call. -/
def callArg (g : Grammar ν) : Parser ν (Arg ν (Expr ν)) := do
  let span ← here
  let spread ← eat .star
  let e ← g.spread
  if ← eat .equal then
    match e.name? with
    | none => fail .invalidArgumentName e.span
    | some n => return ⟨span, spread, some n, ← g.spread⟩
  else return ⟨span, spread, none, e⟩

/-- Arguments behind an opening bracket, through the closing one. -/
def args (arg : Parser ν (Arg ν (Expr ν))) (close : Symbol) :
    Parser ν (List (Arg ν (Expr ν))) := do
  skipLineEnds
  if ← eat close then return []
  else
    let found ← commaList arg
    skipLineEnds
    let _ ← expect close
    return found

/-- The arguments of an index behind its opening bracket. -/
def indexArgs (g : Grammar ν) : Parser ν (List (Arg ν (Expr ν))) :=
  args (indexArg g) .rightBracket

/-- The arguments of a call behind its opening parenthesis. -/
def callArgs (g : Grammar ν) : Parser ν (List (Arg ν (Expr ν))) :=
  args (callArg g) .rightParen

/-- Puts a postfix behind an expression, if there is one. -/
def postfixRound (g : Grammar ν) (target : Expr ν) :
    Parser ν (Step (Expr ν) (Expr ν)) := do
  match (← get).current with
  | ⟨span, .symbol .dot⟩ =>
    let _ ← advance
    let (n, _) ← expectName
    return .again (.member span target n)
  | ⟨span, .symbol .leftBracket⟩ =>
    let _ ← advance
    return .again (.index span target (← inside .arguments (indexArgs g)))
  | ⟨span, .symbol .leftParen⟩ =>
    let _ ← advance
    return .again (.invoke span target (← inside .arguments (callArgs g)))
  | _ => return .done target

/-- A terminal with its postfixes. -/
def postfixed (g : Grammar ν) : Parser ν (Expr ν) := do
  loop (postfixRound g) (← terminal g)

/-! ### Operators -/

/-- The prefix operator a token is. -/
def unaryOp? : TokenKind ν → Option UnaryOp
  | .symbol .minus => some .negative
  | .symbol .bang => some .not
  | .symbol .pound => some .size
  | _ => none

/-- An operand with its prefix operators and postfixes. -/
def unaryStep (g : Grammar ν) : Parser ν (Expr ν) := do
  match unaryOp? (← kind) with
  | some op =>
    let t ← advance
    return .unary t.span op (← g.unary)
  | none => postfixed g

/-- The infix operator a token is, on one level of precedence. -/
abbrev Level (ν : Type) := TokenKind ν → Option BinaryOp

/-- The levels of the infix operators, the loosest first. -/
def levels : List (Level ν) := [
  fun | .keyword .or => some .or | _ => none,
  fun | .keyword .and => some .and | _ => none,
  fun | .symbol .doubleEqual => some .equal | .symbol .notEqual => some .notEqual | _ => none,
  fun
    | .symbol .less => some .less
    | .symbol .lessEqual => some .lessEqual
    | .symbol .greater => some .greater
    | .symbol .greaterEqual => some .greaterEqual
    | _ => none,
  fun | .symbol .plus => some .add | .symbol .minus => some .subtract | _ => none,
  fun
    | .symbol .star => some .multiply
    | .symbol .slash => some .divide
    | .symbol .percent => some .modulus
    | _ => none]

/-- Joins an operand to what is on its left, if an operator of the level stands between them. -/
def chainRound (level : Level ν) (operand : Parser ν (Expr ν)) (left : Expr ν) :
    Parser ν (Step (Expr ν) (Expr ν)) := do
  match level (← kind) with
  | none => return .done left
  | some op =>
    let t ← advance
    return .again (.binary t.span op left (← operand))

/-- Operands joined by the operators of one level, grouped to the left. -/
def chain (level : Level ν) (operand : Parser ν (Expr ν)) : Parser ν (Expr ν) := do
  loop (chainRound level operand) (← operand)

/-- An expression of infix operators. -/
def infixed (g : Grammar ν) : Parser ν (Expr ν) :=
  levels.foldr chain (unaryStep g)

/-- An expression that is no assignment. -/
def spreadStep (g : Grammar ν) : Parser ν (Expr ν) := do
  if ← at? .star then
    let t ← advance
    return .unary t.span .spread (← infixed g)
  else infixed g

/-- The infix operator of a compound assignment. -/
def compoundOp? : TokenKind ν → Option BinaryOp
  | .symbol .plusEqual => some .add
  | .symbol .minusEqual => some .subtract
  | .symbol .starEqual => some .multiply
  | .symbol .slashEqual => some .divide
  | .symbol .percentEqual => some .modulus
  | _ => none

/-- The name an assignment goes to. -/
def assignmentTarget (left : Expr ν) : Parser ν ν :=
  match left.name? with
  | some n => pure n
  | none => fail .invalidAssignmentTarget left.span

/-- An expression. `x += e` stands for `x = x + (e)`. -/
def exprStep (g : Grammar ν) : Parser ν (Expr ν) := do
  let left ← spreadStep g
  if ← at? .equal then
    let t ← advance
    let target ← assignmentTarget left
    return .assign t.span target (← g.expr)
  else
    match compoundOp? (← kind) with
    | some op =>
      let t ← advance
      let target ← assignmentTarget left
      return .assign t.span target (.binary t.span op left (← g.expr))
    | none => return left

end IslandScript.Parser
