import IslandScript.Lexer.Cursor
import IslandScript.Lexer.Error
import IslandScript.Number.Read

/-!
# Escapes in string literals

Behind a backslash stands one of the simple escapes, a code of two, four or eight hexadecimal
digits after `x`, `u` or `U`, or the name of a character in parentheses. Which names there are is not
settled here: they are a parameter of the lexer, and so of everything that reads a text.
-/

namespace IslandScript

namespace Text

/-- What characters are called. -/
class CharNames where
  /-- The character of a name, if there is one. -/
  named? : String → Option Char

/-- The names of a table, which has them in upper case. Letter case does not matter; nothing else is
ignored, so a name with blanks around it names no character. -/
abbrev CharNames.ofTable (table : List (String × Char)) : CharNames where
  named? name := table.lookup (name.map Char.toUpper)

end Text

namespace Lexer

/-- The character of a simple escape. -/
def simpleEscape? : Char → Option Char
  | '\\' => some '\\'
  | '"' => some '"'
  | '0' => some '\x00'
  | 'b' => some '\x08'
  | 'n' => some '\n'
  | 'r' => some '\r'
  | 't' => some '\t'
  | _ => none

/-- The number of digits of a code, by the letter before it. -/
def codeWidth? : Char → Option Nat
  | 'x' => some 2
  | 'u' => some 4
  | 'U' => some 8
  | _ => none

/-- The character of a code point, if it is one. -/
def charOfCode? (n : Nat) : Option Char :=
  if n.isValidChar then some (Char.ofNat n) else none

/-- Reads the digits of a code; the cursor stands behind the letter. -/
def scanCode (c : Cursor) (width : Nat) : Except LexError (Char × Cursor) :=
  let (digits, next) := c.take width
  if digits.length < width then .error ⟨.earlyEndOfFile, next.here⟩
  else
    let code := if digits.all Number.isHexDigit then Number.readNat? 16 digits else none
    match code.bind charOfCode? with
    | some x => .ok (x, next)
    | none => .error ⟨.invalidUnicode (String.ofList digits), next.spanFrom c.here⟩

/-- Reads the name of a character; the cursor stands behind the opening parenthesis. -/
def scanCharName [names : Text.CharNames] (c : Cursor) : Except LexError (Char × Cursor) :=
  let (name, next) := c.takeWhile (· != ')')
  match next.eat? ')' with
  | none => .error ⟨.earlyEndOfFile, next.here⟩
  | some next =>
    match names.named? (String.ofList name) with
    | some x => .ok (x, next)
    | none => .error ⟨.invalidUnicode (String.ofList name), next.spanFrom c.here⟩

/-- Reads an escape; the cursor stands behind the backslash. -/
def scanEscape [Text.CharNames] (c : Cursor) : Except LexError (Char × Cursor) :=
  match c.bump? with
  | none => .error ⟨.earlyEndOfFile, c.here⟩
  | some (x, next) =>
    match simpleEscape? x, codeWidth? x with
    | some y, _ => .ok (y, next)
    | none, some width => scanCode next width
    | none, none => if x == '(' then scanCharName next else .error ⟨.illegalEscape x, c.here⟩

end Lexer
end IslandScript
