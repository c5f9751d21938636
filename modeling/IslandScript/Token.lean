import IslandScript.Name
import IslandScript.Span

/-!
# Tokens

A token is a keyword, a symbol, a literal value, a name or the end of a line or of the text, at
the span it covers. Tokens are generic in what stands for a name: its text, or the name that the
text was given by an interner.
-/

namespace IslandScript

/-- The keywords. -/
inductive Keyword where
  | and | or | letKey | varKey | mutKey | funKey | classKey | object | enumKey | ifKey | elseKey
  | when | forKey | whileKey | doKey | loop | breakKey | continueKey | returnKey | throwKey
  | tryKey | catchKey | finallyKey | exit
  deriving DecidableEq, Repr

namespace Keyword

/-- How a keyword is written, in lower case. -/
def text : Keyword → String
  | and => "and"
  | or => "or"
  | letKey => "let"
  | varKey => "var"
  | mutKey => "mut"
  | funKey => "fun"
  | classKey => "class"
  | object => "object"
  | enumKey => "enum"
  | ifKey => "if"
  | elseKey => "else"
  | when => "when"
  | forKey => "for"
  | whileKey => "while"
  | doKey => "do"
  | loop => "loop"
  | breakKey => "break"
  | continueKey => "continue"
  | returnKey => "return"
  | throwKey => "throw"
  | tryKey => "try"
  | catchKey => "catch"
  | finallyKey => "finally"
  | exit => "exit"

/-- All keywords. -/
def all : List Keyword := [
  and, or, letKey, varKey, mutKey, funKey, classKey, object, enumKey, ifKey, elseKey, when, forKey,
  whileKey, doKey, loop, breakKey, continueKey, returnKey, throwKey, tryKey, catchKey, finallyKey,
  exit]

/-- The keyword a word spells. The case of ASCII letters does not matter. -/
def ofWord? (word : List Char) : Option Keyword :=
  all.find? fun k => k.text.toList == word.map Char.toLower

end Keyword

/-- The symbols. -/
inductive Symbol where
  | equal | plusEqual | minusEqual | starEqual | slashEqual | percentEqual | doubleEqual | notEqual
  | less | lessEqual | greater | greaterEqual | plus | minus | star | slash | percent | bang
  | atSign | comma | leftParen | rightParen | leftBracket | rightBracket | leftBrace | rightBrace | dot
  | question | doubleQuestion | colon | pound | arrow
  deriving DecidableEq, Repr

namespace Symbol

/-- How a symbol is written. -/
def text : Symbol → String
  | equal => "="
  | plusEqual => "+="
  | minusEqual => "-="
  | starEqual => "*="
  | slashEqual => "/="
  | percentEqual => "%="
  | doubleEqual => "=="
  | notEqual => "!="
  | less => "<"
  | lessEqual => "<="
  | greater => ">"
  | greaterEqual => ">="
  | plus => "+"
  | minus => "-"
  | star => "*"
  | slash => "/"
  | percent => "%"
  | bang => "!"
  | atSign => "@"
  | comma => ","
  | leftParen => "("
  | rightParen => ")"
  | leftBracket => "["
  | rightBracket => "]"
  | leftBrace => "\x7b"
  | rightBrace => "\x7d"
  | dot => "."
  | question => "?"
  | doubleQuestion => "??"
  | colon => ":"
  | pound => "#"
  | arrow => "->"

/-- All symbols, those of two characters first, so that the first that matches is the longest. -/
def all : List Symbol := [
  plusEqual, minusEqual, starEqual, slashEqual, percentEqual, doubleEqual, notEqual, lessEqual,
  greaterEqual, doubleQuestion, arrow, equal, less, greater, plus, minus, star, slash, percent,
  bang, atSign, comma, leftParen, rightParen, leftBracket, rightBracket, leftBrace, rightBrace, dot,
  question, colon, pound]

/-- The longest symbol a text starts with. -/
def startOf? (cs : List Char) : Option Symbol :=
  all.find? fun s => s.text.toList.isPrefixOf cs

end Symbol

/-- The constants a program can spell. -/
inductive Literal where
  | bool (b : Bool)
  | number (n : Float)
  | string (s : String)
  | null
  | unit
  deriving DecidableEq, Repr

/-- The constant a word spells. Letter case matters. -/
def Literal.ofWord? (word : String) : Option Literal :=
  if word == "true" then some (.bool true)
  else if word == "false" then some (.bool false)
  else if word == "null" then some .null
  else if word == "unit" then some .unit
  else none

/-- What a token is, names being given as `ν`. -/
inductive TokenKind (ν : Type) where
  | keyword (k : Keyword)
  | symbol (s : Symbol)
  | value (literal : Literal)
  | name (n : ν)
  | endOfLine
  | endOfFile
  deriving DecidableEq, Repr

/-- How messages call a kind of token: its text if that is fixed, else the kind. -/
def TokenKind.text {ν : Type} : TokenKind ν → String
  | .keyword k => k.text
  | .symbol s => s.text
  | .value _ => "Value"
  | .name _ => "Name"
  | .endOfLine => "EndOfLine"
  | .endOfFile => "EndOfFile"

/-- A kind of token under another naming. -/
def TokenKind.map {ν μ : Type} (f : ν → μ) : TokenKind ν → TokenKind μ
  | .keyword k => .keyword k
  | .symbol s => .symbol s
  | .value literal => .value literal
  | .name n => .name (f n)
  | .endOfLine => .endOfLine
  | .endOfFile => .endOfFile

/-- A token at its place. -/
structure Token (ν : Type) where
  span : Span
  kind : TokenKind ν
  deriving DecidableEq, Repr

end IslandScript
