import IslandScript.Diagnostic

/-!
# What the lexer refuses

The causes for which a text is not a sequence of tokens, and their wording.
-/

namespace IslandScript

/-- Why a text has no further token. -/
inductive LexErrorKind where
  /-- The text ends inside a string or a block comment. -/
  | earlyEndOfFile
  /-- A character that starts no token. -/
  | illegalCharacter (c : Char)
  /-- A backslash before a character that means nothing after one. -/
  | illegalEscape (c : Char)
  /-- The text of a number that is none. -/
  | invalidNumber (text : String)
  /-- A code or name of no character. -/
  | invalidUnicode (text : String)
  deriving DecidableEq, Repr

/-- The wording of a cause. -/
def LexErrorKind.message : LexErrorKind → String
  | .earlyEndOfFile => "Reached end of file early"
  | .illegalCharacter c => s!"Character '{c}' is illegal"
  | .illegalEscape c => s!"Character escape '\\{c}' is illegal"
  | .invalidNumber text => s!"Number '{text}' is invalid"
  | .invalidUnicode text => s!"Unicode hexcode '{text}' is invalid"

/-- A cause and its place. -/
structure LexError where
  kind : LexErrorKind
  span : Span
  deriving DecidableEq, Repr

namespace LexError

/-- The wording and the place. -/
def display (e : LexError) : String := s!"{e.kind.message} {e.span.display}"

/-- The report of a lexer error. -/
def toDiagnostic (e : LexError) : Diagnostic := .error .lexer e.kind.message e.span

end LexError
end IslandScript
