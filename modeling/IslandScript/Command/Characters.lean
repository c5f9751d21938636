import IslandScript.Lexer.Escape

/-!
# The characters that the command knows by name

The names of all characters are data of a standard, and no rule of the language depends on them. The command
is given a few of them.
-/

namespace IslandScript.Command

/-- The names that programs may use. -/
abbrev charNames : Text.CharNames := .ofTable [
  ("SPACE", ' '),
  ("LATIN SMALL LETTER A", 'a'),
  ("GREEK SMALL LETTER PI", 'π'),
  ("SNOWMAN", '☃'),
  ("BLACK FLORETTE", '✿')]

end IslandScript.Command
