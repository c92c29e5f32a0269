import Dialect.Text.Basic

/-!
# Words

A word stands alone when neither neighbour could be a part of the same identifier. Identifier
characters are the ASCII word characters and the dollar sign, so `$fun` and `fun1` do not hold the
word `fun`, while `é fun` and `éfun` do.
-/

namespace Dialect

/-- ASCII letters, digits and the underscore. -/
def isWordChar (c : Char) : Bool := c.isAlphanum || c == '_'

/-- Word characters and the dollar sign. -/
def isIdentifierChar (c : Char) : Bool := isWordChar c || c == '$'

namespace Text

/-- A letter or an underscore, and then word characters. -/
def isIdentifier : Text → Bool
  | [] => false
  | c :: rest => (c.isAlpha || c == '_') && rest.all isWordChar

/-- What lies between two neighbours stands alone when neither is an identifier character. -/
def standsBetween (before after : Option Char) : Bool :=
  !before.any isIdentifierChar && !after.any isIdentifierChar

/-- Whether the part of a text between two byte offsets stands alone. Fails unless both offsets are
positions of the text. -/
def standsAlone? (text : Text) (start stop : Nat) : Option Bool :=
  match splitAt? text start, splitAt? text stop with
  | some (before, _), some (_, after) => some (standsBetween before.getLast? after.head?)
  | _, _ => none

/-- Looks for a word in the rest of a text, given the character before it and the byte offset at
which it starts. -/
def findWordFrom? (word : Text) : Option Char → Nat → Text → Option Nat
  | _, _, [] => none
  | before, offset, c :: rest =>
      if word.isPrefixOf (c :: rest) ∧
          standsBetween before ((c :: rest).drop word.length).head? then
        some offset
      else findWordFrom? word (some c) (offset + c.utf8Size) rest

/-- The byte offset of the first occurrence of a word that stands alone. The empty word occurs
nowhere. -/
def findWord? (text word : Text) : Option Nat :=
  if word = [] then none else findWordFrom? word none 0 text

end Text

end Dialect
