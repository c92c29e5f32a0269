import Dialect.Pattern.Reader
import Dialect.Table.Basic

/-!
# The built-in table

The keywords of the dialect and the words of JavaScript that they stand for. The contexts of block
openers, and of the keywords that depend on them, are anchored at the start of the code.
-/

namespace Dialect

namespace Rule

def plain (keyword equivalent : String) : Rule where
  keyword := keyword.toList
  equivalent := equivalent.toList
  role := .plain
  pattern := none

def opener (keyword equivalent pattern : String) : Rule where
  keyword := keyword.toList
  equivalent := equivalent.toList
  role := .opener
  pattern := some pattern.toList

def dependent (keyword equivalent parent pattern : String) : Rule where
  keyword := keyword.toList
  equivalent := equivalent.toList
  role := .dependent parent.toList
  pattern := some pattern.toList

end Rule

namespace Table

def builtinRules : List Rule :=
  [ .plain "fun" "function",
    .plain "lock" "const",
    .plain "free" "let",
    .plain "fam" "class",
    .opener "loopy" "for" "^\\s*loopy\\s*\\(",
    .opener "aslong" "while" "^\\s*aslong\\s*\\(",
    .opener "when" "if" "^\\s*when\\s*\\(",
    .dependent "maybe" "else if" "when" "^\\s*(?:\\\x7d\\s*)?maybe\\s*\\(",
    .dependent "meh" "else" "when" "^\\s*(?:\\\x7d\\s*)?meh\\s*\\\x7b",
    .plain "yay" "return",
    .plain "pls" "await",
    .plain "call" "new",
    .opener "pick" "switch" "^\\s*pick\\s*\\(",
    .dependent "option" "case" "pick" "^\\s*option\\s+",
    .dependent "fallback" "default" "pick" "^\\s*fallback\\s*:",
    .plain "bail" "break",
    .plain "skip" "continue" ]

def builtin : Table := (ofRules Pattern.read? builtinRules).toOption.getD { rows := [] }

/-- The rules of the built-in table have no fault. -/
theorem ofRules_builtinRules : ofRules Pattern.read? builtinRules = .ok builtin := by
  have readable : (ofRules Pattern.read? builtinRules).toOption.isSome = true := by decide +kernel
  unfold builtin
  cases built : ofRules Pattern.read? builtinRules with
  | error fault =>
      rw [built] at readable
      simp [Except.toOption] at readable
  | ok table => rfl

end Table

end Dialect
