import Dialect.Text.Basic

/-!
# Programs

A compiled script is handed to another program. For this library a program is what it does with the
script: what it prints and how it ends.
-/

namespace Dialect

/-- What came of starting a program: what it printed, and its exit code unless it was killed. -/
structure Execution where
  stdout : Text
  exit : Option Nat
  deriving DecidableEq, Repr

/-- A program, by what it does with a script. -/
abbrev Program := Text → Execution

end Dialect
