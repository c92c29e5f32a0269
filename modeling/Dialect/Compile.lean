import Dialect.Line.Reader
import Dialect.Table.Builtin
import Dialect.Table.Judgement

/-!
# Compiling

A source is compiled line by line. What one line leaves for the next is whether a block comment is
open and which blocks are. The first line with a fault ends the work.
-/

namespace Dialect

namespace Blocks

/-- The blocks after a line with the given code, trimmed, and verdict. A closing brace alone on its
line closes the innermost block. -/
def afterLine (blocks : Blocks) (code : Text) (verdict : Verdict) : Blocks :=
  if code = ['\x7d'] then blocks.pop
  else
    match verdict with
    | .opens label => blocks.push label
    | _ => blocks

end Blocks

/-- What one line leaves for the next. -/
structure Progress where
  blocks : Blocks
  commentOpen : Bool
  deriving DecidableEq, Repr

namespace Progress

def start : Progress where
  blocks := .empty
  commentOpen := false

/-- After a line and what was found about it. A line with a fault leaves the blocks as they are. -/
def afterLine (progress : Progress) (line : Line) (found : Except Diagnostic Verdict) :
    Progress where
  blocks :=
    match found with
    | .ok verdict => progress.blocks.afterLine line.code.trim verdict
    | .error _ => progress.blocks
  commentOpen := line.openAfter

end Progress

namespace Table

def compileLine (table : Table) (file : Text) (number : Nat) (progress : Progress) (text : Text) :
    Except Diagnostic (Text × Progress) :=
  let line := Line.read text progress.commentOpen
  match table.judge progress.blocks file number line with
  | .error diagnostic => .error diagnostic
  | .ok verdict => .ok (table.replaceInLine line, progress.afterLine line (.ok verdict))

/-- Compiles lines of which the first has the given number. -/
def compileLines (table : Table) (file : Text) (number : Nat) (progress : Progress) :
    List Text → Except Diagnostic (List Text × Progress)
  | [] => .ok ([], progress)
  | text :: texts =>
      match table.compileLine file number progress text with
      | .error diagnostic => .error diagnostic
      | .ok (compiled, next) =>
          match compileLines table file (number + 1) next texts with
          | .error diagnostic => .error diagnostic
          | .ok (others, last) => .ok (compiled :: others, last)

/-- Compiles a source. The name of the file is only for diagnostics. -/
def compile (table : Table) (source file : Text) : Except Diagnostic Text :=
  match table.compileLines file 1 .start source.lines with
  | .error diagnostic => .error diagnostic
  | .ok (lines, _) => .ok (Text.unlines lines)

end Table

end Dialect
