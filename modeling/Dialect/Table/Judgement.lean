import Dialect.Blocks
import Dialect.Diagnostic
import Dialect.Table.Replacement

/-!
# Judging a line

A line is judged by its code with the literals masked. A line without code is skipped. Otherwise the
first row whose context occurs decides: an opener opens a block, a dependent keyword needs the block
of its parent to be the innermost one, and a plain keyword is fine. If no context occurs, no keyword
may be taken for a name.
-/

namespace Dialect

/-- What a line without a fault does. -/
inductive Verdict where
  | skipped
  | valid
  | opens (label : Text)
  deriving DecidableEq, Repr

namespace Table

/-- The pattern behind a keyword that is taken for a name. -/
def misuseTrail (kind : Misuse) : Pattern :=
  .sequence (.repeated (.one .spaces) 0 none) (.char kind.mark)

def misused? (table : Table) (code : Text) (kind : Misuse) : Option Hit :=
  ((Pattern.segments table.keywordPattern (misuseTrail kind) code).filterMap Segment.hit?).find?
    Hit.standsAlone

/-- The first misuse of a keyword, in the order of the kinds. -/
def firstMisuse? (table : Table) (code : Text) : Option (Misuse × Hit) :=
  Misuse.all.findSome? fun kind => (table.misused? code kind).map fun hit => (kind, hit)

/-- Judges a line of a file, given the blocks that are open before it. -/
def judge (table : Table) (blocks : Blocks) (file : Text) (number : Nat) (line : Line) :
    Except Diagnostic Verdict :=
  let mask := Mask.ofCode line.code
  let code := mask.text
  let site : Site := { file, line := number, text := line.text }
  let locate (offset : Nat) : Option Nat := line.offsetInLine? (mask.offsetInCode offset)
  if code.allBlank then .ok .skipped
  else
    match table.rows.find? fun row => row.fits code with
    | some row =>
        match row.role with
        | .plain => .ok .valid
        | .opener => .ok (.opens row.keyword)
        | .dependent parent =>
            if blocks.top? = some parent then .ok .valid
            else
              .error (.ofCause (.placement parent) row.keyword site
                ((code.findWord? row.keyword).bind locate))
    | none =>
        match table.firstMisuse? code with
        | none => .ok .valid
        | some (kind, hit) => .error (.ofCause (.misuse kind) hit.word site (locate hit.offset))

end Table

end Dialect
