import Dialect.Line.Basic
import Dialect.Mask
import Dialect.Pattern.Search
import Dialect.Table.Basic

/-!
# Replacing keywords

Keywords are replaced in one pass, so the text that takes the place of a keyword is never looked at
again. Quoted literals and comments are left alone.
-/

namespace Dialect.Table

def keywordPattern (table : Table) : Pattern := .wordAmong table.keywords

def equivalent (table : Table) (word : Text) : Text :=
  match table.row? word with
  | none => word
  | some row => row.equivalent

/-- What takes the place of a segment: only a keyword that stands alone is replaced. -/
def replaceSegment (table : Table) : Segment → Text
  | .char c => [c]
  | .found hit => (if hit.standsAlone then table.equivalent hit.word else hit.word) ++ hit.trail

/-- Replaces every keyword that stands alone. -/
def replaceWords (table : Table) (text : Text) : Text :=
  (Pattern.segments table.keywordPattern .empty text).flatMap table.replaceSegment

/-- Replaces the keywords in code outside its literals. -/
def replaceInCode (table : Table) (code : Text) : Text :=
  let mask := Mask.ofCode code
  mask.unmask (table.replaceWords mask.text)

/-- Replaces the keywords in a piece of a line. Comments are kept. -/
def replaceInPiece (table : Table) : Piece → Text
  | .code text => table.replaceInCode text
  | .comment text => text

def replaceInLine (table : Table) (line : Line) : Text :=
  line.pieces.flatMap table.replaceInPiece

end Dialect.Table
