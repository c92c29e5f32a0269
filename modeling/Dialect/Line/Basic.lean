import Dialect.Text.Blank

/-!
# Lines cut into pieces

A line is a sequence of code pieces and comment pieces. Its code is the code pieces with a space
where a comment separated them, so a position in the code is not the same number as the position in
the line: `Line.offsetInLine?` maps one to the other.
-/

namespace Dialect

/-- A part of a line that is all code or all comment. -/
inductive Piece where
  | code (text : Text)
  | comment (text : Text)
  deriving DecidableEq, Repr

namespace Piece

def text : Piece → Text
  | .code text => text
  | .comment text => text

def code? : Piece → Option Text
  | .code text => some text
  | .comment _ => none

def comment? : Piece → Option Text
  | .code _ => none
  | .comment text => some text

end Piece

/-- A line with its pieces, and whether a block comment is open before and after it. -/
structure Line where
  text : Text
  pieces : List Piece
  openBefore : Bool
  openAfter : Bool
  deriving DecidableEq, Repr

namespace Line

/-- The code pieces with a space between each two. -/
def code (line : Line) : Text := Text.joinWith [' '] (line.pieces.filterMap Piece.code?)

def comment (line : Line) : Text := (line.pieces.filterMap Piece.comment?).flatten

/-- A line has code when some code piece is not blank. -/
def hasCode (line : Line) : Bool :=
  (line.pieces.filterMap Piece.code?).any fun text => !text.allBlank

/-- Follows a byte offset into the code through the remaining pieces. `start` is the offset in the
line at which the pieces begin, and `offset` counts from the first code piece among them. -/
def offsetInPieces? : (start offset : Nat) → List Piece → Option Nat
  | _, _, [] => none
  | start, offset, .comment text :: pieces =>
      offsetInPieces? (start + text.bytes) offset pieces
  | start, offset, .code text :: pieces =>
      if offset < text.bytes then some (start + offset)
      else if offset = text.bytes then none
      else offsetInPieces? (start + text.bytes) (offset - text.bytes - 1) pieces

/-- The byte offset in the line of a byte offset in its code. The spaces that join two code pieces
are nowhere in the line, and neither is an offset beyond the code. -/
def offsetInLine? (line : Line) (offset : Nat) : Option Nat :=
  offsetInPieces? 0 offset line.pieces

end Line

end Dialect
