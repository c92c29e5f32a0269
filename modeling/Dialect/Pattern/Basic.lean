import Dialect.CharSet
import Dialect.Text.Word

/-!
# Patterns

A pattern describes texts by their characters and by where they stand: anchors look at the start and
the end of the text around them, at the lines of the text and at word boundaries. The character classes
of patterns are ASCII classes.
-/

namespace Dialect

/-- A condition on a position in a text. Lines end in a line feed or, for the anchors of returns, also
in a carriage return or in both, between which no line starts or ends. -/
inductive Anchor where
  | textStart
  | textEnd
  | lineStart
  | lineEnd
  | returnLineStart
  | returnLineEnd
  | wordBoundary
  | notWordBoundary
  | wordStart
  | wordEnd
  | notBehindWord
  | notBeforeWord
  deriving DecidableEq, Repr

/-- Patterns. A repetition has a least number of rounds and may have a greatest one. -/
inductive Pattern where
  | empty
  | one (accepted : CharSet)
  | anchor (condition : Anchor)
  | sequence (first second : Pattern)
  | either (first second : Pattern)
  | repeated (body : Pattern) (least : Nat) (most : Option Nat)
  deriving DecidableEq, Repr

namespace Pattern

def char (c : Char) : Pattern := .one (.single c)

def inOrder : List Pattern → Pattern
  | [] => .empty
  | [pattern] => pattern
  | pattern :: others => .sequence pattern (inOrder others)

/-- One of some patterns. With nothing to choose from, the empty pattern. -/
def oneOf : List Pattern → Pattern
  | [] => .empty
  | [pattern] => pattern
  | pattern :: others => .either pattern (oneOf others)

def literal (text : Text) : Pattern := inOrder (text.map char)

/-- The pattern of one of some words, with a word boundary on either side. -/
def wordAmong (words : List Text) : Pattern :=
  inOrder [.anchor .wordBoundary, oneOf (words.map literal), .anchor .wordBoundary]

end Pattern

end Dialect
