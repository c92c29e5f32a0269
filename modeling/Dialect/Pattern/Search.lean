import Dialect.Pattern.Matching

/-!
# Searching a text

A search goes through a text from left to right and finds, without overlaps, the places where a word
pattern matches and a second pattern matches right behind it. What no match covers is kept, so the
result is the whole text cut into segments.
-/

namespace Dialect

/-- A place where a word was found. -/
structure Hit where
  /-- The byte offset of the word. -/
  offset : Nat
  /-- The character before the word. -/
  before : Option Char
  /-- What the word pattern matched. -/
  word : Text
  /-- What the second pattern matched behind the word. -/
  trail : Text
  /-- The character behind the word. -/
  after : Option Char
  deriving DecidableEq, Repr

namespace Hit

def standsAlone (hit : Hit) : Bool := Text.standsBetween hit.before hit.after

end Hit

/-- A character that no match covers, or a match. -/
inductive Segment where
  | char (c : Char)
  | found (hit : Hit)
  deriving DecidableEq, Repr

namespace Segment

def hit? : Segment → Option Hit
  | .char _ => none
  | .found hit => some hit

end Segment

namespace Pattern

/-- The match of a word and a trail that starts at a position of a text of the given length, and where
the match stops. -/
def hitAt? (length : Nat) (word trail : Pattern) (cursor : Cursor) : Option (Hit × Cursor) :=
  (word.stops length [cursor]).findSome? fun middle =>
    (trail.stops length [middle]).head?.map fun stop =>
      ({ offset := cursor.offset
         before := cursor.before
         word := cursor.upTo middle
         trail := middle.upTo stop
         after := middle.after.head? }, stop)

/-- The segments of the text behind a position. Behind an empty match one character is passed
over. -/
def segmentsFrom (length : Nat) (word trail : Pattern) (cursor : Cursor) : List Segment :=
  match hitAt? length word trail cursor with
  | none =>
      match _step : cursor.next? with
      | none => []
      | some (c, next) => .char c :: segmentsFrom length word trail next
  | some (hit, stop) =>
      if stop.after.length < cursor.after.length then
        .found hit :: segmentsFrom length word trail stop
      else
        match _step : cursor.next? with
        | none => [.found hit]
        | some (c, next) => .found hit :: .char c :: segmentsFrom length word trail next
termination_by cursor.after.length
decreasing_by
  · exact Cursor.length_after_next?_lt _step
  · assumption
  · exact Cursor.length_after_next?_lt _step

def segments (word trail : Pattern) (text : Text) : List Segment :=
  segmentsFrom text.length word trail (.start text)

end Pattern

end Dialect
