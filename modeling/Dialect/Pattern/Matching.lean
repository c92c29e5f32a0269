import Dialect.Pattern.Basic

/-!
# Matching

`Pattern.stops` takes a list of positions in a text and gives the positions at which a match that
starts at one of them can stop. Both lists have the farthest position first and each position once,
so a list is never longer than the text, however the pattern is nested.
-/

namespace Dialect

/-- A position in a text: its byte offset, the character before it and the text after it. -/
structure Cursor where
  offset : Nat
  before : Option Char
  after : Text
  deriving DecidableEq, Repr

namespace Cursor

def start (text : Text) : Cursor where
  offset := 0
  before := none
  after := text

/-- The first character behind a position and the position behind that character. -/
def next? (cursor : Cursor) : Option (Char × Cursor) :=
  match cursor.after with
  | [] => none
  | c :: rest =>
      some (c, { offset := cursor.offset + c.utf8Size, before := some c, after := rest })

theorem length_after_next?_lt {cursor next : Cursor} {c : Char}
    (step : cursor.next? = some (c, next)) :
    next.after.length < cursor.after.length := by
  rw [next?] at step
  split at step
  next => simp at step
  next first rest after =>
    simp only [Option.some.injEq, Prod.mk.injEq] at step
    rw [← step.2, after]
    exact Nat.lt_succ_self rest.length

/-- The position behind the next character, if that character belongs to a set. -/
def past? (accepted : CharSet) (cursor : Cursor) : Option Cursor :=
  match cursor.next? with
  | none => none
  | some (c, next) => if accepted.contains c then some next else none

def upTo (cursor later : Cursor) : Text :=
  cursor.after.take (cursor.after.length - later.after.length)

def meets (cursor : Cursor) : Anchor → Bool
  | .textStart => cursor.before.isNone
  | .textEnd => cursor.after.isEmpty
  | .lineStart => cursor.before.all (· == '\n')
  | .lineEnd => cursor.after.head?.all (· == '\n')
  | .returnLineStart =>
      cursor.before.all fun c => c == '\n' || c == '\r' && cursor.after.head? != some '\n'
  | .returnLineEnd =>
      cursor.after.head?.all fun c => c == '\r' || c == '\n' && cursor.before != some '\r'
  | .wordBoundary => cursor.before.any isWordChar != cursor.after.head?.any isWordChar
  | .notWordBoundary => cursor.before.any isWordChar == cursor.after.head?.any isWordChar
  | .wordStart => !cursor.before.any isWordChar && cursor.after.head?.any isWordChar
  | .wordEnd => cursor.before.any isWordChar && !cursor.after.head?.any isWordChar
  | .notBehindWord => !cursor.before.any isWordChar
  | .notBeforeWord => !cursor.after.head?.any isWordChar

/-- A position and all positions behind it, put before some positions farther on. -/
def onwards (cursor : Cursor) (farther : List Cursor) : List Cursor :=
  match _step : cursor.next? with
  | none => cursor :: farther
  | some (_, next) => next.onwards (cursor :: farther)
termination_by cursor.after.length
decreasing_by exact length_after_next?_lt _step

/-- The positions of a text, the farthest first. -/
def positions (text : Text) : List Cursor := (start text).onwards []

/-! ## Lists of positions -/

def merge : List Cursor → List Cursor → List Cursor
  | [], others => others
  | cursor :: cursors, [] => cursor :: cursors
  | cursor :: cursors, other :: others =>
      if other.offset < cursor.offset then cursor :: merge cursors (other :: others)
      else if cursor.offset < other.offset then other :: merge (cursor :: cursors) others
      else cursor :: merge cursors others
termination_by cursors others => cursors.length + others.length

def without : List Cursor → List Cursor → List Cursor
  | [], _ => []
  | cursor :: cursors, [] => cursor :: cursors
  | cursor :: cursors, other :: others =>
      if other.offset < cursor.offset then cursor :: without cursors (other :: others)
      else if cursor.offset < other.offset then without (cursor :: cursors) others
      else without cursors others
termination_by cursors others => cursors.length + others.length

def samePlaces (cursors others : List Cursor) : Bool :=
  cursors.map Cursor.offset == others.map Cursor.offset

/-- The positions that exactly so many rounds of `step` reach. A round that changes nothing is the
last one that has to be made. -/
def afterRounds (step : List Cursor → List Cursor) : Nat → List Cursor → List Cursor
  | 0, cursors => cursors
  | rounds + 1, cursors =>
      if samePlaces (step cursors) cursors then cursors
      else afterRounds step rounds (step cursors)

/-- Adds to the positions reached so far those that at most so many further rounds of `step` reach.
Only the fresh positions have to be looked at, because the others have been looked at before. -/
def spread (step : List Cursor → List Cursor) :
    Nat → (fresh reached : List Cursor) → List Cursor
  | 0, _, reached => reached
  | rounds + 1, fresh, reached =>
      let found := without (step fresh) reached
      if found.isEmpty then reached else spread step rounds found (merge found reached)

end Cursor

namespace Pattern

/-- The positions at which a match from one of some positions can stop. In a text of at most `length`
characters, no more than `length` rounds of a repetition get ahead. -/
def stops (length : Nat) : Pattern → List Cursor → List Cursor
  | .empty, cursors => cursors
  | .one accepted, cursors => cursors.filterMap (Cursor.past? accepted)
  | .anchor condition, cursors => cursors.filter fun cursor => cursor.meets condition
  | .sequence first second, cursors => stops length second (stops length first cursors)
  | .either first second, cursors =>
      Cursor.merge (stops length first cursors) (stops length second cursors)
  | .repeated body least most, cursors =>
      let reached := Cursor.afterRounds (stops length body) least cursors
      Cursor.spread (stops length body) (most.elim length (· - least)) reached reached

def occursIn (pattern : Pattern) (text : Text) : Bool :=
  !(pattern.stops text.length (Cursor.positions text)).isEmpty

end Pattern

end Dialect
