import Dialect.Pattern.Search
import Dialect.Proofs.Characters
import Dialect.Text.Blank

/-!
# Changes that a search does not see

Some characters can be changed for others without any effect on where a pattern matches: those that
belong to no word, are not blank, take up the same room and are in the same sets of the pattern. Main
statements: a pattern occurs in a disguised text if it occurs in the text (`Disguise.occursIn_text`), and
the segments of the disguised text are the disguised segments (`Disguise.segments_text`).
-/

namespace Dialect

/-- A change of characters that leaves identifier characters alone and keeps the size of a character
and whether it is blank. -/
structure Disguise where
  apply : Char → Char
  identifier : ∀ c, isIdentifierChar c = true → apply c = c
  separator : ∀ c, isIdentifierChar c = false → isIdentifierChar (apply c) = false
  utf8Size : ∀ c, (apply c).utf8Size = c.utf8Size
  blank : ∀ c, isBlank (apply c) = isBlank c

/-- The sets of characters that a condition on a position tells apart, beside those of words. -/
def Anchor.sets : Anchor → List CharSet
  | .lineStart => [.single '\n']
  | .lineEnd => [.single '\n']
  | .returnLineStart => [.single '\n', .single '\r']
  | .returnLineEnd => [.single '\n', .single '\r']
  | _ => []

namespace Disguise

variable (disguise : Disguise)

/-! ## Characters and texts -/

theorem isIdentifierChar_apply (c : Char) :
    isIdentifierChar (disguise.apply c) = isIdentifierChar c := by
  cases identifier : isIdentifierChar c with
  | true => rw [disguise.identifier c identifier, identifier]
  | false => exact disguise.separator c identifier

theorem isWordChar_apply (c : Char) : isWordChar (disguise.apply c) = isWordChar c := by
  by_cases identifier : isIdentifierChar c = true
  · rw [disguise.identifier c identifier]
  · have noWord : ¬isWordChar c = true := fun word => identifier (isIdentifierChar_of_isWordChar word)
    have noWordAfter : ¬isWordChar (disguise.apply c) = true := by
      intro word
      apply identifier
      rw [← disguise.isIdentifierChar_apply]
      exact isIdentifierChar_of_isWordChar word
    rw [Bool.eq_false_iff.mpr noWord, Bool.eq_false_iff.mpr noWordAfter]

/-- The text with its characters changed. -/
def text (source : Text) : Text := source.map disguise.apply

@[simp]
theorem length_text (source : Text) : (disguise.text source).length = source.length :=
  List.length_map _

@[simp]
theorem any_isWordChar_map (neighbour : Option Char) :
    (neighbour.map disguise.apply).any isWordChar = neighbour.any isWordChar := by
  cases neighbour with
  | none => rfl
  | some c => exact disguise.isWordChar_apply c

@[simp]
theorem any_isIdentifierChar_map (neighbour : Option Char) :
    (neighbour.map disguise.apply).any isIdentifierChar = neighbour.any isIdentifierChar := by
  cases neighbour with
  | none => rfl
  | some c => exact disguise.isIdentifierChar_apply c

@[simp]
theorem head?_text (source : Text) :
    (disguise.text source).head? = source.head?.map disguise.apply :=
  List.head?_map

theorem text_of_identifier {source : Text} (identifier : ∀ c ∈ source, isIdentifierChar c = true) :
    disguise.text source = source := by
  rw [text, List.map_congr_left fun c member => disguise.identifier c (identifier c member)]
  exact List.map_id' source

theorem allBlank_text (source : Text) : (disguise.text source).allBlank = source.allBlank := by
  rw [text, Text.allBlank, List.all_map]
  exact congrArg source.all (funext disguise.blank)

theorem trim_text (source : Text) : (disguise.text source).trim = disguise.text source.trim := by
  have natural (text : Text) :
      (disguise.text text).dropWhile isBlank = disguise.text (text.dropWhile isBlank) := by
    rw [Disguise.text, List.dropWhile_map]
    exact congrArg (fun blank => (text.dropWhile blank).map disguise.apply) (funext disguise.blank)
  have reversed (text : Text) : (disguise.text text).reverse = disguise.text text.reverse :=
    List.map_reverse.symm
  rw [Text.trim, Text.trimEnd, Text.trimStart, natural, reversed, natural, reversed]
  rfl

/-! ## Positions -/

/-- A position in the disguised text. -/
def cursor (position : Cursor) : Cursor where
  offset := position.offset
  before := position.before.map disguise.apply
  after := disguise.text position.after

@[simp]
theorem offset_cursor (position : Cursor) : (disguise.cursor position).offset = position.offset := rfl

theorem next?_cursor (position : Cursor) :
    (disguise.cursor position).next? =
      position.next?.map fun (c, next) => (disguise.apply c, disguise.cursor next) := by
  obtain ⟨offset, before, after⟩ := position
  cases after with
  | nil => rfl
  | cons c rest => simp [cursor, text, Cursor.next?, disguise.utf8Size]

theorem apply_beq {c : Char}
    (overlooks : ∀ d, (CharSet.single c).contains (disguise.apply d) = (CharSet.single c).contains d)
    (d : Char) : (disguise.apply d == c) = (d == c) := by
  have same := overlooks d
  rw [CharSet.contains_single, CharSet.contains_single, decide_eq_decide] at same
  rw [Bool.eq_iff_iff, beq_iff_eq, beq_iff_eq, same]

theorem map_apply_bne_some {c : Char}
    (overlooks : ∀ d, (CharSet.single c).contains (disguise.apply d) = (CharSet.single c).contains d)
    (neighbour : Option Char) : (neighbour.map disguise.apply != some c) = (neighbour != some c) := by
  cases neighbour with
  | none => rfl
  | some d => exact congrArg not (disguise.apply_beq overlooks d)

theorem meets_cursor {condition : Anchor}
    (overlooks : ∀ accepted ∈ condition.sets, ∀ c,
      accepted.contains (disguise.apply c) = accepted.contains c) (position : Cursor) :
    (disguise.cursor position).meets condition = position.meets condition := by
  cases condition with
  | textEnd => exact List.isEmpty_map
  | textStart => exact Option.isNone_map
  | lineStart =>
      have feed := disguise.apply_beq (overlooks _ List.mem_cons_self)
      simp [cursor, Cursor.meets, Option.all_map, feed]
  | lineEnd =>
      have feed := disguise.apply_beq (overlooks _ List.mem_cons_self)
      simp [cursor, Cursor.meets, Option.all_map, feed]
  | returnLineStart =>
      have feed := overlooks _ List.mem_cons_self
      have ret := overlooks _ (List.mem_cons_of_mem _ List.mem_cons_self)
      simp only [cursor, Cursor.meets, Option.all_map, head?_text,
        disguise.apply_beq feed, disguise.apply_beq ret, disguise.map_apply_bne_some feed]
  | returnLineEnd =>
      have feed := overlooks _ List.mem_cons_self
      have ret := overlooks _ (List.mem_cons_of_mem _ List.mem_cons_self)
      simp only [cursor, Cursor.meets, Option.all_map, head?_text,
        disguise.apply_beq feed, disguise.apply_beq ret, disguise.map_apply_bne_some ret]
  | wordBoundary => simp [cursor, Cursor.meets]
  | notWordBoundary => simp [cursor, Cursor.meets]
  | wordStart => simp [cursor, Cursor.meets]
  | wordEnd => simp [cursor, Cursor.meets]
  | notBehindWord => simp [cursor, Cursor.meets]
  | notBeforeWord => simp [cursor, Cursor.meets]

theorem upTo_cursor (position later : Cursor) :
    (disguise.cursor position).upTo (disguise.cursor later) = disguise.text (position.upTo later) := by
  simp [cursor, Cursor.upTo, text, List.map_take]

theorem onwards_cursor (position : Cursor) (farther : List Cursor) :
    (disguise.cursor position).onwards (farther.map disguise.cursor) =
      (position.onwards farther).map disguise.cursor := by
  fun_induction Cursor.onwards position farther with
  | case1 position farther atEnd =>
      have step := disguise.next?_cursor position
      rw [atEnd] at step
      rw [Cursor.onwards]
      split
      next => rfl
      next found => simp [step] at found
  | case2 position farther c next found inductionHypothesis =>
      have step := disguise.next?_cursor position
      rw [found] at step
      rw [Cursor.onwards]
      split
      next atEnd => simp [step] at atEnd
      next other equality =>
        rw [step] at equality
        obtain ⟨rfl, rfl⟩ := Prod.mk.inj (Option.some.inj equality)
        exact inductionHypothesis

theorem positions_text (source : Text) :
    Cursor.positions (disguise.text source) =
      (Cursor.positions source).map disguise.cursor :=
  disguise.onwards_cursor (.start source) []

/-! ## Lists of positions

Only offsets are compared, and these stay as they are. -/

theorem merge_cursor (left right : List Cursor) :
    Cursor.merge (left.map disguise.cursor) (right.map disguise.cursor) =
      (Cursor.merge left right).map disguise.cursor := by
  fun_induction Cursor.merge left right with
  | case1 right => simp [Cursor.merge]
  | case2 position left => simp [Cursor.merge]
  | case3 position left other right farther inductionHypothesis =>
      rw [List.map_cons, List.map_cons, List.map_cons, ← inductionHypothesis]
      simp [Cursor.merge, farther]
  | case4 position left other right notFarther nearer inductionHypothesis =>
      rw [List.map_cons, List.map_cons, List.map_cons, ← inductionHypothesis]
      simp [Cursor.merge, notFarther, nearer]
  | case5 position left other right notFarther notNearer inductionHypothesis =>
      rw [List.map_cons, List.map_cons, List.map_cons, ← inductionHypothesis]
      simp [Cursor.merge, notFarther, notNearer]

theorem without_cursor (left right : List Cursor) :
    Cursor.without (left.map disguise.cursor) (right.map disguise.cursor) =
      (Cursor.without left right).map disguise.cursor := by
  fun_induction Cursor.without left right with
  | case1 right => simp [Cursor.without]
  | case2 position left => simp [Cursor.without]
  | case3 position left other right farther inductionHypothesis =>
      rw [List.map_cons, List.map_cons, List.map_cons, ← inductionHypothesis]
      simp [Cursor.without, farther]
  | case4 position left other right notFarther nearer inductionHypothesis =>
      rw [← inductionHypothesis]
      simp [Cursor.without, notFarther, nearer]
  | case5 position left other right notFarther notNearer inductionHypothesis =>
      rw [← inductionHypothesis]
      simp [Cursor.without, notFarther, notNearer]

theorem samePlaces_cursor (left right : List Cursor) :
    Cursor.samePlaces (left.map disguise.cursor) (right.map disguise.cursor) =
      Cursor.samePlaces left right := by
  have offsets (positions : List Cursor) :
      (positions.map disguise.cursor).map Cursor.offset = positions.map Cursor.offset := by
    rw [List.map_map]
    rfl
  rw [Cursor.samePlaces, Cursor.samePlaces, offsets, offsets]

section Rounds

variable {disguise} {step : List Cursor → List Cursor}
  (natural : ∀ positions, step (positions.map disguise.cursor) = (step positions).map disguise.cursor)

include natural

theorem afterRounds_cursor (rounds : Nat) (positions : List Cursor) :
    Cursor.afterRounds step rounds (positions.map disguise.cursor) =
      (Cursor.afterRounds step rounds positions).map disguise.cursor := by
  induction rounds generalizing positions with
  | zero => rfl
  | succ rounds inductionHypothesis =>
      rw [Cursor.afterRounds, Cursor.afterRounds, natural, samePlaces_cursor, inductionHypothesis]
      split
      · rfl
      · rfl

theorem spread_cursor (rounds : Nat) (fresh reached : List Cursor) :
    Cursor.spread step rounds (fresh.map disguise.cursor) (reached.map disguise.cursor) =
      (Cursor.spread step rounds fresh reached).map disguise.cursor := by
  induction rounds generalizing fresh reached with
  | zero => rfl
  | succ rounds inductionHypothesis =>
      simp only [Cursor.spread, natural, without_cursor, List.isEmpty_map, merge_cursor,
        inductionHypothesis]
      split
      · rfl
      · rfl

end Rounds

end Disguise

namespace Pattern

/-- The sets of characters in a pattern. -/
def sets : Pattern → List CharSet
  | .empty => []
  | .one accepted => [accepted]
  | .anchor condition => condition.sets
  | .sequence first second => sets first ++ sets second
  | .either first second => sets first ++ sets second
  | .repeated body _ _ => sets body

/-- A pattern overlooks a disguise when no set in it tells a character from the one it is changed
to. -/
def Overlooks (pattern : Pattern) (disguise : Disguise) : Prop :=
  ∀ accepted ∈ pattern.sets, ∀ c, accepted.contains (disguise.apply c) = accepted.contains c

/-- One step of a search. -/
theorem segmentsFrom_eq (length : Nat) (word trail : Pattern) (position : Cursor) :
    segmentsFrom length word trail position =
      match hitAt? length word trail position, position.next? with
      | none, none => []
      | none, some (c, next) => .char c :: segmentsFrom length word trail next
      | some (hit, stop), step =>
          if stop.after.length < position.after.length then
            .found hit :: segmentsFrom length word trail stop
          else
            match step with
            | none => [.found hit]
            | some (c, next) => .found hit :: .char c :: segmentsFrom length word trail next := by
  rw [segmentsFrom]
  split
  next noHit =>
    split
    next atEnd => simp only [noHit, atEnd]
    next c next step => simp only [noHit, step]
  next hit stop found =>
    simp only [found]
    split
    next => rfl
    next =>
      split
      next atEnd => simp only [atEnd]
      next c next step => simp only [step]

end Pattern

namespace Disguise

/-! ## Matching -/

theorem past?_cursor {disguise : Disguise} {accepted : CharSet}
    (overlooks : ∀ c, accepted.contains (disguise.apply c) = accepted.contains c) (position : Cursor) :
    (disguise.cursor position).past? accepted = (position.past? accepted).map disguise.cursor := by
  rw [Cursor.past?, Cursor.past?, next?_cursor]
  cases position.next? with
  | none => rfl
  | some step =>
      simp only [Option.map_some, overlooks]
      split
      · rfl
      · rfl

theorem stops_cursor {disguise : Disguise} {pattern : Pattern}
    (overlooks : pattern.Overlooks disguise) (length : Nat) (positions : List Cursor) :
    pattern.stops length (positions.map disguise.cursor) =
      (pattern.stops length positions).map disguise.cursor := by
  induction pattern generalizing positions with
  | empty => rfl
  | one accepted =>
      have natural := past?_cursor (overlooks accepted List.mem_cons_self)
      rw [Pattern.stops, Pattern.stops, List.filterMap_map, List.map_filterMap]
      exact congrArg (List.filterMap · positions) (funext natural)
  | anchor condition =>
      rw [Pattern.stops, Pattern.stops, List.filter_map]
      simp only [Function.comp_def, disguise.meets_cursor overlooks]
  | sequence first second firstHypothesis secondHypothesis =>
      rw [Pattern.stops, Pattern.stops, firstHypothesis, secondHypothesis]
      · exact fun accepted member => overlooks accepted (List.mem_append_right _ member)
      · exact fun accepted member => overlooks accepted (List.mem_append_left _ member)
  | either first second firstHypothesis secondHypothesis =>
      rw [Pattern.stops, Pattern.stops, firstHypothesis, secondHypothesis, merge_cursor]
      · exact fun accepted member => overlooks accepted (List.mem_append_right _ member)
      · exact fun accepted member => overlooks accepted (List.mem_append_left _ member)
  | repeated body least most inductionHypothesis =>
      have natural := inductionHypothesis overlooks
      rw [Pattern.stops, Pattern.stops, afterRounds_cursor natural, spread_cursor natural]

/-- A pattern that overlooks a disguise occurs in the same texts with and without it. -/
theorem occursIn_text {disguise : Disguise} {pattern : Pattern}
    (overlooks : pattern.Overlooks disguise) (source : Text) :
    pattern.occursIn (disguise.text source) = pattern.occursIn source := by
  rw [Pattern.occursIn, Pattern.occursIn, positions_text, stops_cursor overlooks, length_text,
    List.isEmpty_map]

/-! ## Searching -/

/-- A hit in the disguised text. -/
def hit (disguise : Disguise) (found : Hit) : Hit where
  offset := found.offset
  before := found.before.map disguise.apply
  word := disguise.text found.word
  trail := disguise.text found.trail
  after := found.after.map disguise.apply

@[simp]
theorem standsAlone_hit (disguise : Disguise) (found : Hit) :
    (disguise.hit found).standsAlone = found.standsAlone := by
  simp [Hit.standsAlone, Text.standsBetween, hit]

/-- A segment of the disguised text. -/
def segment (disguise : Disguise) : Segment → Segment
  | .char c => .char (disguise.apply c)
  | .found hit => .found (disguise.hit hit)

section Search

variable {disguise : Disguise} {word trail : Pattern} (wordOverlooks : word.Overlooks disguise)
  (trailOverlooks : trail.Overlooks disguise)

include wordOverlooks trailOverlooks

theorem hitAt?_cursor (length : Nat) (position : Cursor) :
    Pattern.hitAt? length word trail (disguise.cursor position) =
      (Pattern.hitAt? length word trail position).map fun (found, stop) =>
        (disguise.hit found, disguise.cursor stop) := by
  have wordStops := stops_cursor wordOverlooks length [position]
  rw [List.map_singleton] at wordStops
  rw [Pattern.hitAt?, Pattern.hitAt?, wordStops, List.findSome?_map, List.map_findSome?]
  congr 1
  funext middle
  have trailStops := stops_cursor trailOverlooks length [middle]
  rw [List.map_singleton] at trailStops
  rw [Function.comp_apply, trailStops, List.head?_map, Option.map_map, Function.comp_apply,
    Option.map_map]
  congr 1
  funext stop
  simp [hit, cursor, ← upTo_cursor]

theorem segmentsFrom_cursor (length : Nat) (position : Cursor) :
    Pattern.segmentsFrom length word trail (disguise.cursor position) =
      (Pattern.segmentsFrom length word trail position).map disguise.segment := by
  fun_induction Pattern.segmentsFrom length word trail position with
  | case1 position noHit atEnd =>
      rw [Pattern.segmentsFrom_eq, hitAt?_cursor wordOverlooks trailOverlooks, noHit, next?_cursor, atEnd]
      rfl
  | case2 position noHit c next step inductionHypothesis =>
      rw [Pattern.segmentsFrom_eq, hitAt?_cursor wordOverlooks trailOverlooks, noHit, next?_cursor, step,
        List.map_cons, ← inductionHypothesis]
      rfl
  | case3 position found stop isHit shorter inductionHypothesis =>
      have shorterAfter : (disguise.cursor stop).after.length < (disguise.cursor position).after.length := by
        simpa [cursor] using shorter
      rw [Pattern.segmentsFrom_eq, hitAt?_cursor wordOverlooks trailOverlooks, isHit, List.map_cons,
        ← inductionHypothesis]
      exact if_pos shorterAfter
  | case4 position found stop isHit notShorter atEnd =>
      have notShorterAfter :
          ¬(disguise.cursor stop).after.length < (disguise.cursor position).after.length := by
        simpa [cursor] using notShorter
      rw [Pattern.segmentsFrom_eq, hitAt?_cursor wordOverlooks trailOverlooks, isHit, next?_cursor, atEnd]
      exact if_neg notShorterAfter
  | case5 position found stop isHit notShorter c next step inductionHypothesis =>
      have notShorterAfter :
          ¬(disguise.cursor stop).after.length < (disguise.cursor position).after.length := by
        simpa [cursor] using notShorter
      rw [Pattern.segmentsFrom_eq, hitAt?_cursor wordOverlooks trailOverlooks, isHit, next?_cursor, step,
        List.map_cons, List.map_cons, ← inductionHypothesis]
      exact if_neg notShorterAfter

/-- A search through a disguised text finds the disguised hits. -/
theorem segments_text (source : Text) :
    Pattern.segments word trail (disguise.text source) =
      (Pattern.segments word trail source).map disguise.segment := by
  rw [Pattern.segments, Pattern.segments, length_text]
  exact segmentsFrom_cursor wordOverlooks trailOverlooks source.length (.start source)

end Search

end Disguise

end Dialect
