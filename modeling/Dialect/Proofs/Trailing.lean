import Mathlib.Data.List.Basic
import Dialect.Proofs.Disguise
import Dialect.Proofs.Leading
import Dialect.Proofs.Search

/-!
# Spaces behind a text

A pattern that does not ask for the end of the text matches in a longer text wherever it matches in
the text itself. If its matches end with visible characters and only spaces are added, then there are
no further matches. Main statements: such a pattern occurs in the longer text exactly if it occurs in
the text (`Pattern.occursIn_append_spaces`), and a search finds the same hits in both
(`Pattern.segments_append_spaces`).
-/

namespace Dialect

/-- Whether a condition on a position can depend on the text ending behind it. -/
def Anchor.seesEnd : Anchor → Bool
  | .textEnd => true
  | .lineEnd => true
  | .returnLineStart => true
  | .returnLineEnd => true
  | _ => false

namespace Cursor

/-! ## Positions in a longer text -/

/-- The same position when more text follows. -/
def extended (tail : Text) (cursor : Cursor) : Cursor :=
  { cursor with after := cursor.after ++ tail }

@[simp]
theorem extended_between (tail before after : Text) :
    (between before after).extended tail = between before (after ++ tail) := rfl

theorem extended_inj {tail : Text} {cursor other : Cursor} :
    cursor.extended tail = other.extended tail ↔ cursor = other := by
  cases cursor
  cases other
  simp [extended]

theorem IsIn.extended {text : Text} {cursor : Cursor} (isIn : IsIn text cursor) (tail : Text) :
    IsIn (text ++ tail) (cursor.extended tail) := by
  obtain ⟨before, after, rfl, rfl⟩ := isIn
  exact ⟨before, after ++ tail, by simp, rfl⟩

/-- A position with at least the added text behind it is a position of the shorter text. -/
theorem IsIn.exists_extended {text tail : Text} {cursor : Cursor} (isIn : IsIn (text ++ tail) cursor)
    (long : tail.length ≤ cursor.after.length) :
    ∃ position, IsIn text position ∧ cursor = position.extended tail := by
  obtain ⟨before, after, joined, rfl⟩ := isIn
  rcases List.append_eq_append_iff.mp joined with ⟨middle, textEquality, afterEquality⟩ |
    ⟨middle, beforeEquality, tailEquality⟩
  · exact ⟨between before middle, ⟨before, middle, textEquality.symm, rfl⟩, by rw [afterEquality]; rfl⟩
  · have empty : middle = [] := by
      apply List.eq_nil_of_length_eq_zero
      rw [tailEquality, List.length_append, between_after] at long
      omega
    refine ⟨between text [], ⟨text, [], by simp, rfl⟩, ?_⟩
    rw [beforeEquality, tailEquality, empty]
    simp

theorem IsIn.exists_extended_of_before {text tail : Text} {cursor : Cursor} {c : Char}
    (isIn : IsIn (text ++ tail) cursor) (before : cursor.before = some c) (absent : c ∉ tail) :
    ∃ position, IsIn text position ∧ cursor = position.extended tail := by
  apply isIn.exists_extended
  obtain ⟨front, after, joined, rfl⟩ := isIn
  rcases List.append_eq_append_iff.mp joined with ⟨middle, _, afterEquality⟩ |
    ⟨middle, frontEquality, tailEquality⟩
  · rw [between_after, afterEquality, List.length_append]
    omega
  · by_cases empty : middle = []
    · rw [between_after, tailEquality, empty]
      exact Nat.le_refl _
    · have last : middle.getLast? = some c := by
        rw [between_before, frontEquality, List.getLast?_append,
          List.getLast?_eq_some_getLast empty] at before
        rw [List.getLast?_eq_some_getLast empty]
        exact before
      have inTail : c ∈ tail := by
        rw [tailEquality]
        exact List.mem_append_left after (List.mem_of_getLast? last)
      exact absurd inTail absent

theorem meets_extended {tail : Text} (noWord : tail.head?.any isWordChar = false) (cursor : Cursor)
    {condition : Anchor} (notEnd : condition.seesEnd = false) :
    (cursor.extended tail).meets condition = cursor.meets condition := by
  have sameHead : (cursor.after ++ tail).head?.any isWordChar = cursor.after.head?.any isWordChar := by
    cases cursor.after with
    | nil => exact noWord
    | cons c rest => rfl
  cases condition with
  | textEnd => simp [Anchor.seesEnd] at notEnd
  | lineEnd => simp [Anchor.seesEnd] at notEnd
  | returnLineStart => simp [Anchor.seesEnd] at notEnd
  | returnLineEnd => simp [Anchor.seesEnd] at notEnd
  | textStart => rfl
  | lineStart => rfl
  | wordBoundary => simp only [meets, extended, sameHead]
  | notWordBoundary => simp only [meets, extended, sameHead]
  | wordStart => simp only [meets, extended, sameHead]
  | wordEnd => simp only [meets, extended, sameHead]
  | notBehindWord => rfl
  | notBeforeWord => simp only [meets, extended, sameHead]

theorem next?_extended (tail : Text) {cursor next : Cursor} {c : Char}
    (step : cursor.next? = some (c, next)) :
    (cursor.extended tail).next? = some (c, next.extended tail) := by
  obtain ⟨offset, before, after⟩ := cursor
  cases after with
  | nil => simp [next?] at step
  | cons first rest =>
      obtain ⟨rfl, rfl⟩ := Prod.mk.inj (Option.some.inj step)
      rfl

theorem upTo_extended (tail : Text) (cursor later : Cursor) :
    (cursor.extended tail).upTo (later.extended tail) = cursor.upTo later := by
  have count : (cursor.after ++ tail).length - (later.after ++ tail).length =
      cursor.after.length - later.after.length := by
    simp only [List.length_append]
    omega
  rw [upTo, upTo, extended, extended, count]
  exact List.take_append_of_le_length (Nat.sub_le _ _)

end Cursor

namespace Pattern

open Cursor

/-- Whether a pattern asks for the end of the text. -/
def seesEnd : Pattern → Bool
  | .empty => false
  | .one _ => false
  | .anchor condition => condition.seesEnd
  | .sequence first second => first.seesEnd || second.seesEnd
  | .either first second => first.seesEnd || second.seesEnd
  | .repeated body _ _ => body.seesEnd

/-- Between two positions of the text there are only positions of the text. -/
private theorem exists_extended_of_matches {text tail : Text} {pattern : Pattern}
    {cursor middle stop : Cursor} (isIn : IsIn text cursor)
    (matched : pattern.Matches (cursor.extended tail) middle)
    (notFarther : (stop.extended tail).after.length ≤ middle.after.length) :
    ∃ position, IsIn text position ∧ middle = position.extended tail := by
  have middleIsIn := (matched.advances (isIn.extended tail)).1
  apply middleIsIn.exists_extended
  simp only [extended, List.length_append] at notFarther
  omega

private theorem rounds_extended_iff {text tail : Text} {body : Pattern}
    (bodyIff : ∀ {cursor stop}, IsIn text cursor → IsIn text stop →
      (body.Matches (cursor.extended tail) (stop.extended tail) ↔ body.Matches cursor stop))
    (count : Nat) {cursor stop : Cursor} (isIn : IsIn text cursor) :
    Rounds body.Matches count (cursor.extended tail) (stop.extended tail) ↔
      Rounds body.Matches count cursor stop := by
  induction count generalizing cursor with
  | zero => exact extended_inj
  | succ count inductionHypothesis =>
      constructor
      · intro rounds
        obtain ⟨middle, first, others⟩ := rounds
        have middleIsIn := (first.advances (isIn.extended tail)).1
        obtain ⟨position, positionIsIn, rfl⟩ :=
          exists_extended_of_matches isIn first (rounds_advances Matches.advances middleIsIn others).2
        exact ⟨position, (bodyIff isIn positionIsIn).mp first,
          (inductionHypothesis positionIsIn).mp others⟩
      · intro rounds
        obtain ⟨middle, first, others⟩ := rounds
        have middleIsIn := (first.advances isIn).1
        exact ⟨middle.extended tail, (bodyIff isIn middleIsIn).mpr first,
          (inductionHypothesis middleIsIn).mpr others⟩

/-- A match inside the text does not depend on what is added behind the text. -/
theorem matches_extended_iff {text tail : Text} (noWord : tail.head?.any isWordChar = false)
    {pattern : Pattern} (blind : pattern.seesEnd = false) {cursor stop : Cursor}
    (isIn : IsIn text cursor) (stopIsIn : IsIn text stop) :
    pattern.Matches (cursor.extended tail) (stop.extended tail) ↔ pattern.Matches cursor stop := by
  induction pattern generalizing cursor stop with
  | empty => exact extended_inj
  | one accepted =>
      obtain ⟨before, after, joined, rfl⟩ := isIn
      cases after with
      | nil =>
          constructor
          · intro passed
            have longer := ((isIn_between before []).extended tail |>.past? passed).2
            simp only [between_after, extended, List.length_append, List.length_nil] at longer
            omega
          · intro passed
            simp [Matches, past?_between_nil] at passed
      | cons c rest =>
          simp only [Matches, extended_between, List.cons_append, past?_between_cons]
          by_cases accepts : accepted.contains c = true
          · rw [if_pos accepts, if_pos accepts, Option.some.injEq, Option.some.injEq,
              ← extended_between, extended_inj]
          · rw [if_neg accepts, if_neg accepts]
            simp
  | anchor condition =>
      have notEnd : condition.seesEnd = false := blind
      simp only [Matches, extended_inj, meets_extended noWord cursor notEnd]
  | sequence first second firstIff secondIff =>
      obtain ⟨firstBlind, secondBlind⟩ := Bool.or_eq_false_iff.mp blind
      constructor
      · intro matched
        obtain ⟨middle, firstMatched, secondMatched⟩ := matched
        have middleIsIn := (firstMatched.advances (isIn.extended tail)).1
        obtain ⟨position, positionIsIn, rfl⟩ :=
          exists_extended_of_matches isIn firstMatched (secondMatched.advances middleIsIn).2
        exact ⟨position, (firstIff firstBlind isIn positionIsIn).mp firstMatched,
          (secondIff secondBlind positionIsIn stopIsIn).mp secondMatched⟩
      · intro matched
        obtain ⟨middle, firstMatched, secondMatched⟩ := matched
        have middleIsIn := (firstMatched.advances isIn).1
        exact ⟨middle.extended tail, (firstIff firstBlind isIn middleIsIn).mpr firstMatched,
          (secondIff secondBlind middleIsIn stopIsIn).mpr secondMatched⟩
  | either first second firstIff secondIff =>
      obtain ⟨firstBlind, secondBlind⟩ := Bool.or_eq_false_iff.mp blind
      simp only [Matches, firstIff firstBlind isIn stopIsIn, secondIff secondBlind isIn stopIsIn]
  | repeated body least most bodyIff =>
      have rounds (count : Nat) := @rounds_extended_iff _ _ _ (bodyIff blind) count _ stop isIn
      simp only [Matches, rounds]

/-! ## Matches that end with a visible character -/

/-- Every match has a last character, and this is not a space. -/
def EndsVisibly (pattern : Pattern) : Prop :=
  ∀ ⦃before after stop⦄, pattern.Matches (between before after) stop →
    ∃ passed c rest, after = passed ++ c :: rest ∧ CharSet.spaces.contains c = false ∧
      stop = between (before ++ passed ++ [c]) rest

theorem endsVisibly_char {c : Char} (visible : CharSet.spaces.contains c = false) :
    (char c).EndsVisibly := by
  intro before after stop matched
  obtain ⟨rest, rfl, rfl⟩ := (matches_char_iff ..).mp matched
  exact ⟨[], c, rest, rfl, visible, by simp⟩

theorem EndsVisibly.sequence {second : Pattern} (visibly : second.EndsVisibly) (first : Pattern) :
    (Pattern.sequence first second).EndsVisibly := by
  intro before after stop matched
  obtain ⟨_, firstMatched, secondMatched⟩ := matched
  obtain ⟨passed, _, rfl, rfl⟩ := firstMatched.exists_middle
  obtain ⟨more, c, rest, rfl, visible, rfl⟩ := visibly secondMatched
  exact ⟨passed ++ more, c, rest, by simp, visible, by simp⟩

theorem EndsVisibly.inOrder {second : List Pattern} (visibly : (inOrder second).EndsVisibly)
    (first : List Pattern) : (inOrder (first ++ second)).EndsVisibly := by
  intro before after stop matched
  exact visibly.sequence (Pattern.inOrder first) ((matches_inOrder_append_iff ..).mp matched)

theorem endsVisibly_literal {word : Text} (nonempty : word ≠ [])
    (visible : ∀ c ∈ word, CharSet.spaces.contains c = false) : (literal word).EndsVisibly := by
  intro before after stop matched
  obtain ⟨rest, rfl, rfl⟩ := (matches_literal_iff ..).mp matched
  refine ⟨word.dropLast, word.getLast nonempty, rest, ?_, visible _ (List.getLast_mem nonempty), ?_⟩
  · rw [← List.singleton_append, ← List.append_assoc, List.dropLast_concat_getLast]
  · rw [List.append_assoc, List.dropLast_concat_getLast]

section Spaces

variable {text tail : Text} (allSpaces : ∀ c ∈ tail, CharSet.spaces.contains c = true)

include allSpaces

theorem any_isWordChar_of_spaces : tail.head?.any isWordChar = false := by
  cases tail with
  | nil => rfl
  | cons c rest =>
      have blank := Text.isBlank_of_spaces (allSpaces c List.mem_cons_self)
      exact any_isWordChar_eq_false (by simpa using Text.isIdentifierChar_of_isBlank blank)

/-- A match that ends visibly ends inside the text. -/
theorem EndsVisibly.exists_extended {pattern : Pattern} (visibly : pattern.EndsVisibly)
    {cursor stop : Cursor} (isIn : IsIn (text ++ tail) cursor) (matched : pattern.Matches cursor stop) :
    ∃ position, IsIn text position ∧ stop = position.extended tail := by
  have stopIsIn := (matched.advances isIn).1
  obtain ⟨before, after, _, rfl⟩ := isIn
  obtain ⟨passed, c, rest, _, visible, rfl⟩ := visibly matched
  apply stopIsIn.exists_extended_of_before (c := c)
  · simp
  · intro inTail
    rw [allSpaces c inTail] at visible
    exact absurd visible (by decide)

/-- A pattern occurs in a text with spaces behind it exactly if it occurs in the text. -/
theorem occursIn_append_spaces {pattern : Pattern} (blind : pattern.seesEnd = false)
    (visibly : pattern.EndsVisibly) : pattern.occursIn (text ++ tail) = pattern.occursIn text := by
  have noWord := any_isWordChar_of_spaces allSpaces
  rw [Bool.eq_iff_iff, occursIn_iff, occursIn_iff]
  constructor
  · intro occurs
    obtain ⟨cursor, stop, isIn, matched⟩ := occurs
    obtain ⟨position, positionIsIn, rfl⟩ := visibly.exists_extended allSpaces isIn matched
    have notFarther := (matched.advances isIn).2
    simp only [extended, List.length_append] at notFarther
    obtain ⟨start, startIsIn, rfl⟩ := isIn.exists_extended (by omega)
    exact ⟨start, position, startIsIn,
      (matches_extended_iff noWord blind startIsIn positionIsIn).mp matched⟩
  · intro occurs
    obtain ⟨cursor, stop, isIn, matched⟩ := occurs
    exact ⟨cursor.extended tail, stop.extended tail, isIn.extended tail,
      (matches_extended_iff noWord blind isIn (matched.advances isIn).1).mpr matched⟩

/-! ## Searching -/

theorem stops_extended {pattern : Pattern} (blind : pattern.seesEnd = false)
    (visibly : pattern.EndsVisibly) {length longer : Nat} (enough : text.length ≤ length)
    (longEnough : (text ++ tail).length ≤ longer) {cursor : Cursor} (isIn : IsIn text cursor) :
    pattern.stops longer [cursor.extended tail] = (pattern.stops length [cursor]).map (extended tail) := by
  have noWord := any_isWordChar_of_spaces allSpaces
  have longIsIn := isIn.extended tail
  have descending := (follows_stops enough pattern).descending (.singleton isIn)
  have longDescending := (follows_stops longEnough pattern).descending (.singleton longIsIn)
  have mapDescending : Descending (text ++ tail) ((pattern.stops length [cursor]).map (extended tail)) := by
    constructor
    · intro stop member
      obtain ⟨position, inStops, rfl⟩ := List.mem_map.mp member
      exact (descending.isIn position inStops).extended tail
    · exact List.pairwise_map.mpr descending.ordered
  apply longDescending.eq_of_mem_iff mapDescending
  intro stop
  rw [mem_stops_singleton_iff longEnough pattern longIsIn, List.mem_map]
  constructor
  · intro matched
    obtain ⟨position, positionIsIn, rfl⟩ := visibly.exists_extended allSpaces longIsIn matched
    have shortMatched := (matches_extended_iff noWord blind isIn positionIsIn).mp matched
    exact ⟨position, (mem_stops_singleton_iff enough pattern isIn position).mpr shortMatched, rfl⟩
  · intro member
    obtain ⟨position, inStops, rfl⟩ := member
    have matched := (mem_stops_singleton_iff enough pattern isIn position).mp inStops
    exact (matches_extended_iff noWord blind isIn (matched.advances isIn).1).mpr matched

section Search

variable {word trail : Pattern} (wordBlind : word.seesEnd = false) (wordVisibly : word.EndsVisibly)
  (trailBlind : trail.seesEnd = false) (trailVisibly : trail.EndsVisibly)

include wordBlind wordVisibly trailBlind trailVisibly

theorem hitAt?_extended {length longer : Nat} (enough : text.length ≤ length)
    (longEnough : (text ++ tail).length ≤ longer) {cursor : Cursor} (isIn : IsIn text cursor) :
    hitAt? longer word trail (cursor.extended tail) =
      (hitAt? length word trail cursor).map fun (hit, stop) => (hit, stop.extended tail) := by
  rw [hitAt?, hitAt?, stops_extended allSpaces wordBlind wordVisibly enough longEnough isIn,
    List.findSome?_map, List.map_findSome?, ← List.head?_filterMap, ← List.head?_filterMap]
  congr 1
  apply List.filterMap_congr
  intro middle inStops
  have wordMatched := (mem_stops_singleton_iff enough word isIn middle).mp inStops
  have middleIsIn := (wordMatched.advances isIn).1
  rw [Function.comp_apply, Function.comp_apply,
    stops_extended allSpaces trailBlind trailVisibly enough longEnough middleIsIn]
  cases stops : trail.stops length [middle] with
  | nil => rfl
  | cons stop others =>
      -- The trail is not empty, so the character behind the word is in the text.
      have trailMatched : trail.Matches middle stop :=
        (mem_stops_singleton_iff enough trail middleIsIn stop).mp (by rw [stops]; exact List.mem_cons_self)
      have sameHead : (middle.extended tail).after.head? = middle.after.head? := by
        obtain ⟨before, after, _, rfl⟩ := middleIsIn
        obtain ⟨passed, c, rest, rfl, _, _⟩ := trailVisibly trailMatched
        cases passed with
        | nil => rfl
        | cons first more => rfl
      simp only [List.map_cons, List.head?_cons, Option.map_some, sameHead, upTo_extended]
      rfl

omit allSpaces wordBlind trailBlind trailVisibly in
theorem length_lt_of_hitAt? {length : Nat} (enough : text.length ≤ length) {cursor stop : Cursor}
    (isIn : IsIn text cursor) {hit : Hit}
    (found : hitAt? length word trail cursor = some (hit, stop)) :
    stop.after.length < cursor.after.length := by
  obtain ⟨before, after, rfl, rfl⟩ := isIn
  obtain ⟨rest, rfl, wordMatched, trailMatched, _⟩ := hitAt?_eq_some enough found
  have middleIsIn := (wordMatched.advances (isIn_between before _)).1
  have notFarther := (trailMatched.advances middleIsIn).2
  obtain ⟨passed, c, behind, joined, _, stopEquality⟩ := wordVisibly wordMatched
  have sameRest : rest = behind := by simpa using congrArg Cursor.after stopEquality
  rw [between_after] at notFarther
  rw [between_after, joined, ← sameRest]
  simp only [List.length_append, List.length_cons]
  omega

omit wordBlind trailBlind trailVisibly in
theorem segmentsFrom_of_spaces {length : Nat} (before : Text)
    (enough : (before ++ tail).length ≤ length) :
    segmentsFrom length word trail (between before tail) = tail.map .char := by
  induction tail generalizing before with
  | nil =>
      have noHit : hitAt? length word trail (between before []) = none := by
        by_contra isHit
        obtain ⟨⟨hit, stop⟩, found⟩ := Option.ne_none_iff_exists'.mp isHit
        have shorter := length_lt_of_hitAt? wordVisibly enough (isIn_between before []) found
        exact absurd shorter (by simp)
      rw [segmentsFrom_eq, noHit, next?_between_nil]
      rfl
  | cons c rest inductionHypothesis =>
      have noHit : hitAt? length word trail (between before (c :: rest)) = none := by
        by_contra isHit
        obtain ⟨⟨hit, stop⟩, found⟩ := Option.ne_none_iff_exists'.mp isHit
        obtain ⟨_, _, wordMatched, _⟩ := hitAt?_eq_some enough found
        obtain ⟨passed, d, behind, joined, visible, _⟩ := wordVisibly wordMatched
        have inTail : d ∈ c :: rest := by simp [joined]
        rw [allSpaces d inTail] at visible
        exact absurd visible (by decide)
      rw [segmentsFrom_eq, noHit, next?_between_cons]
      simp only [List.map_cons]
      rw [inductionHypothesis (fun d member => allSpaces d (List.mem_cons_of_mem c member))
        (before ++ [c]) (by simpa using enough)]

theorem segmentsFrom_extended {length longer : Nat} (enough : text.length ≤ length)
    (longEnough : (text ++ tail).length ≤ longer) {cursor : Cursor} (isIn : IsIn text cursor) :
    segmentsFrom longer word trail (cursor.extended tail) =
      segmentsFrom length word trail cursor ++ tail.map .char := by
  have sameHit {position : Cursor} (positionIsIn : IsIn text position) :
      hitAt? longer word trail (position.extended tail) =
        (hitAt? length word trail position).map fun (hit, stop) => (hit, stop.extended tail) :=
    hitAt?_extended allSpaces wordBlind wordVisibly trailBlind trailVisibly enough longEnough positionIsIn
  fun_induction segmentsFrom length word trail cursor with
  | case1 cursor noHit atEnd =>
      obtain ⟨before, after, rfl, rfl⟩ := isIn
      cases after with
      | nil => exact segmentsFrom_of_spaces allSpaces wordVisibly before (by simpa using longEnough)
      | cons c rest => simp [next?_between_cons] at atEnd
  | case2 cursor noHit c next step inductionHypothesis =>
      rw [segmentsFrom_eq, sameHit isIn, noHit, Option.map_none, next?_extended tail step,
        List.cons_append, ← inductionHypothesis (isIn.next step)]
  | case3 cursor hit stop found shorter inductionHypothesis =>
      have stillShorter : (stop.extended tail).after.length < (cursor.extended tail).after.length := by
        simpa [extended] using shorter
      rw [segmentsFrom_eq, sameHit isIn, found, Option.map_some, List.cons_append,
        ← inductionHypothesis (isIn_stop_of_hitAt? enough isIn found)]
      exact if_pos stillShorter
  | case4 cursor hit stop found notShorter atEnd =>
      exact absurd (length_lt_of_hitAt? wordVisibly enough isIn found) notShorter
  | case5 cursor hit stop found notShorter c next step inductionHypothesis =>
      exact absurd (length_lt_of_hitAt? wordVisibly enough isIn found) notShorter

/-- A search passes over the spaces behind a text. -/
theorem segments_append_spaces :
    segments word trail (text ++ tail) = segments word trail text ++ tail.map .char :=
  segmentsFrom_extended allSpaces wordBlind wordVisibly trailBlind trailVisibly
    (Nat.le_refl _) (Nat.le_refl _) (isIn_start text)

end Search

end Spaces

/-! ## Patterns of the built-in table -/

theorem endsVisibly_wordAmong {words : List Text}
    (identifiers : ∀ word ∈ words, word.isIdentifier = true) (nonempty : words ≠ []) :
    (wordAmong words).EndsVisibly := by
  intro before after stop matched
  obtain ⟨_, word, inWords, rest, rfl, _, rfl⟩ :=
    (matches_wordAmong_iff identifiers nonempty ..).mp matched
  have visible : ∀ c ∈ word, CharSet.spaces.contains c = false := by
    intro c member
    have identifier := Text.isIdentifierChar_of_isIdentifier (identifiers word inWords) c member
    by_contra isSpace
    have blank := Text.isBlank_of_spaces (by simpa using isSpace)
    rw [Text.isBlank_of_identifier identifier] at blank
    exact absurd blank (by decide)
  exact endsVisibly_literal (Text.ne_nil_of_isIdentifier (identifiers word inWords)) visible
    ((matches_literal_iff ..).mpr ⟨rest, rfl, rfl⟩)

theorem endsVisibly_leading {mark : Char} (visible : CharSet.spaces.contains mark = false)
    (brace : Bool) (keyword : Text) : (leading brace keyword [spaces 0, char mark]).EndsVisibly := by
  have trailVisibly : (inOrder [spaces 0, char mark]).EndsVisibly :=
    (endsVisibly_char visible).sequence (spaces 0)
  exact ((trailVisibly.inOrder (keyword.map char)).inOrder _).inOrder _

private theorem rounds_of_run {accepted : CharSet} {run : Text}
    (inSet : ∀ c ∈ run, accepted.contains c = true) (before rest : Text) :
    Rounds (Matches (.one accepted)) run.length (between before (run ++ rest))
      (between (before ++ run) rest) := by
  induction run generalizing before with
  | nil => simp [Rounds]
  | cons c more inductionHypothesis =>
      refine ⟨between (before ++ [c]) (more ++ rest), ?_, ?_⟩
      · rw [Matches, List.cons_append, past?_between_cons, if_pos (inSet c List.mem_cons_self)]
      · have others := inductionHypothesis (fun d member => inSet d (List.mem_cons_of_mem c member))
          (before ++ [c])
        rwa [List.append_assoc, List.singleton_append] at others

theorem matches_spaces_iff (least : Nat) (before after : Text) (stop : Cursor) :
    (spaces least).Matches (between before after) stop ↔
      ∃ run rest, after = run ++ rest ∧ (∀ c ∈ run, CharSet.spaces.contains c = true) ∧
        least ≤ run.length ∧ stop = between (before ++ run) rest := by
  constructor
  · exact exists_run_of_matches_repeated
  · intro isRun
    obtain ⟨run, rest, rfl, inSet, long, rfl⟩ := isRun
    refine ⟨run.length - least, by simp, ?_⟩
    rw [Nat.add_sub_cancel' long]
    exact rounds_of_run inSet before rest

/-- A keyword at the start of the code with a space behind it. -/
theorem occursIn_leading_space_iff (keyword text : Text) :
    (leading false keyword [spaces 1]).occursIn text = true ↔
      ∃ lead rest, text = lead ++ (keyword ++ rest) ∧
        (∀ c ∈ lead, CharSet.spaces.contains c = true) ∧
        rest.head?.any CharSet.spaces.contains = true := by
  have parts : (leading false keyword [spaces 1]) =
      inOrder ([.anchor .textStart, spaces 0] ++ (keyword.map char ++ [spaces 1])) := rfl
  simp only [occursIn_iff, parts, matches_inOrder_append_iff, matches_inOrder_cons_iff]
  constructor
  · intro occurs
    obtain ⟨_, stop, ⟨before, after, rfl, rfl⟩, _, ⟨_, ⟨rfl, atStart⟩, _, leadMatched, rfl⟩, _,
      keywordMatched, _, spaceMatched, _⟩ := occurs
    obtain rfl : before = [] := by simpa [meets] using atStart
    obtain ⟨lead, _, rfl, leadSpaces, _, rfl⟩ := (matches_spaces_iff ..).mp leadMatched
    obtain ⟨rest, rfl, rfl⟩ := (matches_literal_iff ..).mp keywordMatched
    obtain ⟨run, others, rfl, runSpaces, long, _⟩ := (matches_spaces_iff ..).mp spaceMatched
    refine ⟨lead, run ++ others, rfl, leadSpaces, ?_⟩
    cases run with
    | nil => simp at long
    | cons c more => exact runSpaces c List.mem_cons_self
  · intro standing
    obtain ⟨lead, rest, rfl, leadSpaces, behind⟩ := standing
    cases rest with
    | nil => simp at behind
    | cons c others =>
        have spaceBehind : (spaces 1).Matches (between ([] ++ lead ++ keyword) (c :: others))
            (between ([] ++ lead ++ keyword ++ [c]) others) :=
          (matches_spaces_iff ..).mpr ⟨[c], others, rfl, by simpa using behind, Nat.le_refl 1, rfl⟩
        have leadMatched : (spaces 0).Matches (between [] (lead ++ (keyword ++ c :: others)))
            (between ([] ++ lead) (keyword ++ c :: others)) :=
          (matches_spaces_iff ..).mpr ⟨lead, _, rfl, leadSpaces, Nat.zero_le _, rfl⟩
        exact ⟨_, _, isIn_start _, _, ⟨_, ⟨rfl, rfl⟩, _, leadMatched, rfl⟩, _,
          (matches_literal_iff ..).mpr ⟨_, rfl, rfl⟩, _, spaceBehind, rfl⟩

/-- Spaces behind the text count only if the keyword is the end of the text. -/
theorem occursIn_leading_space_append_iff {keyword text tail : Text} (nonempty : keyword ≠ [])
    (visible : ∀ c ∈ keyword, CharSet.spaces.contains c = false)
    (allSpaces : ∀ c ∈ tail, CharSet.spaces.contains c = true) :
    (leading false keyword [spaces 1]).occursIn (text ++ tail) = true ↔
      (leading false keyword [spaces 1]).occursIn text = true ∨
        tail ≠ [] ∧ ∃ lead, (∀ c ∈ lead, CharSet.spaces.contains c = true) ∧ text = lead ++ keyword := by
  rw [occursIn_leading_space_iff, occursIn_leading_space_iff]
  constructor
  · intro standing
    obtain ⟨lead, rest, joined, leadSpaces, behind⟩ := standing
    rw [← List.append_assoc] at joined
    obtain ⟨more, whole, tailSplit⟩ | ⟨more, whole, restSplit⟩ := List.append_eq_append_iff.mp joined
    · by_cases nothing : more = []
      · subst nothing tailSplit
        refine .inr ⟨?_, lead, leadSpaces, by simpa using whole.symm⟩
        intro empty
        simp_all
      · -- the last character of the keyword would be a space
        have keywordLast : (lead ++ keyword).getLast? = some (keyword.getLast nonempty) := by
          rw [List.getLast?_append, List.getLast?_eq_some_getLast nonempty, Option.some_or]
        have moreLast : (text ++ more).getLast? = some (more.getLast nothing) := by
          rw [List.getLast?_append, List.getLast?_eq_some_getLast nothing, Option.some_or]
        have last := visible _ (List.getLast_mem nonempty)
        rw [whole, moreLast, Option.some.injEq] at keywordLast
        rw [← keywordLast, allSpaces _ (tailSplit ▸ List.mem_append_left rest (List.getLast_mem nothing))] at last
        exact absurd last (by decide)
    · cases more with
      | nil =>
          refine .inr ⟨?_, lead, leadSpaces, by simpa using whole⟩
          intro empty
          simp_all
      | cons c others =>
          subst restSplit
          exact .inl ⟨lead, c :: others, by rw [whole, List.append_assoc], leadSpaces, behind⟩
  · intro standing
    obtain ⟨lead, rest, rfl, leadSpaces, behind⟩ | ⟨someSpace, lead, leadSpaces, rfl⟩ := standing
    · refine ⟨lead, rest ++ tail, by simp, leadSpaces, ?_⟩
      cases rest with
      | nil => simp at behind
      | cons c others => exact behind
    · refine ⟨lead, tail, by simp, leadSpaces, ?_⟩
      cases tail with
      | nil => exact absurd rfl someSpace
      | cons c others => exact allSpaces c List.mem_cons_self

end Pattern

end Dialect
