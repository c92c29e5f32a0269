import Dialect.Proofs.Positions

/-!
# What a pattern matches

`Pattern.Matches` says, pattern by pattern, from which position to which a pattern matches.
`Pattern.stops` works on lists of positions, and cuts repetitions short when a round finds nothing new;
`Pattern.mem_stops_iff` says that it still finds exactly the positions at which a match can stop.
-/

namespace Dialect

namespace Cursor

/-- So many steps of a relation, one after the other. -/
def Rounds (relation : Cursor → Cursor → Prop) : Nat → Cursor → Cursor → Prop
  | 0, cursor, stop => cursor = stop
  | count + 1, cursor, stop => ∃ middle, relation cursor middle ∧ Rounds relation count middle stop

theorem rounds_add_iff {relation : Cursor → Cursor → Prop} (first second : Nat)
    (cursor stop : Cursor) :
    Rounds relation (first + second) cursor stop ↔
      ∃ middle, Rounds relation first cursor middle ∧ Rounds relation second middle stop := by
  induction first generalizing cursor with
  | zero => simp [Rounds]
  | succ count inductionHypothesis =>
      rw [Nat.add_right_comm]
      simp only [Rounds, inductionHypothesis]
      constructor
      · rintro ⟨next, step, middle, before, after⟩
        exact ⟨middle, ⟨next, step, before⟩, after⟩
      · rintro ⟨middle, ⟨next, step, before⟩, after⟩
        exact ⟨next, step, middle, before, after⟩

/-! ## Steps on lists of positions -/

/-- A step on lists of positions of a text that follows a relation between positions. -/
structure Follows (text : Text) (step : List Cursor → List Cursor)
    (relation : Cursor → Cursor → Prop) : Prop where
  descending : ∀ {cursors}, Descending text cursors → Descending text (step cursors)
  mem_iff : ∀ {cursors}, Descending text cursors → ∀ stop,
    stop ∈ step cursors ↔ ∃ cursor ∈ cursors, relation cursor stop

namespace Follows

variable {text : Text} {step : List Cursor → List Cursor} {relation : Cursor → Cursor → Prop}

private theorem mem_iff_rounds_of_fixed (follows : Follows text step relation)
    {cursors : List Cursor} (descending : Descending text cursors) (fixed : step cursors = cursors)
    (count : Nat) (stop : Cursor) :
    stop ∈ cursors ↔ ∃ cursor ∈ cursors, Rounds relation count cursor stop := by
  induction count generalizing stop with
  | zero => simp [Rounds]
  | succ count inductionHypothesis =>
      have again : stop ∈ cursors ↔ ∃ cursor ∈ cursors, relation cursor stop := by
        rw [← follows.mem_iff descending, fixed]
      rw [inductionHypothesis]
      constructor
      · rintro ⟨middle, inCursors, rounds⟩
        have fromStep : middle ∈ step cursors := by rwa [fixed]
        obtain ⟨cursor, inCursors, first⟩ := (follows.mem_iff descending middle).mp fromStep
        exact ⟨cursor, inCursors, middle, first, rounds⟩
      · rintro ⟨cursor, inCursors, middle, first, rounds⟩
        have fromStep : middle ∈ step cursors :=
          (follows.mem_iff descending middle).mpr ⟨cursor, inCursors, first⟩
        rw [fixed] at fromStep
        exact ⟨middle, fromStep, rounds⟩

/-- Repeating a step follows the repeated relation; a round that changes nothing can be the last. -/
theorem afterRounds (follows : Follows text step relation) (count : Nat) :
    Follows text (afterRounds step count) (Rounds relation count) := by
  induction count with
  | zero => exact ⟨fun descending => descending, by simp [Cursor.afterRounds, Rounds]⟩
  | succ count inductionHypothesis =>
      constructor
      · intro cursors descending
        rw [Cursor.afterRounds]
        split
        · exact descending
        · exact inductionHypothesis.descending (follows.descending descending)
      · intro cursors descending stop
        rw [Cursor.afterRounds]
        split
        next same =>
          have fixed : step cursors = cursors :=
            eq_of_samePlaces (follows.descending descending).isIn descending.isIn same
          exact follows.mem_iff_rounds_of_fixed descending fixed (count + 1) stop
        next =>
          rw [inductionHypothesis.mem_iff (follows.descending descending)]
          constructor
          · rintro ⟨middle, fromStep, rounds⟩
            obtain ⟨cursor, inCursors, first⟩ := (follows.mem_iff descending middle).mp fromStep
            exact ⟨cursor, inCursors, middle, first, rounds⟩
          · rintro ⟨cursor, inCursors, middle, first, rounds⟩
            exact ⟨middle, (follows.mem_iff descending middle).mpr ⟨cursor, inCursors, first⟩, rounds⟩

/-! ## Spreading -/

/-- Rounds that start in a set leave it at most once if every step out of it ends in `found`. -/
private theorem rounds_from_reached {found reached : List Cursor} {stop : Cursor}
    (next : ∀ cursor ∈ reached, ∀ middle, relation cursor middle → middle ∈ found ∨ middle ∈ reached)
    {count : Nat} {cursor : Cursor} (inReached : cursor ∈ reached)
    (rounds : Rounds relation count cursor stop) :
    stop ∈ reached ∨ ∃ fewer ≤ count, ∃ middle ∈ found, Rounds relation fewer middle stop := by
  induction count generalizing cursor with
  | zero =>
      rw [Rounds] at rounds
      exact Or.inl (rounds ▸ inReached)
  | succ count inductionHypothesis =>
      obtain ⟨middle, first, others⟩ := rounds
      rcases next cursor inReached middle first with inFound | stillReached
      · exact Or.inr ⟨count, Nat.le_succ count, middle, inFound, others⟩
      · rcases inductionHypothesis stillReached others with already | ⟨fewer, bound, rest⟩
        · exact Or.inl already
        · exact Or.inr ⟨fewer, Nat.le_succ_of_le bound, rest⟩

/-- One round of spreading: the first of some rounds from a fresh position ends at a position that has
been reached or that is found now. -/
private theorem rounds_succ_iff {fresh found reached : List Cursor} {stop : Cursor} {count : Nat}
    (freshReached : ∀ cursor ∈ fresh, cursor ∈ reached)
    (foundFrom : ∀ middle ∈ found, ∃ cursor ∈ fresh, relation cursor middle)
    (next : ∀ cursor ∈ reached, ∀ middle, relation cursor middle → middle ∈ found ∨ middle ∈ reached) :
    ((stop ∈ found ∨ stop ∈ reached) ∨
        ∃ rounds ≤ count, ∃ middle ∈ found, Rounds relation rounds middle stop) ↔
      stop ∈ reached ∨ ∃ rounds ≤ count + 1, ∃ cursor ∈ fresh, Rounds relation rounds cursor stop := by
  constructor
  · rintro ((inFound | inReached) | ⟨rounds, bound, middle, inFound, path⟩)
    · obtain ⟨cursor, inFresh, first⟩ := foundFrom stop inFound
      exact Or.inr ⟨1, by omega, cursor, inFresh, stop, first, rfl⟩
    · exact Or.inl inReached
    · obtain ⟨cursor, inFresh, first⟩ := foundFrom middle inFound
      exact Or.inr ⟨rounds + 1, by omega, cursor, inFresh, middle, first, path⟩
  · rintro (inReached | ⟨rounds, bound, cursor, inFresh, path⟩)
    · exact Or.inl (Or.inr inReached)
    · cases rounds with
      | zero => exact Or.inl (Or.inr ((show cursor = stop from path) ▸ freshReached cursor inFresh))
      | succ rounds =>
          obtain ⟨middle, first, others⟩ := path
          rcases next cursor (freshReached cursor inFresh) middle first with inFound | inReached
          · exact Or.inr ⟨rounds, by omega, middle, inFound, others⟩
          · rcases rounds_from_reached next inReached others with
              already | ⟨fewer, fewerBound, rest⟩
            · exact Or.inl (Or.inr already)
            · exact Or.inr ⟨fewer, by omega, rest⟩

/-- Spreading adds what at most so many rounds reach. The positions that are not fresh have been
looked at before: their next positions have been reached. -/
theorem mem_spread_iff (follows : Follows text step relation) (count : Nat)
    {fresh reached : List Cursor} (freshDescending : Descending text fresh)
    (reachedDescending : Descending text reached) (freshReached : ∀ cursor ∈ fresh, cursor ∈ reached)
    (lookedAt : ∀ cursor ∈ reached, cursor ∉ fresh → ∀ middle, relation cursor middle → middle ∈ reached) :
    Descending text (spread step count fresh reached) ∧
      ∀ stop, stop ∈ spread step count fresh reached ↔
        stop ∈ reached ∨ ∃ rounds ≤ count, ∃ cursor ∈ fresh, Rounds relation rounds cursor stop := by
  induction count generalizing fresh reached with
  | zero =>
      refine ⟨reachedDescending, fun stop => ⟨Or.inl, ?_⟩⟩
      rintro (inReached | ⟨rounds, bound, cursor, inFresh, path⟩)
      · exact inReached
      · obtain rfl : rounds = 0 := Nat.le_zero.mp bound
        exact (show cursor = stop from path) ▸ freshReached cursor inFresh
  | succ count inductionHypothesis =>
      rw [spread]
      have stepDescending := follows.descending freshDescending
      have memFound (middle : Cursor) :
          middle ∈ Cursor.without (step fresh) reached ↔
            (∃ cursor ∈ fresh, relation cursor middle) ∧ middle ∉ reached := by
        rw [mem_without_iff stepDescending reachedDescending, follows.mem_iff freshDescending]
      have next : ∀ cursor ∈ reached, ∀ middle, relation cursor middle →
          middle ∈ Cursor.without (step fresh) reached ∨ middle ∈ reached := by
        intro cursor inReached middle first
        by_cases already : middle ∈ reached
        · exact Or.inr already
        · by_cases inFresh : cursor ∈ fresh
          · exact Or.inl ((memFound middle).mpr ⟨⟨cursor, inFresh, first⟩, already⟩)
          · exact Or.inr (lookedAt cursor inReached inFresh middle first)
      have oneRound (stop : Cursor) := @rounds_succ_iff _ _ _ _ stop count freshReached
        (fun middle inFound => ((memFound middle).mp inFound).1) next
      split
      next empty =>
        have nothingFound : Cursor.without (step fresh) reached = [] := List.isEmpty_iff.mp empty
        refine ⟨reachedDescending, fun stop => ?_⟩
        rw [← oneRound, nothingFound]
        simp
      next =>
        have foundDescending := stepDescending.without reached
        have memMerged (cursor : Cursor) :
            cursor ∈ Cursor.merge (Cursor.without (step fresh) reached) reached ↔
              cursor ∈ Cursor.without (step fresh) reached ∨ cursor ∈ reached :=
          mem_merge_iff foundDescending.isIn reachedDescending.isIn
        obtain ⟨descending, memIff⟩ := inductionHypothesis foundDescending
          (foundDescending.merge reachedDescending)
          (fun cursor inFound => (memMerged cursor).mpr (Or.inl inFound))
          (fun cursor inMerged notFound middle first => by
            rcases (memMerged cursor).mp inMerged with inFound | inReached
            · exact absurd inFound notFound
            · exact (memMerged middle).mpr (next cursor inReached middle first))
        refine ⟨descending, fun stop => ?_⟩
        rw [memIff, memMerged, oneRound]

end Follows

/-- Rounds that do not get ahead can be left out, so no more are needed than characters are passed. -/
theorem Rounds.shorten {text : Text} {relation : Cursor → Cursor → Prop}
    (advances : ∀ {cursor stop}, IsIn text cursor → relation cursor stop →
      IsIn text stop ∧ stop.after.length ≤ cursor.after.length)
    {count : Nat} {cursor stop : Cursor} (isIn : IsIn text cursor)
    (rounds : Rounds relation count cursor stop) :
    ∃ fewer, fewer + stop.after.length ≤ cursor.after.length ∧
      Rounds relation fewer cursor stop := by
  induction count generalizing cursor with
  | zero =>
      rw [Rounds] at rounds
      exact ⟨0, by rw [rounds]; omega, rounds⟩
  | succ count inductionHypothesis =>
      obtain ⟨middle, first, others⟩ := rounds
      obtain ⟨middleIsIn, notFarther⟩ := advances isIn first
      obtain ⟨fewer, bound, path⟩ := inductionHypothesis middleIsIn others
      by_cases stays : middle.after.length = cursor.after.length
      · rw [middleIsIn.eq_of_length_eq isIn stays] at path
        exact ⟨fewer, by omega, path⟩
      · exact ⟨fewer + 1, by omega, middle, first, path⟩

theorem IsIn.length_le {text : Text} {cursor : Cursor} (isIn : IsIn text cursor) :
    cursor.after.length ≤ text.length := by
  obtain ⟨before, after, rfl, rfl⟩ := isIn
  simp

theorem IsIn.past? {text : Text} {accepted : CharSet} {cursor stop : Cursor}
    (isIn : IsIn text cursor) (passed : cursor.past? accepted = some stop) :
    IsIn text stop ∧ cursor.after.length = stop.after.length + 1 := by
  obtain ⟨before, after, rfl, rfl⟩ := isIn
  cases after with
  | nil => simp [past?_between_nil] at passed
  | cons c rest =>
      rw [past?_between_cons] at passed
      split at passed
      next =>
        simp only [Option.some.injEq] at passed
        subst passed
        exact ⟨⟨before ++ [c], rest, by simp, rfl⟩, by simp⟩
      next => simp at passed

end Cursor

namespace Pattern

open Cursor

/-- From which position to which a pattern matches. -/
def Matches : Pattern → Cursor → Cursor → Prop
  | .empty, cursor, stop => cursor = stop
  | .one accepted, cursor, stop => cursor.past? accepted = some stop
  | .anchor condition, cursor, stop => cursor = stop ∧ cursor.meets condition = true
  | .sequence first second, cursor, stop =>
      ∃ middle, first.Matches cursor middle ∧ second.Matches middle stop
  | .either first second, cursor, stop => first.Matches cursor stop ∨ second.Matches cursor stop
  | .repeated body least most, cursor, stop =>
      ∃ extra, (∀ bound ∈ most, extra ≤ bound - least) ∧
        Rounds body.Matches (least + extra) cursor stop

theorem rounds_advances {text : Text} {relation : Cursor → Cursor → Prop}
    (advances : ∀ {cursor stop}, IsIn text cursor → relation cursor stop →
      IsIn text stop ∧ stop.after.length ≤ cursor.after.length)
    {count : Nat} {cursor stop : Cursor} (isIn : IsIn text cursor)
    (rounds : Rounds relation count cursor stop) :
    IsIn text stop ∧ stop.after.length ≤ cursor.after.length := by
  induction count generalizing cursor with
  | zero =>
      rw [Rounds] at rounds
      exact rounds ▸ ⟨isIn, Nat.le_refl _⟩
  | succ count inductionHypothesis =>
      obtain ⟨middle, first, others⟩ := rounds
      obtain ⟨middleIsIn, bound⟩ := advances isIn first
      obtain ⟨stopIsIn, laterBound⟩ := inductionHypothesis middleIsIn others
      exact ⟨stopIsIn, Nat.le_trans laterBound bound⟩

/-- A match stops at a position of the same text, never before its start. -/
theorem Matches.advances {text : Text} {pattern : Pattern} {cursor stop : Cursor}
    (isIn : IsIn text cursor) (matched : pattern.Matches cursor stop) :
    IsIn text stop ∧ stop.after.length ≤ cursor.after.length := by
  induction pattern generalizing cursor stop with
  | empty =>
      rw [Matches] at matched
      exact matched ▸ ⟨isIn, Nat.le_refl _⟩
  | one accepted =>
      obtain ⟨stopIsIn, longer⟩ := isIn.past? matched
      exact ⟨stopIsIn, by omega⟩
  | anchor condition => exact matched.1 ▸ ⟨isIn, Nat.le_refl _⟩
  | sequence first second firstAdvances secondAdvances =>
      obtain ⟨middle, firstMatched, secondMatched⟩ := matched
      obtain ⟨middleIsIn, bound⟩ := firstAdvances isIn firstMatched
      obtain ⟨stopIsIn, laterBound⟩ := secondAdvances middleIsIn secondMatched
      exact ⟨stopIsIn, Nat.le_trans laterBound bound⟩
  | either first second firstAdvances secondAdvances =>
      rcases matched with firstMatched | secondMatched
      · exact firstAdvances isIn firstMatched
      · exact secondAdvances isIn secondMatched
  | repeated body least most bodyAdvances =>
      obtain ⟨extra, _, rounds⟩ := matched
      exact rounds_advances bodyAdvances isIn rounds

private theorem follows_one (text : Text) (accepted : CharSet) :
    Follows text (fun cursors => cursors.filterMap (past? accepted)) (Matches (.one accepted)) := by
  constructor
  · intro cursors descending
    constructor
    · intro stop member
      obtain ⟨cursor, inCursors, passed⟩ := List.mem_filterMap.mp member
      exact ((descending.isIn cursor inCursors).past? passed).1
    · refine List.pairwise_filterMap.mpr (descending.ordered.imp_of_mem ?_)
      intro cursor other inCursors otherInCursors farther stop passed otherStop otherPassed
      have isIn := descending.isIn cursor inCursors
      have otherIsIn := descending.isIn other otherInCursors
      obtain ⟨stopIsIn, longer⟩ := isIn.past? passed
      obtain ⟨otherStopIsIn, otherLonger⟩ := otherIsIn.past? otherPassed
      rw [otherIsIn.offset_lt_iff isIn] at farther
      rw [otherStopIsIn.offset_lt_iff stopIsIn]
      omega
  · intro cursors _ stop
    rw [List.mem_filterMap]
    rfl

private theorem follows_anchor (text : Text) (condition : Anchor) :
    Follows text (fun cursors => cursors.filter fun cursor => cursor.meets condition)
      (Matches (.anchor condition)) := by
  refine ⟨fun descending => descending.filter _, fun _ stop => ?_⟩
  rw [List.mem_filter]
  constructor
  · rintro ⟨inCursors, met⟩
    exact ⟨stop, inCursors, rfl, met⟩
  · rintro ⟨cursor, inCursors, rfl, met⟩
    exact ⟨inCursors, met⟩

private theorem follows_repeated {text : Text} {length : Nat} (enough : text.length ≤ length)
    {body : Pattern} (follows : Follows text (body.stops length) body.Matches)
    (least : Nat) (most : Option Nat) :
    Follows text (Pattern.stops length (.repeated body least most))
      (Matches (.repeated body least most)) := by
  have reachedFollows := follows.afterRounds least
  have spreads {cursors : List Cursor} (descending : Descending text cursors) :=
    follows.mem_spread_iff (most.elim length (· - least))
      (reachedFollows.descending descending) (reachedFollows.descending descending)
      (fun _ member => member) (fun _ member absent => absurd member absent)
  refine ⟨fun descending => (spreads descending).1, fun {cursors} descending stop => ?_⟩
  rw [Pattern.stops, (spreads descending).2]
  constructor
  · rintro (inReached | ⟨extra, bound, middle, inReached, path⟩)
    · obtain ⟨cursor, inCursors, rounds⟩ := (reachedFollows.mem_iff descending stop).mp inReached
      exact ⟨cursor, inCursors, 0, by simp, rounds⟩
    · obtain ⟨cursor, inCursors, rounds⟩ := (reachedFollows.mem_iff descending middle).mp inReached
      refine ⟨cursor, inCursors, extra, ?_, (rounds_add_iff ..).mpr ⟨middle, rounds, path⟩⟩
      rintro greatest rfl
      exact bound
  · rintro ⟨cursor, inCursors, extra, bound, rounds⟩
    obtain ⟨middle, before, path⟩ := (rounds_add_iff ..).mp rounds
    have inReached := (reachedFollows.mem_iff descending middle).mpr ⟨cursor, inCursors, before⟩
    have middleIsIn := (reachedFollows.descending descending).isIn middle inReached
    cases most with
    | some greatest => exact Or.inr ⟨extra, bound greatest rfl, middle, inReached, path⟩
    | none =>
        -- Without a greatest number, rounds that do not get ahead are left out.
        obtain ⟨fewer, few, shorter⟩ := path.shorten Matches.advances middleIsIn
        have := middleIsIn.length_le
        exact Or.inr ⟨fewer, by simp only [Option.elim_none]; omega, middle, inReached, shorter⟩

/-- Looking for stops on lists of positions follows the matches of a pattern. -/
theorem follows_stops {text : Text} {length : Nat} (enough : text.length ≤ length)
    (pattern : Pattern) : Follows text (pattern.stops length) pattern.Matches := by
  induction pattern with
  | empty => exact ⟨fun descending => descending, fun _ stop => by simp [Pattern.stops, Matches]⟩
  | one accepted => exact follows_one text accepted
  | anchor condition => exact follows_anchor text condition
  | sequence first second firstFollows secondFollows =>
      refine ⟨fun descending => secondFollows.descending (firstFollows.descending descending),
        fun {cursors} descending stop => ?_⟩
      rw [Pattern.stops, secondFollows.mem_iff (firstFollows.descending descending)]
      constructor
      · rintro ⟨middle, inMiddle, matched⟩
        obtain ⟨cursor, inCursors, before⟩ := (firstFollows.mem_iff descending middle).mp inMiddle
        exact ⟨cursor, inCursors, middle, before, matched⟩
      · rintro ⟨cursor, inCursors, middle, before, matched⟩
        exact ⟨middle, (firstFollows.mem_iff descending middle).mpr ⟨cursor, inCursors, before⟩, matched⟩
  | either first second firstFollows secondFollows =>
      refine ⟨fun descending =>
        (firstFollows.descending descending).merge (secondFollows.descending descending),
        fun {cursors} descending stop => ?_⟩
      rw [Pattern.stops, mem_merge_iff (firstFollows.descending descending).isIn
        (secondFollows.descending descending).isIn, firstFollows.mem_iff descending,
        secondFollows.mem_iff descending]
      constructor
      · rintro (⟨cursor, inCursors, matched⟩ | ⟨cursor, inCursors, matched⟩)
        · exact ⟨cursor, inCursors, Or.inl matched⟩
        · exact ⟨cursor, inCursors, Or.inr matched⟩
      · rintro ⟨cursor, inCursors, matched | matched⟩
        · exact Or.inl ⟨cursor, inCursors, matched⟩
        · exact Or.inr ⟨cursor, inCursors, matched⟩
  | repeated body least most follows => exact follows_repeated enough follows least most

/-- The stops from one position are the positions to which the pattern matches from there. -/
theorem mem_stops_singleton_iff {text : Text} {length : Nat} (enough : text.length ≤ length)
    (pattern : Pattern) {cursor : Cursor} (isIn : IsIn text cursor) (stop : Cursor) :
    stop ∈ pattern.stops length [cursor] ↔ pattern.Matches cursor stop := by
  rw [(follows_stops enough pattern).mem_iff (.singleton isIn)]
  simp

/-- A pattern occurs in a text exactly when it matches from some position of the text. -/
theorem occursIn_iff (pattern : Pattern) (text : Text) :
    pattern.occursIn text = true ↔
      ∃ cursor stop, IsIn text cursor ∧ pattern.Matches cursor stop := by
  have memIff := (follows_stops (Nat.le_refl text.length) pattern).mem_iff (descending_positions text)
  rw [occursIn, Bool.not_eq_true', List.isEmpty_eq_false_iff_exists_mem]
  simp only [memIff, mem_positions_iff]
  constructor
  · rintro ⟨stop, cursor, isIn, matched⟩
    exact ⟨cursor, stop, isIn, matched⟩
  · rintro ⟨cursor, stop, isIn, matched⟩
    exact ⟨stop, cursor, isIn, matched⟩

/-! ## Matches of the patterns that tables are made of -/

theorem matches_inOrder_cons_iff (pattern : Pattern) (others : List Pattern)
    (cursor stop : Cursor) :
    (inOrder (pattern :: others)).Matches cursor stop ↔
      ∃ middle, pattern.Matches cursor middle ∧ (inOrder others).Matches middle stop := by
  cases others with
  | nil =>
      rw [inOrder]
      constructor
      · intro matched
        exact ⟨stop, matched, rfl⟩
      · rintro ⟨middle, matched, rest⟩
        exact (show middle = stop from rest) ▸ matched
  | cons second more => rfl

theorem matches_inOrder_append_iff (first second : List Pattern) (cursor stop : Cursor) :
    (inOrder (first ++ second)).Matches cursor stop ↔
      ∃ middle, (inOrder first).Matches cursor middle ∧ (inOrder second).Matches middle stop := by
  induction first generalizing cursor with
  | nil =>
      constructor
      · intro matched
        exact ⟨cursor, rfl, matched⟩
      · rintro ⟨middle, before, matched⟩
        exact (show cursor = middle from before) ▸ matched
  | cons pattern others inductionHypothesis =>
      simp only [List.cons_append, matches_inOrder_cons_iff, inductionHypothesis]
      constructor
      · rintro ⟨next, head, middle, before, after⟩
        exact ⟨middle, ⟨next, head, before⟩, after⟩
      · rintro ⟨middle, ⟨next, head, before⟩, after⟩
        exact ⟨next, head, middle, before, after⟩

theorem matches_oneOf_iff {patterns : List Pattern} (nonempty : patterns ≠ [])
    (cursor stop : Cursor) :
    (oneOf patterns).Matches cursor stop ↔ ∃ pattern ∈ patterns, pattern.Matches cursor stop := by
  induction patterns with
  | nil => exact absurd rfl nonempty
  | cons pattern others inductionHypothesis =>
      cases others with
      | nil => simp [oneOf]
      | cons second more =>
          have choice : (oneOf (pattern :: second :: more)).Matches cursor stop ↔
              pattern.Matches cursor stop ∨ (oneOf (second :: more)).Matches cursor stop := Iff.rfl
          rw [choice, inductionHypothesis (by simp)]
          simp

theorem matches_char_iff (c : Char) (before after : Text) (stop : Cursor) :
    (char c).Matches (between before after) stop ↔
      ∃ rest, after = c :: rest ∧ stop = between (before ++ [c]) rest := by
  rw [char, Matches]
  cases after with
  | nil => simp [past?_between_nil]
  | cons first rest =>
      rw [past?_between_cons, CharSet.contains_single]
      by_cases same : first = c
      · simp [same, eq_comm]
      · simp [same]

theorem matches_literal_iff (word before after : Text) (stop : Cursor) :
    (literal word).Matches (between before after) stop ↔
      ∃ rest, after = word ++ rest ∧ stop = between (before ++ word) rest := by
  rw [literal]
  induction word generalizing before after with
  | nil => simp [inOrder, Matches, eq_comm]
  | cons c word inductionHypothesis =>
      rw [List.map_cons, matches_inOrder_cons_iff]
      constructor
      · rintro ⟨middle, head, others⟩
        obtain ⟨rest, rfl, rfl⟩ := (matches_char_iff ..).mp head
        obtain ⟨rest, rfl, rfl⟩ := (inductionHypothesis ..).mp others
        exact ⟨rest, rfl, by simp⟩
      · rintro ⟨rest, rfl, rfl⟩
        refine ⟨between (before ++ [c]) (word ++ rest), ?_, ?_⟩
        · exact (matches_char_iff ..).mpr ⟨word ++ rest, rfl, rfl⟩
        · exact (inductionHypothesis ..).mpr ⟨rest, rfl, by simp⟩

theorem exists_run_of_rounds {accepted : CharSet} {count : Nat} {before after : Text} {stop : Cursor}
    (rounds : Rounds (Matches (.one accepted)) count (between before after) stop) :
    ∃ run rest, after = run ++ rest ∧ (∀ c ∈ run, accepted.contains c = true) ∧
      run.length = count ∧ stop = between (before ++ run) rest := by
  induction count generalizing before after with
  | zero => exact ⟨[], after, rfl, by simp, rfl, by rw [List.append_nil]; exact rounds.symm⟩
  | succ count inductionHypothesis =>
      obtain ⟨middle, passed, later⟩ := rounds
      rw [Matches] at passed
      cases after with
      | nil => simp [past?_between_nil] at passed
      | cons c rest =>
          rw [past?_between_cons] at passed
          split at passed
          next inSet =>
            obtain rfl := Option.some.inj passed
            obtain ⟨run, others, rfl, allInSet, length, rfl⟩ := inductionHypothesis later
            refine ⟨c :: run, others, rfl, ?_, by rw [List.length_cons, length], ?_⟩
            · intro d member
              rcases List.mem_cons.mp member with equality | inRun
              · rw [equality]
                exact inSet
              · exact allInSet d inRun
            · rw [List.append_assoc, List.singleton_append]
          next => simp at passed

theorem exists_run_of_matches_repeated {accepted : CharSet} {least : Nat} {most : Option Nat}
    {before after : Text} {stop : Cursor}
    (matched : Matches (.repeated (.one accepted) least most) (between before after) stop) :
    ∃ run rest, after = run ++ rest ∧ (∀ c ∈ run, accepted.contains c = true) ∧
      least ≤ run.length ∧ stop = between (before ++ run) rest := by
  obtain ⟨extra, _, rounds⟩ := matched
  obtain ⟨run, rest, afterEquality, inSet, length, stopEquality⟩ := exists_run_of_rounds rounds
  exact ⟨run, rest, afterEquality, inSet, by omega, stopEquality⟩

end Pattern

end Dialect
