import Dialect.Pattern.Search
import Dialect.Proofs.Characters
import Dialect.Proofs.Matching

/-!
# What a search finds

Every hit of a search is a part of the text, at the offset and between the neighbours that the hit
names. When the words looked for are identifiers and word boundaries are asked for on both sides, at
most one word can be found at a position: the run of word characters that starts there.
-/

namespace Dialect

namespace Hit

/-- A hit says truly what stands at its offset and beside it. -/
def IsIn (text : Text) (hit : Hit) : Prop :=
  ∃ before after, text = before ++ hit.word ++ after ∧ hit.offset = before.bytes ∧
    hit.before = before.getLast? ∧ hit.after = after.head?

end Hit

theorem Segment.mem_hits_iff {segments : List Segment} {hit : Hit} :
    hit ∈ segments.filterMap hit? ↔ .found hit ∈ segments := by
  rw [List.mem_filterMap]
  constructor
  · rintro ⟨segment, member, isHit⟩
    cases segment with
    | char c => simp [hit?] at isHit
    | found other =>
        obtain rfl := Option.some.inj isHit
        exact member
  · intro member
    exact ⟨.found hit, member, rfl⟩

namespace Pattern

open Cursor

/-- A match covers the text between its two positions. -/
theorem Matches.exists_middle {pattern : Pattern} {before after : Text} {stop : Cursor}
    (matched : pattern.Matches (between before after) stop) :
    ∃ middle rest, after = middle ++ rest ∧ stop = between (before ++ middle) rest := by
  obtain ⟨stopIsIn, notFarther⟩ := matched.advances (isIn_between before after)
  obtain ⟨stopBefore, stopAfter, joined, rfl⟩ := stopIsIn
  rw [between_after, between_after] at notFarther
  rcases List.append_eq_append_iff.mp joined.symm with
    ⟨middle, beforeEquality, afterEquality⟩ | ⟨middle, beforeEquality, afterEquality⟩
  · exact ⟨middle, stopAfter, afterEquality, by rw [beforeEquality]⟩
  · have empty : middle = [] := by
      apply List.eq_nil_of_length_eq_zero
      rw [afterEquality, List.length_append] at notFarther
      omega
    refine ⟨[], stopAfter, ?_, ?_⟩
    · rw [afterEquality, empty]
      rfl
    · rw [beforeEquality, empty]
      simp

/-! ## Hits -/

/-- What a hit at a position says: a word and a trail that match one after the other. -/
theorem hitAt?_eq_some {length : Nat} {word trail : Pattern} {before after : Text}
    (enough : (before ++ after).length ≤ length) {hit : Hit} {stop : Cursor}
    (found : hitAt? length word trail (between before after) = some (hit, stop)) :
    ∃ rest, after = hit.word ++ rest ∧
      word.Matches (between before after) (between (before ++ hit.word) rest) ∧
      trail.Matches (between (before ++ hit.word) rest) stop ∧
      hit.offset = before.bytes ∧ hit.before = before.getLast? ∧ hit.after = rest.head? ∧
      hit.trail = (between (before ++ hit.word) rest).upTo stop := by
  rw [hitAt?] at found
  obtain ⟨middle, inStops, trailFound⟩ := List.exists_of_findSome?_eq_some found
  have isIn := isIn_between before after
  have wordMatched : word.Matches (between before after) middle :=
    (mem_stops_singleton_iff enough word isIn middle).mp inStops
  obtain ⟨covered, rest, afterEquality, middleEquality⟩ := wordMatched.exists_middle
  have middleIsIn : IsIn (before ++ after) middle := (wordMatched.advances isIn).1
  obtain ⟨trailStop, firstStop, equality⟩ := Option.map_eq_some_iff.mp trailFound
  have trailMatched : trail.Matches middle trailStop :=
    (mem_stops_singleton_iff enough trail middleIsIn trailStop).mp (List.mem_of_mem_head? firstStop)
  subst afterEquality
  subst middleEquality
  obtain ⟨rfl, rfl⟩ := Prod.mk.inj equality
  rw [upTo_between]
  exact ⟨rest, rfl, wordMatched, trailMatched, rfl, rfl, rfl, rfl⟩

/-- Where a word and a trail match one after the other, there is a hit. -/
theorem hitAt?_ne_none_of_matches {length : Nat} {word trail : Pattern} {before after : Text}
    (enough : (before ++ after).length ≤ length) {middle stop : Cursor}
    (wordMatched : word.Matches (between before after) middle) (trailMatched : trail.Matches middle stop) :
    hitAt? length word trail (between before after) ≠ none := by
  have isIn := isIn_between before after
  have inStops := (mem_stops_singleton_iff enough word isIn middle).mpr wordMatched
  have inTrailStops :=
    (mem_stops_singleton_iff enough trail (wordMatched.advances isIn).1 stop).mpr trailMatched
  intro noHit
  rw [hitAt?, List.findSome?_eq_none_iff] at noHit
  have noStop := noHit middle inStops
  rw [Option.map_eq_none_iff, List.head?_eq_none_iff] at noStop
  rw [noStop] at inTrailStops
  exact absurd inTrailStops List.not_mem_nil

theorem isIn_of_hitAt? {length : Nat} {word trail : Pattern} {before after : Text}
    (enough : (before ++ after).length ≤ length) {hit : Hit} {stop : Cursor}
    (found : hitAt? length word trail (between before after) = some (hit, stop)) :
    hit.IsIn (before ++ after) := by
  obtain ⟨rest, afterEquality, _, _, offset, left, right, _⟩ := hitAt?_eq_some enough found
  exact ⟨before, rest, by rw [afterEquality, List.append_assoc], offset, left, right⟩

theorem isIn_stop_of_hitAt? {length : Nat} {word trail : Pattern} {text : Text}
    (enough : text.length ≤ length) {cursor stop : Cursor} {hit : Hit} (isIn : IsIn text cursor)
    (found : hitAt? length word trail cursor = some (hit, stop)) : IsIn text stop := by
  obtain ⟨before, after, rfl, rfl⟩ := isIn
  obtain ⟨rest, _, wordMatched, trailMatched, _⟩ := hitAt?_eq_some enough found
  have middleIsIn := (wordMatched.advances (isIn_between before after)).1
  exact (trailMatched.advances middleIsIn).1

/-- Every hit of a search comes from a position of the text. -/
theorem exists_hitAt?_of_mem_segmentsFrom {length : Nat} {word trail : Pattern} {text : Text}
    (enough : text.length ≤ length) {cursor : Cursor} (isIn : IsIn text cursor) {hit : Hit}
    (member : Segment.found hit ∈ segmentsFrom length word trail cursor) :
    ∃ position stop, IsIn text position ∧ hitAt? length word trail position = some (hit, stop) := by
  fun_induction segmentsFrom length word trail cursor with
  | case1 cursor noHit atEnd => simp at member
  | case2 cursor noHit c next step inductionHypothesis =>
      have inRest : Segment.found hit ∈ segmentsFrom length word trail next := by simpa using member
      exact inductionHypothesis (isIn.next step) inRest
  | case3 cursor foundHit stop found shorter inductionHypothesis =>
      rcases List.mem_cons.mp member with atHead | inRest
      · rw [Segment.found.inj atHead]
        exact ⟨cursor, stop, isIn, found⟩
      · exact inductionHypothesis (isIn_stop_of_hitAt? enough isIn found) inRest
  | case4 cursor foundHit stop found notShorter atEnd =>
      have same : hit = foundHit := by simpa using member
      rw [same]
      exact ⟨cursor, stop, isIn, found⟩
  | case5 cursor foundHit stop found notShorter c next step inductionHypothesis =>
      rcases List.mem_cons.mp member with atHead | inRest
      · rw [Segment.found.inj atHead]
        exact ⟨cursor, stop, isIn, found⟩
      · have later : Segment.found hit ∈ segmentsFrom length word trail next := by
          simpa using inRest
        exact inductionHypothesis (isIn.next step) later

theorem isIn_of_mem_segments {word trail : Pattern} {text : Text} {hit : Hit}
    (member : Segment.found hit ∈ segments word trail text) : hit.IsIn text := by
  obtain ⟨position, stop, ⟨before, after, rfl, rfl⟩, found⟩ :=
    exists_hitAt?_of_mem_segmentsFrom (Nat.le_refl _) (isIn_start text) member
  exact isIn_of_hitAt? (Nat.le_refl _) found

/-! ## Searching for identifiers -/

section Identifiers

variable {words : List Text} (identifiers : ∀ word ∈ words, word.isIdentifier = true)

include identifiers

private theorem any_head?_append {word : Text} (member : word ∈ words) (rest : Text) :
    (word ++ rest).head?.any isWordChar = true := by
  have nonempty := Text.ne_nil_of_isIdentifier (identifiers word member)
  obtain ⟨c, others, rfl⟩ := List.exists_cons_of_ne_nil nonempty
  exact Text.isWordChar_of_isIdentifier (identifiers _ member) c List.mem_cons_self

private theorem any_getLast?_append {word : Text} (member : word ∈ words) (before : Text) :
    (before ++ word).getLast?.any isWordChar = true := by
  have nonempty := Text.ne_nil_of_isIdentifier (identifiers word member)
  have last : word.getLast? = some (word.getLast nonempty) := List.getLast?_eq_some_getLast nonempty
  rw [List.getLast?_append, last, Option.some_or, Option.any_some]
  exact Text.isWordChar_of_isIdentifier (identifiers word member) _ (List.getLast_mem nonempty)

/-- One of some identifiers is matched exactly where it stands between word boundaries. -/
theorem matches_wordAmong_iff (nonempty : words ≠ []) (before after : Text) (stop : Cursor) :
    (wordAmong words).Matches (between before after) stop ↔
      before.getLast?.any isWordChar = false ∧
        ∃ word ∈ words, ∃ rest, after = word ++ rest ∧ rest.head?.any isWordChar = false ∧
          stop = between (before ++ word) rest := by
  have choices : words.map literal ≠ [] := by simpa using nonempty
  simp only [wordAmong, matches_inOrder_cons_iff, matches_oneOf_iff choices]
  constructor
  · intro matched
    obtain ⟨first, ⟨firstEquality, opening⟩, middle, ⟨pattern, inPatterns, wordMatched⟩,
      last, ⟨lastEquality, closing⟩, stopEquality⟩ := matched
    obtain ⟨word, inWords, rfl⟩ := List.mem_map.mp inPatterns
    subst firstEquality
    obtain ⟨rest, afterEquality, middleEquality⟩ := (matches_literal_iff ..).mp wordMatched
    subst afterEquality
    subst middleEquality
    have stopIs : between (before ++ word) rest = stop := lastEquality.trans stopEquality
    rw [meets, between_before, between_after, any_head?_append identifiers inWords] at opening
    rw [meets, between_before, between_after, any_getLast?_append identifiers inWords] at closing
    refine ⟨by simpa using opening, word, inWords, rest, rfl, by simpa using closing, stopIs.symm⟩
  · intro standing
    obtain ⟨opening, word, inWords, rest, rfl, closing, rfl⟩ := standing
    refine ⟨between before (word ++ rest), ⟨rfl, ?_⟩, between (before ++ word) rest,
      ⟨literal word, List.mem_map_of_mem inWords, (matches_literal_iff ..).mpr ⟨rest, rfl, rfl⟩⟩,
      between (before ++ word) rest, ⟨rfl, ?_⟩, rfl⟩
    · rw [meets, between_before, between_after, any_head?_append identifiers inWords, opening]
      rfl
    · rw [meets, between_before, between_after, any_getLast?_append identifiers inWords, closing]
      rfl

/-- The identifier at a position is the run of word characters that starts there. -/
private theorem eq_takeWhile {word rest : Text} (member : word ∈ words)
    (closing : rest.head?.any isWordChar = false) :
    (word ++ rest).takeWhile isWordChar = word :=
  Text.takeWhile_run (Text.isWordChar_of_isIdentifier (identifiers word member)) closing

/-- What a search finds at a position: one of the words between word boundaries, or nothing at all at
a word boundary if there are no words to look for. -/
theorem word_of_hitAt? {length : Nat} {trail : Pattern} {before after : Text}
    (enough : (before ++ after).length ≤ length) {hit : Hit} {stop : Cursor}
    (found : hitAt? length (wordAmong words) trail (between before after) = some (hit, stop)) :
    (∃ rest, hit.word ∈ words ∧ after = hit.word ++ rest ∧
      before.getLast?.any isWordChar = false ∧ rest.head?.any isWordChar = false) ∨
    (words = [] ∧ hit.word = [] ∧
      before.getLast?.any isWordChar ≠ after.head?.any isWordChar) := by
  obtain ⟨rest, afterEquality, wordMatched, _⟩ := hitAt?_eq_some enough found
  by_cases empty : words = []
  · subst empty
    simp only [wordAmong, matches_inOrder_cons_iff] at wordMatched
    obtain ⟨first, ⟨firstEquality, opening⟩, middle, middleEquality, last, ⟨lastEquality, _⟩,
      stopEquality⟩ := wordMatched
    subst firstEquality
    have same : between before after = between (before ++ hit.word) rest :=
      middleEquality.trans (lastEquality.trans stopEquality)
    have restEquality : rest = after := by simpa using (congrArg Cursor.after same).symm
    have nothing : hit.word = [] := by
      rw [restEquality] at afterEquality
      exact List.self_eq_append_left.mp afterEquality
    refine Or.inr ⟨rfl, nothing, ?_⟩
    rw [meets, between_before, between_after] at opening
    simpa using opening
  · obtain ⟨opening, word, inWords, wordRest, wordEquality, closing, stopEquality⟩ :=
      (matches_wordAmong_iff identifiers empty before after _).mp wordMatched
    have sameAfter : rest = wordRest := by simpa using congrArg Cursor.after stopEquality
    have joined : hit.word ++ rest = word ++ rest := by
      rw [← afterEquality, wordEquality, sameAfter]
    have same : hit.word = word := List.append_cancel_right joined
    exact Or.inl ⟨rest, same ▸ inWords, afterEquality, opening, sameAfter ▸ closing⟩

/-- A hit that stands alone is one of the words that were looked for. -/
theorem mem_words_of_hitAt? {length : Nat} {trail : Pattern} {before after : Text}
    (enough : (before ++ after).length ≤ length) {hit : Hit} {stop : Cursor}
    (found : hitAt? length (wordAmong words) trail (between before after) = some (hit, stop))
    (alone : hit.standsAlone = true) : hit.word ∈ words := by
  rcases word_of_hitAt? identifiers enough found with
    ⟨_, inWords, _⟩ | ⟨_, nothing, boundary⟩
  · exact inWords
  · -- Nothing stands alone at a word boundary.
    obtain ⟨rest, afterEquality, _, _, _, left, right, _⟩ := hitAt?_eq_some enough found
    rw [nothing, List.nil_append] at afterEquality
    rw [Hit.standsAlone, Text.standsBetween_iff, left, right, ← afterEquality] at alone
    rw [any_isWordChar_eq_false alone.1, any_isWordChar_eq_false alone.2] at boundary
    exact absurd rfl boundary

/-- A word that stands between word boundaries is found where it starts. -/
theorem hitAt?_of_mem_words {length : Nat} {before rest word : Text}
    (enough : (before ++ (word ++ rest)).length ≤ length) (member : word ∈ words)
    (opening : before.getLast?.any isWordChar = false)
    (closing : rest.head?.any isWordChar = false) :
    hitAt? length (wordAmong words) .empty (between before (word ++ rest)) =
      some ({ offset := before.bytes, before := before.getLast?, word, trail := [],
              after := rest.head? }, between (before ++ word) rest) := by
  have nonempty : words ≠ [] := List.ne_nil_of_mem member
  have isIn := isIn_between before (word ++ rest)
  have memIff := mem_stops_singleton_iff enough (wordAmong words) isIn
  have only : ∀ stop ∈ (wordAmong words).stops length [between before (word ++ rest)],
      stop = between (before ++ word) rest := by
    intro stop inStops
    obtain ⟨_, other, inWords, otherRest, equality, otherClosing, stopEquality⟩ :=
      (matches_wordAmong_iff identifiers nonempty _ _ _).mp ((memIff stop).mp inStops)
    have sameWord : word = other := by
      rw [← eq_takeWhile identifiers member closing, equality,
        eq_takeWhile identifiers inWords otherClosing]
    subst sameWord
    rw [stopEquality, List.append_cancel_left equality]
  have reached : between (before ++ word) rest ∈
      (wordAmong words).stops length [between before (word ++ rest)] :=
    (memIff _).mpr ((matches_wordAmong_iff identifiers nonempty _ _ _).mpr
      ⟨opening, word, member, rest, rfl, closing, rfl⟩)
  have descending := (follows_stops enough (wordAmong words)).descending (.singleton isIn)
  rw [hitAt?, descending.eq_singleton reached only]
  simp [Pattern.stops, upTo]

end Identifiers

end Pattern

end Dialect
