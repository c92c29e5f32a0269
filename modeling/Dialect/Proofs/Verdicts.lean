import Dialect.Proofs.Location
import Dialect.Proofs.Tokens
import Dialect.Proofs.Trailing

/-!
# The rules by which a line is judged

A keyword is taken for a name if it is a maximal run of identifier characters with a mark behind it. The
search for such keywords looks for words between word boundaries, goes on behind each match, and then
leaves out the hits beside a dollar sign; still it finds the first keyword that is taken for a name, and
misses none. `Table.Ruled` gives the rules without any search. Main statement: `judge` follows these
rules and no others (`Table.judge_eq_iff_ruled`).
-/

namespace Dialect

namespace Text

/-! ## Words with a mark behind them -/

/-- The characters that can stand between a name and its mark. -/
def gapChars : List Char := ['\t', '\n', '\x0b', '\x0c', '\r', ' ']

/-- One of some words is a run of its own, and behind it, perhaps after a gap, stands a mark. -/
structure IsMarked (words : List Text) (mark : Char) (before word after : Text) : Prop where
  isRun : IsRun before word after
  member : word ∈ words
  marked : ∃ gap rest, after = gap ++ mark :: rest ∧ ∀ c ∈ gap, c ∈ gapChars

/-- The leftmost word of a text that has a mark behind it. -/
structure IsFirstMarked (words : List Text) (mark : Char) (text before word after : Text) : Prop where
  joined : text = before ++ word ++ after
  isMarked : IsMarked words mark before word after
  leftmost : ∀ otherBefore other otherAfter, text = otherBefore ++ other ++ otherAfter →
    IsMarked words mark otherBefore other otherAfter → before.length ≤ otherBefore.length

/-- No word of a text has a mark behind it. -/
def NoneMarked (words : List Text) (mark : Char) (text : Text) : Prop :=
  ∀ before word after, text = before ++ word ++ after → ¬IsMarked words mark before word after

theorem contains_spaces_iff (c : Char) : CharSet.spaces.contains c = true ↔ c ∈ gapChars := by
  have ranges : CharSet.spaces.ranges = [(9, 13), (32, 32)] := by decide
  simp only [CharSet.contains, ranges, gapChars, List.any_cons, List.any_nil, Bool.or_false,
    Bool.or_eq_true, Bool.and_eq_true, decide_eq_true_eq, List.mem_cons, List.not_mem_nil, or_false,
    ← Char.toNat_inj]
  have codes : '\t'.toNat = 9 ∧ '\n'.toNat = 10 ∧ '\x0b'.toNat = 11 ∧ '\x0c'.toNat = 12 ∧
      '\r'.toNat = 13 ∧ ' '.toNat = 32 := by decide
  omega

theorem isIdentifierChar_of_mem_gapChars {c : Char} (member : c ∈ gapChars) :
    isIdentifierChar c = false :=
  isIdentifierChar_of_isBlank (isBlank_of_spaces ((contains_spaces_iff c).mpr member))

/-- A place of a text belongs to at most one run. -/
theorem IsRun.eq_of_length_eq {before run after otherBefore other otherAfter : Text}
    (isRun : IsRun before run after) (otherIsRun : IsRun otherBefore other otherAfter)
    (joined : before ++ run ++ after = otherBefore ++ other ++ otherAfter)
    (sameLength : before.length = otherBefore.length) :
    before = otherBefore ∧ run = other ∧ after = otherAfter := by
  rw [List.append_assoc, List.append_assoc] at joined
  obtain ⟨sameBefore, behind⟩ := List.append_inj joined sameLength
  have separated := ((standsBetween_iff ..).mp isRun.alone).2
  have otherSeparated := ((standsBetween_iff ..).mp otherIsRun.alone).2
  have sameRun : run = other := by
    rw [← takeWhile_run isRun.identifier separated, behind,
      takeWhile_run otherIsRun.identifier otherSeparated]
  subst sameRun
  exact ⟨sameBefore, rfl, List.append_cancel_left behind⟩

theorem IsFirstMarked.eq {words : List Text} {mark : Char}
    {text before word after otherBefore other otherAfter : Text}
    (isFirst : IsFirstMarked words mark text before word after)
    (otherIsFirst : IsFirstMarked words mark text otherBefore other otherAfter) :
    before = otherBefore ∧ word = other := by
  have sameLength : before.length = otherBefore.length :=
    Nat.le_antisymm
      (isFirst.leftmost otherBefore other otherAfter otherIsFirst.joined otherIsFirst.isMarked)
      (otherIsFirst.leftmost before word after isFirst.joined isFirst.isMarked)
  obtain ⟨sameBefore, sameWord, _⟩ := isFirst.isMarked.isRun.eq_of_length_eq
    otherIsFirst.isMarked.isRun (isFirst.joined.symm.trans otherIsFirst.joined) sameLength
  exact ⟨sameBefore, sameWord⟩

end Text

namespace Hit

/-- What is found behind a position is the first marked word from there on; if nothing is found, then
there is none. -/
def IsFirstFrom (words : List Text) (mark : Char) (before after : Text) : Option Hit → Prop
  | none => ∀ lead word rest, after = lead ++ word ++ rest →
      ¬Text.IsMarked words mark (before ++ lead) word rest
  | some hit => ∃ lead rest, after = lead ++ hit.word ++ rest ∧
      hit.offset = Text.bytes (before ++ lead) ∧
      Text.IsMarked words mark (before ++ lead) hit.word rest ∧
      ∀ otherLead other otherRest, after = otherLead ++ other ++ otherRest →
        Text.IsMarked words mark (before ++ otherLead) other otherRest →
        lead.length ≤ otherLead.length

/-- A text in which no marked word starts can be passed over. -/
theorem IsFirstFrom.passing {words : List Text} {mark : Char} {before rest : Text}
    {found : Option Hit} (passed : Text)
    (isFirst : IsFirstFrom words mark (before ++ passed) rest found)
    (nothing : ∀ lead word after, passed ++ rest = lead ++ word ++ after →
      Text.IsMarked words mark (before ++ lead) word after → passed.length ≤ lead.length) :
    IsFirstFrom words mark before (passed ++ rest) found := by
  have behind : ∀ lead word after, passed ++ rest = lead ++ word ++ after →
      Text.IsMarked words mark (before ++ lead) word after →
      ∃ later, lead = passed ++ later ∧ rest = later ++ word ++ after ∧
        Text.IsMarked words mark (before ++ passed ++ later) word after := by
    intro lead word after joined isMarked
    have long := nothing lead word after joined isMarked
    rw [List.append_assoc] at joined
    obtain ⟨later, rfl⟩ := List.prefix_of_prefix_length_le
      ⟨rest, rfl⟩ ⟨word ++ after, joined.symm⟩ long
    rw [List.append_assoc passed, List.append_cancel_left_eq] at joined
    exact ⟨later, rfl, by rw [joined, List.append_assoc], by rwa [List.append_assoc]⟩
  cases found with
  | none =>
      intro lead word after joined isMarked
      obtain ⟨later, _, laterJoined, laterMarked⟩ := behind lead word after joined isMarked
      exact isFirst later word after laterJoined laterMarked
  | some hit =>
      obtain ⟨lead, after, rfl, offset, isMarked, leftmost⟩ := isFirst
      rw [List.append_assoc] at offset isMarked
      refine ⟨passed ++ lead, after, by simp, offset, isMarked, ?_⟩
      intro otherLead other otherAfter joined otherMarked
      obtain ⟨later, rfl, laterJoined, laterMarked⟩ := behind _ _ _ joined otherMarked
      have bound := leftmost later other otherAfter laterJoined laterMarked
      simpa using bound

end Hit

namespace Misuse

theorem isIdentifierChar_mark (kind : Misuse) : isIdentifierChar kind.mark = false := by
  cases kind <;> decide

/-- The kinds of misuse with their marks, in the order in which they count. -/
def marks : List (Misuse × Char) := [(.variable, '='), (.function, '('), (.property, ':')]

theorem mark_of_mem_marks {kind : Misuse} {mark : Char} (member : (kind, mark) ∈ marks) :
    kind.mark = mark := by
  simp only [marks, List.mem_cons, Prod.mk.injEq, List.not_mem_nil, or_false] at member
  rcases member with ⟨rfl, rfl⟩ | ⟨rfl, rfl⟩ | ⟨rfl, rfl⟩ <;> rfl

end Misuse

namespace Table

/-! ## The search for keywords that are taken for names -/

open Cursor Pattern

theorem matches_misuseTrail_iff (kind : Misuse) (before after : Text) (stop : Cursor) :
    (misuseTrail kind).Matches (between before after) stop ↔
      ∃ gap rest, after = gap ++ kind.mark :: rest ∧ (∀ c ∈ gap, c ∈ Text.gapChars) ∧
        stop = between (before ++ (gap ++ [kind.mark])) rest := by
  constructor
  · intro matched
    obtain ⟨_, spacesMatched, markMatched⟩ := matched
    obtain ⟨gap, _, rfl, inSet, _, rfl⟩ := (matches_spaces_iff 0 ..).mp spacesMatched
    obtain ⟨rest, rfl, rfl⟩ := (matches_char_iff ..).mp markMatched
    exact ⟨gap, rest, rfl, fun c member => (Text.contains_spaces_iff c).mp (inSet c member),
      by rw [List.append_assoc]⟩
  · rintro ⟨gap, rest, rfl, inGap, rfl⟩
    refine ⟨between (before ++ gap) (kind.mark :: rest), (matches_spaces_iff 0 ..).mpr
      ⟨gap, _, rfl, ?_, Nat.zero_le _, rfl⟩, (matches_char_iff ..).mpr ⟨rest, rfl, ?_⟩⟩
    · exact fun c member => (Text.contains_spaces_iff c).mpr (inGap c member)
    · rw [List.append_assoc]

section Words

variable {words : List Text} (identifiers : ∀ word ∈ words, word.isIdentifier = true)

include identifiers

/-- Where a marked word starts, the search finds something. -/
private theorem hitAt?_ne_none_of_isMarked {length : Nat} {kind : Misuse} {before word after : Text}
    (enough : (before ++ (word ++ after)).length ≤ length)
    (isMarked : Text.IsMarked words kind.mark before word after) :
    hitAt? length (wordAmong words) (misuseTrail kind) (between before (word ++ after)) ≠ none := by
  obtain ⟨isRun, member, gap, rest, rfl, inGap⟩ := isMarked
  obtain ⟨separatedBefore, separatedAfter⟩ := (Text.standsBetween_iff ..).mp isRun.alone
  have wordMatched : (wordAmong words).Matches (between before (word ++ (gap ++ kind.mark :: rest)))
      (between (before ++ word) (gap ++ kind.mark :: rest)) :=
    (matches_wordAmong_iff identifiers (List.ne_nil_of_mem member) ..).mpr
      ⟨any_isWordChar_eq_false separatedBefore, word, member, _, rfl,
        any_isWordChar_eq_false separatedAfter, rfl⟩
  exact hitAt?_ne_none_of_matches enough wordMatched
    ((matches_misuseTrail_iff ..).mpr ⟨gap, rest, rfl, inGap, rfl⟩)

/-- What a hit says: a word between word boundaries with a mark behind it, or nothing at all if there are
no words to look for. -/
private theorem marked_of_hitAt? {length : Nat} {kind : Misuse} {before after : Text}
    (enough : (before ++ after).length ≤ length) {hit : Hit} {stop : Cursor}
    (found : hitAt? length (wordAmong words) (misuseTrail kind) (between before after) =
      some (hit, stop)) :
    ∃ gap rest, after = hit.word ++ (gap ++ [kind.mark]) ++ rest ∧ (∀ c ∈ gap, c ∈ Text.gapChars) ∧
      stop = between (before ++ (hit.word ++ (gap ++ [kind.mark]))) rest ∧
      hit.offset = before.bytes ∧
      hit.standsAlone = Text.standsBetween before.getLast? (gap ++ kind.mark :: rest).head? ∧
      (words = [] ∨ hit.word ∈ words ∧ (gap ++ kind.mark :: rest).head?.any isWordChar = false) := by
  obtain ⟨_, rfl, _, trailMatched, offset, left, right, _⟩ := hitAt?_eq_some enough found
  obtain ⟨gap, rest, rfl, inGap, rfl⟩ := (matches_misuseTrail_iff ..).mp trailMatched
  refine ⟨gap, rest, by simp, inGap, by rw [List.append_assoc], offset, ?_, ?_⟩
  · rw [Hit.standsAlone, left, right]
  · rcases word_of_hitAt? identifiers enough found with
      ⟨wordRest, inWords, restEquality, _, closing⟩ | ⟨empty, _⟩
    · rw [List.append_cancel_left restEquality]
      exact Or.inr ⟨inWords, closing⟩
    · exact Or.inl empty

/-- A search gets ahead with every hit, since at least the mark is covered. -/
private theorem length_after_lt_of_hitAt? {length : Nat} {kind : Misuse} {before after : Text}
    (enough : (before ++ after).length ≤ length) {hit : Hit} {stop : Cursor}
    (found : hitAt? length (wordAmong words) (misuseTrail kind) (between before after) =
      some (hit, stop)) : stop.after.length < (between before after).after.length := by
  obtain ⟨gap, rest, rfl, _, rfl, _⟩ := marked_of_hitAt? identifiers enough found
  simp only [between_after, List.length_append, List.length_singleton]
  omega

/-- A word that a dollar sign stands beside is no run, and no other word starts where it does. -/
private theorem not_isMarked_of_glued {mark : Char} {before word behind other after : Text}
    (inWords : word ∈ words) (closing : behind.head?.any isWordChar = false)
    (glued : Text.standsBetween before.getLast? behind.head? = false)
    (joined : word ++ behind = other ++ after) : ¬Text.IsMarked words mark before other after := by
  intro isMarked
  have separatedAfter := ((Text.standsBetween_iff ..).mp isMarked.isRun.alone).2
  have sameWord : word = other := by
    rw [← Text.takeWhile_run (Text.isWordChar_of_isIdentifier (identifiers word inWords)) closing,
      joined, Text.takeWhile_run (Text.isWordChar_of_isIdentifier (identifiers other isMarked.member))
        (any_isWordChar_eq_false separatedAfter)]
  subst sameWord
  rw [List.append_cancel_left joined, isMarked.isRun.alone] at glued
  exact absurd glued (by decide)

/-- No run starts inside a word. -/
private theorem not_isMarked_inside {mark : Char} {before word lead other after : Text}
    (inWords : word ∈ words) (nonempty : lead ≠ []) (starts : lead <+: word) :
    ¬Text.IsMarked words mark (before ++ lead) other after := by
  intro isMarked
  have separatedBefore := ((Text.standsBetween_iff ..).mp isMarked.isRun.alone).1
  have continued := Text.isIdentifierChar_of_isIdentifier (identifiers word inWords) _
    (starts.subset (List.getLast_mem nonempty))
  rw [List.getLast?_append_of_ne_nil before nonempty, List.getLast?_eq_some_getLast nonempty,
    Option.any_some, continued] at separatedBefore
  exact absurd separatedBefore (by decide)

/-- No marked word starts before the end of a hit that does not stand alone: not where it starts, not
later in its word, and not in the gap or with the mark. -/
private theorem length_le_of_isMarked {kind : Misuse} {before word gap rest lead other after : Text}
    (inWords : word ∈ words) (inGap : ∀ c ∈ gap, c ∈ Text.gapChars)
    (closing : (gap ++ kind.mark :: rest).head?.any isWordChar = false)
    (glued : Text.standsBetween before.getLast? (gap ++ kind.mark :: rest).head? = false)
    (joined : word ++ (gap ++ [kind.mark]) ++ rest = lead ++ other ++ after)
    (isMarked : Text.IsMarked words kind.mark (before ++ lead) other after) :
    (word ++ (gap ++ [kind.mark])).length ≤ lead.length := by
  by_contra short
  obtain ⟨c, others, isCons⟩ := List.exists_cons_of_ne_nil isMarked.isRun.nonempty
  have starts : lead ++ [c] <+: word ++ (gap ++ [kind.mark]) := by
    apply List.prefix_of_prefix_length_le ⟨others ++ after, _⟩ ⟨rest, joined⟩
    · simp only [List.length_append, List.length_singleton] at short ⊢
      omega
    · simp [isCons]
  have leadStarts : lead <+: word ++ (gap ++ [kind.mark]) := (List.prefix_append lead [c]).trans starts
  by_cases behindWord : word.length ≤ lead.length
  · obtain ⟨later, rfl⟩ :=
      List.prefix_of_prefix_length_le (List.prefix_append word _) leadStarts behindWord
    rw [List.append_assoc, List.prefix_append_right_inj] at starts
    have inTrail : c ∈ gap ++ [kind.mark] := starts.subset (by simp)
    have separator : isIdentifierChar c = false := by
      rcases List.mem_append.mp inTrail with isGap | isMark
      · exact Text.isIdentifierChar_of_mem_gapChars (inGap c isGap)
      · rw [List.mem_singleton.mp isMark]
        exact kind.isIdentifierChar_mark
    have identifier := isMarked.isRun.identifier c (isCons ▸ List.mem_cons_self)
    rw [separator] at identifier
    exact absurd identifier (by decide)
  · by_cases atStart : lead = []
    · subst atStart
      rw [List.append_nil] at isMarked
      exact not_isMarked_of_glued identifiers inWords closing glued (by simpa using joined) isMarked
    · have inWord : lead <+: word :=
        List.prefix_of_prefix_length_le leadStarts (List.prefix_append word _) (by omega)
      exact not_isMarked_inside identifiers inWords atStart inWord isMarked

/-- A search finds the first marked word behind a position. The induction follows the search; what it
carries along is the text before the position, which says whether a run can start there. -/
theorem isFirstFrom_segmentsFrom {length : Nat} (kind : Misuse) (before after : Text)
    (enough : (before ++ after).length ≤ length) :
    Hit.IsFirstFrom words kind.mark before after
      (((segmentsFrom length (wordAmong words) (misuseTrail kind) (between before after)).filterMap
        Segment.hit?).find? Hit.standsAlone) := by
  generalize position : between before after = cursor
  fun_induction segmentsFrom length (wordAmong words) (misuseTrail kind) cursor
    generalizing before after with
  | case1 cursor noHit atEnd =>
      subst position
      cases after with
      | cons c rest => simp at atEnd
      | nil =>
          intro lead word rest joined isMarked
          have nothing : word = [] := by
            rw [List.nil_eq, List.append_eq_nil_iff, List.append_eq_nil_iff] at joined
            exact joined.1.2
          exact isMarked.isRun.nonempty nothing
  | case2 cursor noHit c next step inductionHypothesis =>
      subst position
      cases after with
      | nil => simp at step
      | cons d rest =>
          obtain ⟨rfl, nextEquality⟩ := between_of_next? step
          have later := inductionHypothesis (before ++ [d]) rest (by simpa using enough) nextEquality
          refine Hit.IsFirstFrom.passing [d] later ?_
          intro lead word after joined isMarked
          cases lead with
          | cons first others => simp
          | nil =>
              have starts : d :: rest = word ++ after := joined
              rw [starts] at enough noHit
              rw [List.append_nil] at isMarked
              exact absurd noHit (hitAt?_ne_none_of_isMarked identifiers enough isMarked)
  | case3 cursor hit stop found shorter inductionHypothesis =>
      subst position
      obtain ⟨gap, rest, rfl, inGap, rfl, offset, alone, isWord⟩ :=
        marked_of_hitAt? identifiers enough found
      simp only [List.filterMap_cons, Segment.hit?, List.find?_cons]
      cases standing : hit.standsAlone with
      | true =>
          have inWords := mem_words_of_hitAt? identifiers enough found standing
          have isRun : Text.IsRun before hit.word (gap ++ kind.mark :: rest) :=
            ⟨Text.ne_nil_of_isIdentifier (identifiers _ inWords),
              Text.isIdentifierChar_of_isIdentifier (identifiers _ inWords), alone ▸ standing⟩
          refine ⟨[], gap ++ kind.mark :: rest, by simp, by rw [offset, List.append_nil], ?_,
            fun _ _ _ _ _ => Nat.zero_le _⟩
          rw [List.append_nil]
          exact ⟨isRun, inWords, gap, rest, rfl, inGap⟩
      | false =>
          have later := inductionHypothesis (before ++ (hit.word ++ (gap ++ [kind.mark]))) rest
            (by simpa using enough) rfl
          refine later.passing _ ?_
          intro lead other after joined isMarked
          rcases isWord with noWords | ⟨inWords, closing⟩
          · rw [noWords] at isMarked
            exact absurd isMarked.member List.not_mem_nil
          · exact length_le_of_isMarked identifiers inWords inGap closing (alone ▸ standing) joined isMarked
  | case4 cursor hit stop found notShorter atEnd =>
      subst position
      exact absurd (length_after_lt_of_hitAt? identifiers enough found) notShorter
  | case5 cursor hit stop found notShorter c next step inductionHypothesis =>
      subst position
      exact absurd (length_after_lt_of_hitAt? identifiers enough found) notShorter

end Words

section Accepted

variable {table : Table} (wellFormed : table.WellFormed)

include wellFormed

theorem isFirstFrom_misused? (code : Text) (kind : Misuse) :
    Hit.IsFirstFrom table.keywords kind.mark [] code (table.misused? code kind) :=
  isFirstFrom_segmentsFrom wellFormed.identifiers kind [] code (Nat.le_refl _)

theorem isFirstMarked_of_misused? {code : Text} {kind : Misuse} {hit : Hit}
    (misuse : table.misused? code kind = some hit) :
    ∃ before after, Text.IsFirstMarked table.keywords kind.mark code before hit.word after ∧
      hit.offset = before.bytes := by
  have isFirst := isFirstFrom_misused? wellFormed code kind
  rw [misuse] at isFirst
  obtain ⟨before, after, joined, offset, isMarked, leftmost⟩ := isFirst
  exact ⟨before, after, ⟨joined, isMarked, leftmost⟩, offset⟩

theorem misused?_eq_none_iff (code : Text) (kind : Misuse) :
    table.misused? code kind = none ↔ Text.NoneMarked table.keywords kind.mark code := by
  constructor
  · intro noMisuse
    have isFirst := isFirstFrom_misused? wellFormed code kind
    rw [noMisuse] at isFirst
    exact isFirst
  · intro noneMarked
    rw [Option.eq_none_iff_forall_ne_some]
    intro hit misuse
    obtain ⟨before, after, isFirst, _⟩ := isFirstMarked_of_misused? wellFormed misuse
    exact noneMarked before hit.word after isFirst.joined isFirst.isMarked

theorem exists_misused?_of_isFirstMarked {code before word after : Text} {kind : Misuse}
    (isFirst : Text.IsFirstMarked table.keywords kind.mark code before word after) :
    ∃ hit, table.misused? code kind = some hit ∧ hit.word = word ∧ hit.offset = before.bytes := by
  cases misuse : table.misused? code kind with
  | none =>
      have noneMarked := (misused?_eq_none_iff wellFormed code kind).mp misuse
      exact absurd isFirst.isMarked (noneMarked before word after isFirst.joined)
  | some hit =>
      obtain ⟨foundBefore, _, foundFirst, offset⟩ := isFirstMarked_of_misused? wellFormed misuse
      obtain ⟨sameBefore, sameWord⟩ := foundFirst.eq isFirst
      exact ⟨hit, rfl, sameWord, by rw [offset, sameBefore]⟩

end Accepted

/-! ## The rules -/

theorem firstMisuse?_eq (table : Table) (code : Text) :
    table.firstMisuse? code =
      Misuse.marks.findSome? fun entry => (table.misused? code entry.1).map fun hit => (entry.1, hit) := rfl

theorem firstMisuse?_eq_some_iff (table : Table) (code : Text) (kind : Misuse) (hit : Hit) :
    table.firstMisuse? code = some (kind, hit) ↔
      table.misused? code kind = some hit ∧ ∃ earlier mark later,
        Misuse.marks = earlier ++ (kind, mark) :: later ∧
        ∀ entry ∈ earlier, table.misused? code entry.1 = none := by
  rw [firstMisuse?_eq, List.findSome?_eq_some_iff]
  simp only [Option.map_eq_some_iff, Option.map_eq_none_iff, Prod.mk.injEq]
  constructor
  · rintro ⟨earlier, ⟨_, mark⟩, later, order, ⟨_, misuse, rfl, rfl⟩, noneEarlier⟩
    exact ⟨misuse, earlier, mark, later, order, noneEarlier⟩
  · rintro ⟨misuse, earlier, mark, later, order, noneEarlier⟩
    exact ⟨earlier, (kind, mark), later, order, ⟨hit, misuse, rfl, rfl⟩, noneEarlier⟩

theorem firstMisuse?_eq_none_iff (table : Table) (code : Text) :
    table.firstMisuse? code = none ↔ ∀ entry ∈ Misuse.marks, table.misused? code entry.1 = none := by
  rw [firstMisuse?_eq, List.findSome?_eq_none_iff]
  simp only [Option.map_eq_none_iff]

/-- The row that decides about a code is the first whose context occurs in it. -/
structure Decides (table : Table) (code : Text) (row : Row) : Prop where
  fits : row.fits code = true
  first : ∃ earlier later, table.rows = earlier ++ row :: later ∧
    ∀ other ∈ earlier, other.fits code = false

theorem find?_fits_eq_some_iff (table : Table) (code : Text) (row : Row) :
    table.rows.find? (fun row => row.fits code) = some row ↔ table.Decides code row := by
  rw [List.find?_eq_some_iff_append]
  simp only [Bool.not_eq_true']
  exact ⟨fun found => ⟨found.1, found.2⟩, fun decides => ⟨decides.fits, decides.first⟩⟩

theorem find?_fits_eq_none_iff (table : Table) (code : Text) :
    table.rows.find? (fun row => row.fits code) = none ↔ ∀ row ∈ table.rows, row.fits code = false := by
  simp only [List.find?_eq_none, Bool.not_eq_true]

end Table

theorem Text.allBlank_joinWith_space (parts : List Text) :
    allBlank (joinWith [' '] parts) = parts.all allBlank := by
  induction parts with
  | nil => rfl
  | cons part others inductionHypothesis =>
      cases others with
      | nil => rw [joinWith, List.all_cons, List.all_nil, Bool.and_true]
      | cons next more =>
          have space : allBlank [' '] = true := by decide
          have joined : joinWith [' '] (part :: next :: more) =
              part ++ [' '] ++ joinWith [' '] (next :: more) := rfl
          rw [joined, List.all_cons, ← inductionHypothesis]
          simp only [allBlank, List.all_append] at space ⊢
          rw [space, Bool.and_true]

namespace Line

/-- The code of a line with its literals masked. -/
def masked (line : Line) : Text := (Mask.ofCode line.code).text

theorem allBlank_masked (line : Line) : line.masked.allBlank = !line.hasCode := by
  rw [masked, Mask.allBlank_text_ofCode, code, Text.allBlank_joinWith_space, hasCode,
    List.not_any_eq_all_not]
  simp

end Line

namespace Table

/-- The rules for a line. Without code it is skipped. Otherwise the row that decides says what it does, and
a dependent keyword has to be inside the block of its parent. If no row decides, then no keyword may have
a mark behind it; a fault is of the first kind that there is, and about the leftmost keyword. -/
inductive Ruled (table : Table) (blocks : Blocks) (site : Site) (line : Line) :
    Except Diagnostic Verdict → Prop
  | skipped (noCode : line.hasCode = false) : Ruled table blocks site line (.ok .skipped)
  | opener {row : Row} (hasCode : line.hasCode = true) (decides : table.Decides line.masked row)
      (role : row.role = .opener) : Ruled table blocks site line (.ok (.opens row.keyword))
  | plain {row : Row} (hasCode : line.hasCode = true) (decides : table.Decides line.masked row)
      (role : row.role = .plain) : Ruled table blocks site line (.ok .valid)
  | inside {row : Row} {parent : Text} (hasCode : line.hasCode = true)
      (decides : table.Decides line.masked row) (role : row.role = .dependent parent)
      (innermost : blocks.top? = some parent) : Ruled table blocks site line (.ok .valid)
  | outside {row : Row} {parent : Text} (hasCode : line.hasCode = true)
      (decides : table.Decides line.masked row) (role : row.role = .dependent parent)
      (elsewhere : blocks.top? ≠ some parent) :
      Ruled table blocks site line (.error (.ofCause (.placement parent) row.keyword site
        ((line.masked.findWord? row.keyword).bind line.locate?)))
  | misuse {kind : Misuse} {mark : Char} {earlier later : List (Misuse × Char)}
      {before word after : Text} (hasCode : line.hasCode = true)
      (noRow : ∀ row ∈ table.rows, row.fits line.masked = false)
      (order : Misuse.marks = earlier ++ (kind, mark) :: later)
      (noneEarlier : ∀ entry ∈ earlier, Text.NoneMarked table.keywords entry.2 line.masked)
      (isFirst : Text.IsFirstMarked table.keywords mark line.masked before word after) :
      Ruled table blocks site line (.error (.ofCause (.misuse kind) word site
        (line.locate? before.bytes)))
  | free (hasCode : line.hasCode = true) (noRow : ∀ row ∈ table.rows, row.fits line.masked = false)
      (noMisuse : ∀ entry ∈ Misuse.marks, Text.NoneMarked table.keywords entry.2 line.masked) :
      Ruled table blocks site line (.ok .valid)

section Accepted

variable {table : Table} (wellFormed : table.WellFormed)

include wellFormed

/-- No keyword is misused in one of some ways exactly if none has one of their marks behind it. -/
theorem forall_misused?_eq_none_iff {entries : List (Misuse × Char)} (known : entries ⊆ Misuse.marks)
    (code : Text) :
    (∀ entry ∈ entries, table.misused? code entry.1 = none) ↔
      ∀ entry ∈ entries, Text.NoneMarked table.keywords entry.2 code := by
  have each (entry : Misuse × Char) (member : entry ∈ entries) :
      table.misused? code entry.1 = none ↔ Text.NoneMarked table.keywords entry.2 code := by
    rw [misused?_eq_none_iff wellFormed, Misuse.mark_of_mem_marks (known member)]
  exact forall₂_congr each

theorem ruled_judge (blocks : Blocks) (file : Text) (number : Nat) (line : Line) :
    table.Ruled blocks { file, line := number, text := line.text } line
      (table.judge blocks file number line) := by
  rw [judge]
  split
  next blank =>
    have noCode : line.hasCode = false := by
      rw [← Bool.not_eq_true', ← Line.allBlank_masked]
      exact blank
    exact .skipped noCode
  next visible =>
    have hasCode : line.hasCode = true := by
      rw [← Bool.not_eq_false', ← Line.allBlank_masked]
      exact eq_false_of_ne_true visible
    split
    next row found =>
      have decides := (find?_fits_eq_some_iff table line.masked row).mp found
      split
      next role => exact .plain hasCode decides role
      next role => exact .opener hasCode decides role
      next parent role =>
        split
        next innermost => exact .inside hasCode decides role innermost
        next elsewhere => exact .outside hasCode decides role elsewhere
    next notFound =>
      have noRow := (find?_fits_eq_none_iff table line.masked).mp notFound
      split
      next noMisuse =>
        have noneMarked := (forall_misused?_eq_none_iff wellFormed (List.Subset.refl Misuse.marks)
          line.masked).mp ((firstMisuse?_eq_none_iff table line.masked).mp noMisuse)
        exact .free hasCode noRow noneMarked
      next kind hit found =>
        obtain ⟨misuse, earlier, mark, later, order, noneEarlier⟩ :=
          (firstMisuse?_eq_some_iff table line.masked kind hit).mp found
        obtain ⟨before, after, isFirst, offset⟩ := isFirstMarked_of_misused? wellFormed misuse
        have noneMarked := (forall_misused?_eq_none_iff wellFormed
          (order ▸ List.subset_append_left _ _) line.masked).mp noneEarlier
        have sameMark : kind.mark = mark := Misuse.mark_of_mem_marks (by simp [order])
        rw [offset]
        rw [sameMark] at isFirst
        exact .misuse hasCode noRow order noneMarked isFirst

theorem judge_of_ruled {blocks : Blocks} {file : Text} {number : Nat} {line : Line}
    {result : Except Diagnostic Verdict}
    (ruled : table.Ruled blocks { file, line := number, text := line.text } line result) :
    table.judge blocks file number line = result := by
  have blank : (Mask.ofCode line.code).text.allBlank = !line.hasCode := line.allBlank_masked
  have found {row : Row} (decides : table.Decides line.masked row) :
      table.rows.find? (fun row => row.fits (Mask.ofCode line.code).text) = some row :=
    (find?_fits_eq_some_iff table line.masked row).mpr decides
  have notFound (noRow : ∀ row ∈ table.rows, row.fits line.masked = false) :
      table.rows.find? (fun row => row.fits (Mask.ofCode line.code).text) = none :=
    (find?_fits_eq_none_iff table line.masked).mpr noRow
  cases ruled with
  | skipped noCode => simp [judge, blank, noCode]
  | opener hasCode decides role => simp [judge, blank, hasCode, found decides, role]
  | plain hasCode decides role => simp [judge, blank, hasCode, found decides, role]
  | inside hasCode decides role innermost =>
      simp [judge, blank, hasCode, found decides, role, innermost]
  | outside hasCode decides role elsewhere =>
      simp [judge, blank, hasCode, found decides, role, elsewhere]
      rfl
  | @misuse kind mark earlier later before word after hasCode noRow order noneEarlier isFirst =>
      have sameMark : kind.mark = mark := Misuse.mark_of_mem_marks (by simp [order])
      rw [← sameMark] at isFirst
      obtain ⟨hit, misuse, sameWord, offset⟩ := exists_misused?_of_isFirstMarked wellFormed isFirst
      have none := (forall_misused?_eq_none_iff wellFormed
        (order ▸ List.subset_append_left _ _) line.masked).mpr noneEarlier
      have first : table.firstMisuse? (Mask.ofCode line.code).text = some (kind, hit) :=
        (firstMisuse?_eq_some_iff ..).mpr ⟨misuse, earlier, mark, later, order, none⟩
      simp [judge, blank, hasCode, notFound noRow, first, sameWord, offset]
      rfl
  | free hasCode noRow noMisuse =>
      have none : table.firstMisuse? (Mask.ofCode line.code).text = none :=
        (firstMisuse?_eq_none_iff ..).mpr ((forall_misused?_eq_none_iff wellFormed
          (List.Subset.refl Misuse.marks) line.masked).mpr noMisuse)
      simp [judge, blank, hasCode, notFound noRow, none]

end Accepted

/-- A line is judged by the rules and by nothing else. -/
theorem judge_eq_iff_ruled {read? : Text → Option Pattern} {rules : List Rule} {table : Table}
    (accepted : ofRules read? rules = .ok table)
    (blocks : Blocks) (file : Text) (number : Nat) (line : Line) (result : Except Diagnostic Verdict) :
    table.judge blocks file number line = result ↔
      table.Ruled blocks { file, line := number, text := line.text } line result := by
  have wellFormed := wellFormed_of_ofRules accepted
  constructor
  · rintro rfl
    exact ruled_judge wellFormed blocks file number line
  · exact judge_of_ruled wellFormed

/-- The `lock` behind the dollar sign is no keyword, and a keyword taken for a variable counts before one
to its left that is taken for a function. -/
theorem builtin_judges_by_rules_behind_dollar_sign :
    ofRules Pattern.read? builtinRules = .ok builtin ∧
      (Line.read "a$lock = lock(free = 1".toList false).masked = "a$lock = lock(free = 1".toList ∧
      builtin.Ruled .empty { file := "a".toList, line := 1, text := "a$lock = lock(free = 1".toList }
        (Line.read "a$lock = lock(free = 1".toList false)
        (.error (.ofCause (.misuse .variable) "free".toList
          { file := "a".toList, line := 1, text := "a$lock = lock(free = 1".toList } (some 14))) := by
  have judged : builtin.judge .empty "a".toList 1 (Line.read "a$lock = lock(free = 1".toList false) =
      .error (.ofCause (.misuse .variable) "free".toList
        { file := "a".toList, line := 1, text := "a$lock = lock(free = 1".toList } (some 14)) :=
    eq_error_of_match (by decide +kernel)
  exact ⟨ofRules_builtinRules, by decide +kernel,
    (judge_eq_iff_ruled ofRules_builtinRules ..).mp judged⟩

end Table

end Dialect
