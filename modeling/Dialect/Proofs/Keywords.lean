import Dialect.Proofs.Lexeme
import Dialect.Proofs.Search
import Dialect.Table.Replacement

/-!
# Keywords in a text

A search for keywords cuts a text at word boundaries, and these know nothing of the dollar sign; hits
that do not stand alone are put back. What remains are the maximal runs of identifier characters that
are keywords. Main statements: replacing keywords rewrites the lexemes of a text one by one
(`Table.replaceWords_eq`), it replaces the listed keywords at their places and nothing else
(`Table.replaces_replaced`), and the keywords that are replaced are the ones that stand alone
(`Table.replaced_eq`, `Table.standalone_eq`).
-/

namespace Dialect

/-- A character that stays, or a keyword that stands alone at a byte offset. -/
inductive Cell where
  | char (c : Char)
  | keyword (offset : Nat) (word : Text)
  deriving DecidableEq, Repr

namespace Cell

/-- A keyword with its place. -/
def keyword? : Cell → Option (Nat × Text)
  | .char _ => none
  | .keyword offset word => some (offset, word)

/-- The cells of a lexeme at a byte offset. -/
def ofLexeme (words : List Text) (offset : Nat) : Lexeme → List Cell
  | .word content =>
      if words.contains content then [.keyword offset content] else content.map .char
  | lexeme => lexeme.text.map .char

/-- The cells of lexemes of which the first is at a byte offset. -/
def ofLexemes (words : List Text) (offset : Nat) (lexemes : List Lexeme) : List Cell :=
  (Lexeme.located offset lexemes).flatMap fun (place, lexeme) => ofLexeme words place lexeme

theorem ofLexemes_cons (words : List Text) (offset : Nat) (lexeme : Lexeme)
    (lexemes : List Lexeme) :
    ofLexemes words offset (lexeme :: lexemes) =
      ofLexeme words offset lexeme ++ ofLexemes words (offset + lexeme.text.bytes) lexemes := rfl

/-- The cells of the text behind a character: a word that has begun before it is no keyword. -/
def behind (words : List Text) (before : Option Char) (offset : Nat) (after : Text) : List Cell :=
  if before.any isIdentifierChar then
    (after.takeWhile isIdentifierChar).map .char ++
      ofLexemes words (offset + Text.bytes (after.takeWhile isIdentifierChar))
        (Lexeme.ofText (after.dropWhile isIdentifierChar))
  else ofLexemes words offset (Lexeme.ofText after)

/-- A character is passed over unless a keyword starts with it. -/
theorem behind_cons {words : List Text} {before : Option Char} {c : Char} {rest : Text}
    (offset : Nat)
    (noKeyword : before.any isIdentifierChar = false → isIdentifierChar c = true →
      c :: rest.takeWhile isIdentifierChar ∉ words) :
    behind words before offset (c :: rest) =
      .char c :: behind words (some c) (offset + c.utf8Size) rest := by
  cases identifier : isIdentifierChar c with
  | false =>
      have head : (c :: rest).head?.any isIdentifierChar = false := by simpa using identifier
      have lexemes : ofLexemes words offset (Lexeme.ofText (c :: rest)) =
          .char c :: ofLexemes words (offset + c.utf8Size) (Lexeme.ofText rest) := by
        rw [Lexeme.ofText_cons_separator rest identifier, ofLexemes_cons]
        rfl
      have passed : behind words (some c) (offset + c.utf8Size) rest =
          ofLexemes words (offset + c.utf8Size) (Lexeme.ofText rest) := by
        rw [behind, Option.any_some, identifier]
        rfl
      rw [passed, ← lexemes, behind, Text.takeWhile_eq_nil head, Text.dropWhile_eq_self head]
      split <;> rfl
  | true =>
      have passed : behind words (some c) (offset + c.utf8Size) rest =
          (rest.takeWhile isIdentifierChar).map .char ++
            ofLexemes words (offset + c.utf8Size + Text.bytes (rest.takeWhile isIdentifierChar))
              (Lexeme.ofText (rest.dropWhile isIdentifierChar)) := by
        rw [behind, Option.any_some, identifier]
        rfl
      rw [passed, behind, List.takeWhile_cons, List.dropWhile_cons, identifier]
      cases inside : before.any isIdentifierChar with
      | true => simp [Nat.add_assoc]
      | false =>
          have absent := noKeyword inside identifier
          rw [Lexeme.ofText_cons_identifier rest identifier, ofLexemes_cons]
          simp [ofLexeme, absent, Nat.add_assoc]

/-- A run of identifier characters is passed over unless it belongs to a keyword. -/
theorem behind_run {words : List Text} {before : Option Char} {run rest : Text} (offset : Nat)
    (nonempty : run ≠ []) (identifier : ∀ c ∈ run, isIdentifierChar c = true)
    (noKeyword : before.any isIdentifierChar = false →
      run ++ rest.takeWhile isIdentifierChar ∉ words) :
    behind words before offset (run ++ rest) =
      run.map .char ++ behind words run.getLast? (offset + run.bytes) rest := by
  induction run generalizing before offset with
  | nil => exact absurd rfl nonempty
  | cons c others inductionHypothesis =>
      have first : isIdentifierChar c = true := identifier c List.mem_cons_self
      have othersIdentifier : ∀ d ∈ others, isIdentifierChar d = true :=
        fun d member => identifier d (List.mem_cons_of_mem c member)
      have firstStep : behind words before offset (c :: (others ++ rest)) =
          .char c :: behind words (some c) (offset + c.utf8Size) (others ++ rest) := by
        apply behind_cons
        intro separated _
        rw [List.takeWhile_append_of_pos othersIdentifier]
        exact noKeyword separated
      rw [List.cons_append, firstStep]
      cases others with
      | nil => simp
      | cons d more =>
          have inside : (some c).any isIdentifierChar = false → (d :: more) ++
              rest.takeWhile isIdentifierChar ∉ words := by
            intro separated
            rw [Option.any_some, first] at separated
            exact absurd separated (by decide)
          rw [inductionHypothesis _ (List.cons_ne_nil d more) othersIdentifier inside]
          simp [Nat.add_assoc]

/-- A keyword that stands alone is a cell of its own. -/
theorem behind_keyword {words : List Text} {before : Option Char} {word rest : Text} (offset : Nat)
    (member : word ∈ words) (nonempty : word ≠ [])
    (identifier : ∀ c ∈ word, isIdentifierChar c = true)
    (alone : Text.standsBetween before rest.head? = true) :
    behind words before offset (word ++ rest) =
      .keyword offset word :: behind words word.getLast? (offset + word.bytes) rest := by
  obtain ⟨separatedBefore, separatedAfter⟩ := (Text.standsBetween_iff ..).mp alone
  have lastIdentifier : word.getLast?.any isIdentifierChar = true := by
    rw [List.getLast?_eq_some_getLast nonempty, Option.any_some]
    exact identifier _ (List.getLast_mem nonempty)
  rw [behind, separatedBefore, Lexeme.ofText_run nonempty identifier separatedAfter, behind,
    lastIdentifier, Text.takeWhile_eq_nil separatedAfter, Text.dropWhile_eq_self separatedAfter]
  simp [ofLexemes_cons, ofLexeme, member]

end Cell

namespace Segment

/-- The cells of a segment. A hit that does not stand alone is text like any other. -/
def cells : Segment → List Cell
  | .char c => [.char c]
  | .found hit =>
      if hit.standsAlone then .keyword hit.offset hit.word :: hit.trail.map .char
      else (hit.word ++ hit.trail).map .char

end Segment

namespace Pattern

open Cursor

/-- A hit without a trail ends where its word does. -/
private theorem untrailed_of_hitAt? {length : Nat} {word : Pattern} {before after : Text}
    (enough : (before ++ after).length ≤ length) {hit : Hit} {stop : Cursor}
    (found : hitAt? length word .empty (between before after) = some (hit, stop)) :
    ∃ rest, after = hit.word ++ rest ∧ stop = between (before ++ hit.word) rest ∧
      hit.trail = [] ∧ hit.offset = before.bytes ∧ hit.before = before.getLast? ∧
      hit.after = rest.head? := by
  obtain ⟨rest, afterEquality, _, trailMatched, offset, left, right, trail⟩ :=
    hitAt?_eq_some enough found
  have stopEquality : between (before ++ hit.word) rest = stop := trailMatched
  have noTrail : hit.trail = [] := by
    rw [trail, ← stopEquality]
    simp [upTo]
  exact ⟨rest, afterEquality, stopEquality.symm, noTrail, offset, left, right⟩

theorem between_of_next? {before rest : Text} {c d : Char} {next : Cursor}
    (step : (between before (c :: rest)).next? = some (d, next)) :
    c = d ∧ between (before ++ [c]) rest = next := by
  rw [next?_between_cons] at step
  exact Prod.mk.inj (Option.some.inj step)

section Words

variable {words : List Text} (identifiers : ∀ word ∈ words, word.isIdentifier = true)

include identifiers

/-- No keyword starts where nothing was found. -/
private theorem absent_of_no_hit {length : Nat} {before rest : Text} {c : Char}
    (enough : (before ++ c :: rest).length ≤ length)
    (noHit : hitAt? length (wordAmong words) .empty (between before (c :: rest)) = none) :
    before.getLast?.any isIdentifierChar = false → isIdentifierChar c = true →
      c :: rest.takeWhile isIdentifierChar ∉ words := by
  intro separated _ member
  rw [← Text.run_append c rest] at enough noHit
  rw [hitAt?_of_mem_words identifiers enough member (any_isWordChar_eq_false separated)
    (any_isWordChar_eq_false (Text.any_head?_dropWhile rest))] at noHit
  simp at noHit

/-- A word that is found but does not stand alone belongs to no keyword: it goes on with a dollar
sign, or one stands before it. -/
private theorem absent_of_not_alone {before : Option Char} {word rest : Text}
    (closing : rest.head?.any isWordChar = false)
    (glued : Text.standsBetween before rest.head? = false) :
    before.any isIdentifierChar = false →
      word ++ rest.takeWhile isIdentifierChar ∉ words := by
  intro separated member
  have continued : rest.head?.any isIdentifierChar = true := by
    cases after : rest.head?.any isIdentifierChar with
    | true => rfl
    | false =>
        have alone := (Text.standsBetween_iff before rest.head?).mpr ⟨separated, after⟩
        rw [alone] at glued
        exact absurd glued (by decide)
  cases rest with
  | nil => simp at continued
  | cons d others =>
      rw [List.head?_cons, Option.any_some] at continued closing
      have inRun : d ∈ word ++ (d :: others).takeWhile isIdentifierChar := by
        rw [List.takeWhile_cons, if_pos continued]
        simp
      have wordChar := Text.isWordChar_of_isIdentifier (identifiers _ member) d inRun
      rw [wordChar] at closing
      exact absurd closing (by decide)

/-- A word that is found and the text behind it, cut into cells. -/
private theorem cells_append_behind {before rest : Text} {hit : Hit} (inWords : hit.word ∈ words)
    (noTrail : hit.trail = []) (offset : hit.offset = before.bytes)
    (left : hit.before = before.getLast?) (right : hit.after = rest.head?)
    (closing : rest.head?.any isWordChar = false) :
    (Segment.found hit).cells ++
        Cell.behind words (before ++ hit.word).getLast? (before ++ hit.word).bytes rest =
      Cell.behind words before.getLast? before.bytes (hit.word ++ rest) := by
  have nonempty := Text.ne_nil_of_isIdentifier (identifiers _ inWords)
  have identifier := Text.isIdentifierChar_of_isIdentifier (identifiers _ inWords)
  have last : (before ++ hit.word).getLast? = hit.word.getLast? := by
    rw [List.getLast?_append, List.getLast?_eq_some_getLast nonempty, Option.some_or]
  rw [last, Text.bytes_append, Segment.cells, noTrail, offset]
  cases alone : hit.standsAlone with
  | true =>
      rw [Hit.standsAlone, left, right] at alone
      rw [Cell.behind_keyword _ inWords nonempty identifier alone]
      rfl
  | false =>
      rw [Hit.standsAlone, left, right] at alone
      rw [Cell.behind_run _ nonempty identifier (absent_of_not_alone identifiers closing alone)]
      simp

private theorem cells_of_nothing {length : Nat} {before after : Text}
    (enough : (before ++ after).length ≤ length) {hit : Hit} {stop : Cursor}
    (found : hitAt? length (wordAmong words) .empty (between before after) = some (hit, stop))
    (nothing : hit.word = []) : words = [] ∧ (Segment.found hit).cells = [] := by
  obtain ⟨_, _, _, noTrail, _⟩ := untrailed_of_hitAt? enough found
  have noWords : words = [] := by
    rcases word_of_hitAt? identifiers enough found with ⟨_, inWords, _⟩ | ⟨empty, _, _⟩
    · exact absurd nothing (Text.ne_nil_of_isIdentifier (identifiers _ inWords))
    · exact empty
  have notAlone : hit.standsAlone = false := by
    cases alone : hit.standsAlone with
    | false => rfl
    | true =>
        have inWords := mem_words_of_hitAt? identifiers enough found alone
        exact absurd nothing (Text.ne_nil_of_isIdentifier (identifiers _ inWords))
  refine ⟨noWords, ?_⟩
  rw [Segment.cells, notAlone, nothing, noTrail]
  rfl

/-- A search cuts the text behind a position into the cells of its lexemes. The induction follows the
search; what it carries along is the character before the position, which says whether a word has
begun there. -/
theorem flatMap_cells_segmentsFrom {length : Nat} (before after : Text)
    (enough : (before ++ after).length ≤ length) :
    (segmentsFrom length (wordAmong words) .empty (between before after)).flatMap Segment.cells =
      Cell.behind words before.getLast? before.bytes after := by
  generalize position : between before after = cursor
  fun_induction segmentsFrom length (wordAmong words) .empty cursor generalizing before after with
  | case1 cursor noHit atEnd =>
      subst position
      cases after with
      | nil => simp [Cell.behind, Cell.ofLexemes, Lexeme.located]
      | cons c rest => simp at atEnd
  | case2 cursor noHit c next step inductionHypothesis =>
      subst position
      cases after with
      | nil => simp at step
      | cons d rest =>
          obtain ⟨rfl, nextEquality⟩ := between_of_next? step
          have later := inductionHypothesis (before ++ [d]) rest (by simpa using enough) nextEquality
          rw [List.flatMap_cons, later,
            Cell.behind_cons _ (absent_of_no_hit identifiers enough noHit)]
          simp [Segment.cells]
  | case3 cursor hit stop found shorter inductionHypothesis =>
      subst position
      obtain ⟨rest, rfl, rfl, noTrail, offset, left, right⟩ := untrailed_of_hitAt? enough found
      rcases word_of_hitAt? identifiers enough found with
        ⟨wordRest, inWords, restEquality, opening, closing⟩ | ⟨_, nothing, _⟩
      · obtain rfl : rest = wordRest := List.append_cancel_left restEquality
        have later := inductionHypothesis (before ++ hit.word) rest (by simpa using enough) rfl
        rw [List.flatMap_cons, later]
        exact cells_append_behind identifiers inWords noTrail offset left right closing
      · -- The empty word does not get ahead.
        simp [nothing] at shorter
  | case4 cursor hit stop found notShorter atEnd =>
      subst position
      obtain ⟨rest, afterEquality, _⟩ := untrailed_of_hitAt? enough found
      cases after with
      | cons c others => simp at atEnd
      | nil =>
          have nothing : hit.word = [] := (List.append_eq_nil_iff.mp afterEquality.symm).1
          obtain ⟨_, noCells⟩ := cells_of_nothing identifiers enough found nothing
          simp [noCells, Cell.behind, Cell.ofLexemes, Lexeme.located]
  | case5 cursor hit stop found notShorter c next step inductionHypothesis =>
      subst position
      obtain ⟨rest, afterEquality, rfl, _⟩ := untrailed_of_hitAt? enough found
      have nothing : hit.word = [] := by
        apply List.eq_nil_of_length_eq_zero
        rw [between_after, between_after, afterEquality, List.length_append] at notShorter
        omega
      obtain ⟨noWords, noCells⟩ := cells_of_nothing identifiers enough found nothing
      cases after with
      | nil => simp at step
      | cons d others =>
          obtain ⟨rfl, nextEquality⟩ := between_of_next? step
          have later := inductionHypothesis (before ++ [d]) others (by simpa using enough)
            nextEquality
          rw [List.flatMap_cons, List.flatMap_cons, later, noCells,
            Cell.behind_cons _ (by simp [noWords])]
          simp [Segment.cells]

/-- A search cuts a text into the cells of its lexemes. -/
theorem flatMap_cells_segments (text : Text) :
    (segments (wordAmong words) .empty text).flatMap Segment.cells =
      Cell.ofLexemes words 0 (Lexeme.ofText text) :=
  flatMap_cells_segmentsFrom identifiers [] text (Nat.le_refl _)

end Words

end Pattern

namespace Table

/-! ## Replacing keywords -/

/-- What a lexeme is rewritten to: a keyword to its equivalent, and anything else to itself. -/
def rewriteLexeme (table : Table) : Lexeme → Text
  | .word content => table.equivalent content
  | lexeme => lexeme.text

/-- The text of rewritten lexemes. -/
def rewrittenText (table : Table) (lexemes : List Lexeme) : Text :=
  lexemes.flatMap table.rewriteLexeme

@[simp]
theorem rewrittenText_nil (table : Table) : table.rewrittenText [] = [] := rfl

@[simp]
theorem rewrittenText_comment (table : Table) (content : Text) (lexemes : List Lexeme) :
    table.rewrittenText (.comment content :: lexemes) = content ++ table.rewrittenText lexemes := rfl

@[simp]
theorem rewrittenText_literal (table : Table) (quoted : Text) (lexemes : List Lexeme) :
    table.rewrittenText (.literal quoted :: lexemes) = quoted ++ table.rewrittenText lexemes := rfl

@[simp]
theorem rewrittenText_word (table : Table) (content : Text) (lexemes : List Lexeme) :
    table.rewrittenText (.word content :: lexemes) =
      table.equivalent content ++ table.rewrittenText lexemes := rfl

@[simp]
theorem rewrittenText_other (table : Table) (c : Char) (lexemes : List Lexeme) :
    table.rewrittenText (.other c :: lexemes) = c :: table.rewrittenText lexemes := rfl

/-- A lexeme that is a keyword. -/
def keyword? (table : Table) : Lexeme → Option Text
  | .word content => if table.keywords.contains content then some content else none
  | _ => none

theorem keyword?_eq_some_iff (table : Table) (lexeme : Lexeme) (word : Text) :
    table.keyword? lexeme = some word ↔ lexeme = .word word ∧ word ∈ table.keywords := by
  cases lexeme with
  | word content =>
      rw [keyword?, List.contains_eq_mem]
      constructor
      · intro found
        split at found
        next member =>
          obtain rfl := Option.some.inj found
          exact ⟨rfl, of_decide_eq_true member⟩
        next => simp at found
      · intro found
        obtain ⟨equality, member⟩ := found
        obtain rfl := Lexeme.word.inj equality
        rw [if_pos (decide_eq_true member)]
  | comment content => simp [keyword?]
  | literal content => simp [keyword?]
  | other c => simp [keyword?]

theorem keyword?_word_of_not_mem (table : Table) {content : Text}
    (absent : content ∉ table.keywords) : table.keyword? (.word content) = none := by
  simp [keyword?, absent]

/-- The keywords among lexemes, with their places. -/
def keywordPlaces {α : Type} (table : Table) (lexemes : List (α × Lexeme)) : List (α × Text) :=
  lexemes.filterMap fun (place, lexeme) => (table.keyword? lexeme).map fun word => (place, word)

theorem keywordPlaces_cons_of_none {α : Type} {table : Table} {lexeme : Lexeme} (place : α)
    (lexemes : List (α × Lexeme)) (noKeyword : table.keyword? lexeme = none) :
    table.keywordPlaces ((place, lexeme) :: lexemes) = table.keywordPlaces lexemes := by
  exact List.filterMap_cons_none (by simp [noKeyword])

theorem keywordPlaces_cons_of_some {α : Type} {table : Table} {lexeme : Lexeme} {word : Text}
    (place : α) (lexemes : List (α × Lexeme)) (isKeyword : table.keyword? lexeme = some word) :
    table.keywordPlaces ((place, lexeme) :: lexemes) =
      (place, word) :: table.keywordPlaces lexemes := by
  exact List.filterMap_cons_some (by simp [isKeyword])

theorem keywordPlaces_append {α : Type} (table : Table) (left right : List (α × Lexeme)) :
    table.keywordPlaces (left ++ right) = table.keywordPlaces left ++ table.keywordPlaces right :=
  List.filterMap_append

theorem keywordPlaces_map {α β : Type} (table : Table) (move : α → β) (lexemes : List (α × Lexeme)) :
    table.keywordPlaces (lexemes.map (Prod.map move id)) =
      (table.keywordPlaces lexemes).map (Prod.map move id) := by
  induction lexemes with
  | nil => rfl
  | cons entry others inductionHypothesis =>
      obtain ⟨place, lexeme⟩ := entry
      rw [List.map_cons, Prod.map_apply, id]
      cases isKeyword : table.keyword? lexeme with
      | none =>
          rw [keywordPlaces_cons_of_none _ _ isKeyword, keywordPlaces_cons_of_none _ _ isKeyword,
            inductionHypothesis]
      | some word =>
          rw [keywordPlaces_cons_of_some _ _ isKeyword, keywordPlaces_cons_of_some _ _ isKeyword,
            inductionHypothesis]
          rfl

theorem mem_keywordPlaces_iff {α : Type} {table : Table} {lexemes : List (α × Lexeme)} {place : α}
    {word : Text} :
    (place, word) ∈ table.keywordPlaces lexemes ↔
      (place, .word word) ∈ lexemes ∧ word ∈ table.keywords := by
  rw [keywordPlaces, List.mem_filterMap]
  constructor
  · intro found
    obtain ⟨⟨other, lexeme⟩, member, mapped⟩ := found
    obtain ⟨content, isKeyword, equality⟩ := Option.map_eq_some_iff.mp mapped
    obtain ⟨rfl, rfl⟩ := Prod.mk.inj equality
    obtain ⟨rfl, inKeywords⟩ := (table.keyword?_eq_some_iff lexeme content).mp isKeyword
    exact ⟨member, inKeywords⟩
  · intro found
    have isKeyword := (table.keyword?_eq_some_iff (.word word) word).mpr ⟨rfl, found.2⟩
    exact ⟨(place, .word word), found.1, by simp [isKeyword]⟩

theorem row?_eq_none_iff (table : Table) (word : Text) :
    table.row? word = none ↔ word ∉ table.keywords := by
  rw [row?, List.find?_eq_none, keywords, List.mem_map]
  constructor
  · intro absent member
    obtain ⟨row, inRows, equality⟩ := member
    exact absent row inRows (by simpa using equality)
  · intro absent row inRows equality
    exact absent ⟨row, inRows, by simpa using equality⟩

theorem equivalent_of_not_mem {table : Table} {word : Text} (absent : word ∉ table.keywords) :
    table.equivalent word = word := by
  rw [equivalent, (table.row?_eq_none_iff word).mpr absent]

theorem not_mem_rewriteLexeme {table : Table} {c : Char}
    (foreign : ∀ row ∈ table.rows, c ∉ row.equivalent) {lexeme : Lexeme}
    (absent : c ∉ lexeme.text) : c ∉ table.rewriteLexeme lexeme := by
  cases lexeme with
  | word content =>
      rw [rewriteLexeme, equivalent]
      cases found : table.row? content with
      | none => exact absent
      | some row => exact foreign row (List.mem_of_find?_eq_some found)
  | comment content => exact absent
  | literal content => exact absent
  | other d => exact absent

theorem not_mem_rewrittenText {table : Table} {c : Char}
    (foreign : ∀ row ∈ table.rows, c ∉ row.equivalent) {lexemes : List Lexeme}
    (absent : c ∉ lexemes.flatMap Lexeme.text) : c ∉ table.rewrittenText lexemes := by
  intro member
  obtain ⟨lexeme, inLexemes, inRewritten⟩ := List.mem_flatMap.mp member
  refine not_mem_rewriteLexeme foreign ?_ inRewritten
  exact fun inText => absent (List.mem_flatMap_of_mem inLexemes inText)

/-- What a cell is rewritten to. -/
def rewriteCell (table : Table) : Cell → Text
  | .char c => [c]
  | .keyword _ word => table.equivalent word

theorem flatMap_rewriteCell_char (table : Table) (text : Text) :
    (text.map Cell.char).flatMap table.rewriteCell = text := by
  rw [List.flatMap_map]
  exact List.flatMap_singleton' text

theorem flatMap_rewriteCell_cells (table : Table) (segment : Segment) :
    segment.cells.flatMap table.rewriteCell = table.replaceSegment segment := by
  cases segment with
  | char c => rfl
  | found hit =>
      rw [Segment.cells, replaceSegment]
      split
      · rw [List.flatMap_cons, flatMap_rewriteCell_char]
        rfl
      · rw [flatMap_rewriteCell_char]

theorem flatMap_rewriteCell_ofLexeme (table : Table) (offset : Nat) (lexeme : Lexeme) :
    (Cell.ofLexeme table.keywords offset lexeme).flatMap table.rewriteCell =
      table.rewriteLexeme lexeme := by
  cases lexeme with
  | word content =>
      by_cases member : content ∈ table.keywords
      · simp [Cell.ofLexeme, member, rewriteCell, rewriteLexeme]
      · rw [Cell.ofLexeme, if_neg (by simpa using member), flatMap_rewriteCell_char, rewriteLexeme,
          equivalent_of_not_mem member]
  | comment content => exact table.flatMap_rewriteCell_char content
  | literal content => exact table.flatMap_rewriteCell_char content
  | other c => rfl

theorem flatMap_rewriteCell_ofLexemes (table : Table) (offset : Nat) (lexemes : List Lexeme) :
    (Cell.ofLexemes table.keywords offset lexemes).flatMap table.rewriteCell =
      lexemes.flatMap table.rewriteLexeme := by
  induction lexemes generalizing offset with
  | nil => rfl
  | cons lexeme others inductionHypothesis =>
      rw [Cell.ofLexemes_cons, List.flatMap_append, flatMap_rewriteCell_ofLexeme,
        inductionHypothesis, List.flatMap_cons]

theorem filterMap_keyword?_char (text : Text) :
    (text.map Cell.char).filterMap Cell.keyword? = [] := by
  rw [List.filterMap_map]
  exact List.filterMap_eq_nil_iff.mpr fun _ _ => rfl

theorem filterMap_keyword?_ofLexemes (table : Table) (offset : Nat) (lexemes : List Lexeme) :
    (Cell.ofLexemes table.keywords offset lexemes).filterMap Cell.keyword? =
      table.keywordPlaces (Lexeme.located offset lexemes) := by
  have single (offset : Nat) (lexeme : Lexeme) :
      (Cell.ofLexeme table.keywords offset lexeme).filterMap Cell.keyword? =
        table.keywordPlaces [(offset, lexeme)] := by
    cases lexeme with
    | word content =>
        by_cases member : content ∈ table.keywords
        · simp [Cell.ofLexeme, member, Cell.keyword?, keywordPlaces, keyword?]
        · rw [Cell.ofLexeme, if_neg (by simpa using member), filterMap_keyword?_char]
          simp [keywordPlaces, keyword?, member]
    | comment content => exact filterMap_keyword?_char content
    | literal content => exact filterMap_keyword?_char content
    | other c => rfl
  induction lexemes generalizing offset with
  | nil => rfl
  | cons lexeme others inductionHypothesis =>
      rw [Cell.ofLexemes_cons, List.filterMap_append, inductionHypothesis, single, Lexeme.located,
        keywordPlaces, keywordPlaces, keywordPlaces, ← List.filterMap_append, List.singleton_append]

/-- The keywords that replacing takes away from a text, with their byte offsets. -/
def replaced (table : Table) (text : Text) : List (Nat × Text) :=
  let hits := (Pattern.segments table.keywordPattern .empty text).filterMap Segment.hit?
  (hits.filter fun hit => hit.standsAlone && (table.row? hit.word).isSome).map fun hit =>
    (hit.offset, hit.word)

/-- Of the rest of a text that starts at a byte offset, the words at the listed places are replaced by
their equivalents, and what lies between them is kept. -/
inductive Replaces (table : Table) : Nat → List (Nat × Text) → Text → Text → Prop
  | kept (offset : Nat) (rest : Text) : Replaces table offset [] rest rest
  | word {offset : Nat} {places : List (Nat × Text)} (gap word : Text) {rest result : Text} :
      Replaces table (offset + gap.bytes + word.bytes) places rest result →
      Replaces table offset ((offset + gap.bytes, word) :: places) (gap ++ (word ++ rest))
        (gap ++ (table.equivalent word ++ result))

theorem Replaces.append_left {table : Table} {offset : Nat} (gap : Text)
    {places : List (Nat × Text)} {rest result : Text}
    (replaces : table.Replaces (offset + gap.bytes) places rest result) :
    table.Replaces offset places (gap ++ rest) (gap ++ result) := by
  cases replaces with
  | kept => exact .kept offset (gap ++ rest)
  | word second word others =>
      rw [Nat.add_assoc offset, ← Text.bytes_append] at others ⊢
      rw [← List.append_assoc gap, ← List.append_assoc gap]
      exact .word (gap ++ second) word others

theorem replaces_keywordPlaces (table : Table) (offset : Nat) (lexemes : List Lexeme) :
    table.Replaces offset (table.keywordPlaces (Lexeme.located offset lexemes))
      (lexemes.flatMap Lexeme.text) (lexemes.flatMap table.rewriteLexeme) := by
  induction lexemes generalizing offset with
  | nil => exact .kept offset []
  | cons lexeme lexemes inductionHypothesis =>
      have others := inductionHypothesis (offset + lexeme.text.bytes)
      rw [Lexeme.located, List.flatMap_cons, List.flatMap_cons]
      cases isKeyword : table.keyword? lexeme with
      | some word =>
          rw [keywordPlaces_cons_of_some _ _ isKeyword]
          obtain ⟨rfl, _⟩ := (keyword?_eq_some_iff table lexeme word).mp isKeyword
          exact .word [] word others
      | none =>
          have kept : table.rewriteLexeme lexeme = lexeme.text := by
            cases lexeme with
            | word content =>
                have absent : content ∉ table.keywords := fun member => by
                  simp [keyword?, member] at isKeyword
                exact equivalent_of_not_mem absent
            | comment content => rfl
            | literal content => rfl
            | other c => rfl
          rw [keywordPlaces_cons_of_none _ _ isKeyword, kept]
          exact others.append_left lexeme.text

/-- The words that stand alone in the rest of a text, with their byte offsets, given the character
before the rest and the byte offset at which it starts. -/
def standaloneFrom (words : List Text) : Option Char → Nat → Text → List (Nat × Text)
  | _, _, [] => []
  | before, offset, c :: rest =>
      let here := words.filter fun word =>
        word.isPrefixOf (c :: rest) &&
          Text.standsBetween before ((c :: rest).drop word.length).head?
      here.map (fun word => (offset, word)) ++
        standaloneFrom words (some c) (offset + c.utf8Size) rest

/-- The keywords that stand alone in a text, with their byte offsets. -/
def standalone (table : Table) (text : Text) : List (Nat × Text) :=
  standaloneFrom table.keywords none 0 text

private theorem filter_eq_singleton {words : List Text} (distinct : words.Nodup) {word : Text}
    (member : word ∈ words) {kept : Text → Bool} (keeps : kept word = true)
    (only : ∀ other ∈ words, kept other = true → other = word) : words.filter kept = [word] := by
  induction words with
  | nil => simp at member
  | cons first others inductionHypothesis =>
      obtain ⟨firstAbsent, othersDistinct⟩ := List.nodup_cons.mp distinct
      have onlyOthers : ∀ other ∈ others, kept other = true → other = word :=
        fun other inOthers => only other (List.mem_cons_of_mem first inOthers)
      rcases List.mem_cons.mp member with atHead | inOthers
      · subst atHead
        have noOther : others.filter kept = [] := by
          apply List.filter_eq_nil_iff.mpr
          intro other inOthers keptOther
          exact firstAbsent (onlyOthers other inOthers keptOther ▸ inOthers)
        rw [List.filter_cons_of_pos keeps, noOther]
      · have notKept : ¬kept first = true := by
          intro keptFirst
          have equality := only first List.mem_cons_self keptFirst
          exact firstAbsent (equality ▸ inOthers)
        rw [List.filter_cons_of_neg notKept]
        exact inductionHypothesis othersDistinct inOthers onlyOthers

/-- Of words of identifier characters only the maximal run can stand alone at a position. -/
private theorem eq_run_of_standsBetween {words : List Text}
    (identifiers : ∀ word ∈ words, word.isIdentifier = true) {before : Option Char} {word : Text}
    {c : Char} {rest : Text} (member : word ∈ words) (starts : word.isPrefixOf (c :: rest) = true)
    (alone : Text.standsBetween before ((c :: rest).drop word.length).head? = true) :
    before.any isIdentifierChar = false ∧ isIdentifierChar c = true ∧
      word = c :: rest.takeWhile isIdentifierChar := by
  obtain ⟨separatedBefore, separatedAfter⟩ := (Text.standsBetween_iff ..).mp alone
  obtain ⟨after, joined⟩ := List.isPrefixOf_iff_prefix.mp starts
  have identifier := Text.isIdentifierChar_of_isIdentifier (identifiers word member)
  have nonempty := Text.ne_nil_of_isIdentifier (identifiers word member)
  rw [← joined, List.drop_left] at separatedAfter
  have first : isIdentifierChar c = true := by
    obtain ⟨d, others, rfl⟩ := List.exists_cons_of_ne_nil nonempty
    obtain rfl : d = c := (List.cons.inj joined).1
    exact identifier d List.mem_cons_self
  refine ⟨separatedBefore, first, ?_⟩
  have run := Text.takeWhile_run identifier separatedAfter
  rw [joined, List.takeWhile_cons, if_pos first] at run
  exact run.symm

private theorem filter_standing_eq {words : List Text}
    (identifiers : ∀ word ∈ words, word.isIdentifier = true) (distinct : words.Nodup)
    {before : Option Char} {c : Char} {rest : Text}
    (separated : before.any isIdentifierChar = false)
    (member : c :: rest.takeWhile isIdentifierChar ∈ words) :
    (words.filter fun word => word.isPrefixOf (c :: rest) &&
      Text.standsBetween before ((c :: rest).drop word.length).head?) =
        [c :: rest.takeWhile isIdentifierChar] := by
  have isPrefix : (c :: rest.takeWhile isIdentifierChar).isPrefixOf (c :: rest) = true :=
    List.isPrefixOf_iff_prefix.mpr ⟨_, Text.run_append c rest⟩
  have behindRun : (c :: rest).drop (c :: rest.takeWhile isIdentifierChar).length =
      rest.dropWhile isIdentifierChar := by
    conv => lhs; rw [← Text.run_append c rest]
    exact List.drop_left
  have alone : Text.standsBetween before (rest.dropWhile isIdentifierChar).head? = true :=
    (Text.standsBetween_iff ..).mpr ⟨separated, Text.any_head?_dropWhile rest⟩
  apply filter_eq_singleton distinct member
  · rw [isPrefix, behindRun, alone]
    rfl
  · intro word inWords found
    obtain ⟨wordPrefix, wordAlone⟩ := (Bool.and_eq_true _ _).mp found
    exact (eq_run_of_standsBetween identifiers inWords wordPrefix wordAlone).2.2

theorem standaloneFrom_eq {words : List Text}
    (identifiers : ∀ word ∈ words, word.isIdentifier = true) (distinct : words.Nodup)
    (before : Option Char) (offset : Nat) (text : Text) :
    standaloneFrom words before offset text =
      (Cell.behind words before offset text).filterMap Cell.keyword? := by
  induction text generalizing before offset with
  | nil =>
      rw [standaloneFrom, Cell.behind]
      split <;> rfl
  | cons c rest inductionHypothesis =>
      rw [standaloneFrom, inductionHypothesis]
      -- At most one keyword stands alone here: the maximal run, if a word can begin and it is one.
      by_cases starts : before.any isIdentifierChar = false ∧ isIdentifierChar c = true ∧
          c :: rest.takeWhile isIdentifierChar ∈ words
      · obtain ⟨separated, identifier, member⟩ := starts
        rw [filter_standing_eq identifiers distinct separated member, Cell.behind, Cell.behind,
          separated, Option.any_some, identifier, Lexeme.ofText_cons_identifier rest identifier,
          Cell.ofLexemes_cons]
        simp [filterMap_keyword?_char, Cell.ofLexeme, member, Cell.keyword?, Nat.add_assoc,
          -List.filterMap_map]
      · have nothingHere : (words.filter fun word => word.isPrefixOf (c :: rest) &&
            Text.standsBetween before ((c :: rest).drop word.length).head?) = [] := by
          apply List.filter_eq_nil_iff.mpr
          intro word member found
          obtain ⟨isPrefix, alone⟩ := (Bool.and_eq_true _ _).mp found
          obtain ⟨separated, identifier, equality⟩ :=
            eq_run_of_standsBetween identifiers member isPrefix alone
          exact starts ⟨separated, identifier, equality ▸ member⟩
        have passed : Cell.behind words before offset (c :: rest) =
            .char c :: Cell.behind words (some c) (offset + c.utf8Size) rest :=
          Cell.behind_cons offset fun separated identifier member =>
            starts ⟨separated, identifier, member⟩
        rw [nothingHere, passed]
        rfl

section Identifiers

variable {table : Table} (identifiers : ∀ word ∈ table.keywords, word.isIdentifier = true)

include identifiers

/-- Replacing keywords rewrites the lexemes of a text one by one. -/
theorem replaceWords_eq (text : Text) :
    table.replaceWords text = (Lexeme.ofText text).flatMap table.rewriteLexeme := by
  have perSegment (segments : List Segment) :
      segments.flatMap table.replaceSegment =
        (segments.flatMap Segment.cells).flatMap table.rewriteCell := by
    simp only [List.flatMap_assoc, flatMap_rewriteCell_cells]
  rw [replaceWords, perSegment, keywordPattern, Pattern.flatMap_cells_segments identifiers,
    flatMap_rewriteCell_ofLexemes]

/-- A hit that stands alone is a keyword. -/
theorem mem_keywords_of_mem_segments {trail : Pattern} {text : Text} {hit : Hit}
    (member : Segment.found hit ∈ Pattern.segments table.keywordPattern trail text)
    (alone : hit.standsAlone = true) : hit.IsIn text ∧ hit.word ∈ table.keywords := by
  obtain ⟨position, stop, ⟨before, after, rfl, rfl⟩, found⟩ :=
    Pattern.exists_hitAt?_of_mem_segmentsFrom (Nat.le_refl _) (Cursor.isIn_start text) member
  exact ⟨Pattern.isIn_of_hitAt? (Nat.le_refl _) found,
    Pattern.mem_words_of_hitAt? identifiers (Nat.le_refl _) found alone⟩

/-- The keywords that are replaced are the lexemes that are keywords. -/
theorem replaced_eq (text : Text) :
    table.replaced text = table.keywordPlaces (Lexeme.located 0 (Lexeme.ofText text)) := by
  rw [← filterMap_keyword?_ofLexemes, ← Pattern.flatMap_cells_segments identifiers, replaced]
  have known : ∀ hit, Segment.found hit ∈ Pattern.segments table.keywordPattern .empty text →
      hit.standsAlone = true → (table.row? hit.word).isSome = true := by
    intro hit member alone
    have inKeywords := (mem_keywords_of_mem_segments identifiers member alone).2
    rw [Option.isSome_iff_ne_none, ne_eq, row?_eq_none_iff]
    exact fun absent => absent inKeywords
  -- Only that hits are known matters from here on, not which search found them.
  rw [keywordPattern] at known ⊢
  generalize Pattern.segments (.wordAmong table.keywords) .empty text = segments at known
  induction segments with
  | nil => rfl
  | cons segment others inductionHypothesis =>
      have othersKnown := inductionHypothesis fun hit member =>
        known hit (List.mem_cons_of_mem segment member)
      rw [List.flatMap_cons, List.filterMap_append, ← othersKnown]
      cases segment with
      | char c => rfl
      | found hit =>
          cases alone : hit.standsAlone with
          | true =>
              have isKnown := known hit List.mem_cons_self alone
              simp [Segment.hit?, Segment.cells, alone, isKnown, Cell.keyword?]
          | false =>
              rw [Segment.cells, alone, if_neg (by decide), filterMap_keyword?_char]
              simp [Segment.hit?, alone]

/-- Replacing keywords replaces the ones that are listed as replaced, at their places, and keeps the rest
of the text. -/
theorem replaces_replaced (text : Text) :
    table.Replaces 0 (table.replaced text) text (table.replaceWords text) := by
  have replaces := replaces_keywordPlaces table 0 (Lexeme.ofText text)
  rwa [← replaced_eq identifiers, ← replaceWords_eq identifiers, Lexeme.flatMap_text_ofText]
    at replaces

/-- The keywords that stand alone are the lexemes that are keywords. -/
theorem standalone_eq (distinct : table.keywords.Nodup) (text : Text) :
    table.standalone text = table.keywordPlaces (Lexeme.located 0 (Lexeme.ofText text)) := by
  rw [standalone, standaloneFrom_eq identifiers distinct, ← filterMap_keyword?_ofLexemes]
  rfl

end Identifiers

end Table

end Dialect
