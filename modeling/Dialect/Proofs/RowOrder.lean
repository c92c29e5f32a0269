import Mathlib.Data.List.Find
import Mathlib.Data.List.Perm.Basic
import Mathlib.Data.List.Nodup
import Dialect.Compile
import Dialect.Proofs.Disguise
import Dialect.Proofs.Places
import Dialect.Proofs.RuleLists
import Dialect.Proofs.Steps

/-!
# The order of the rows

A table tries its contexts and its keywords in the order of its rows. For keywords this makes no
difference, because the stops of a pattern are listed by their places, whatever order its alternatives
have. For contexts it makes none if no code fits two rows, and so it is with the built-in table: the
first word of the code decides. Main statement: `Table.compile_of_perm_builtinRules`.
-/

namespace Dialect

namespace Pattern

open Cursor

/-! ## Patterns that match alike -/

section Alike

variable {word other : Pattern} (alike : ∀ cursor stop, word.Matches cursor stop ↔ other.Matches cursor stop)

include alike

theorem stops_congr {text : Text} {length : Nat} (enough : text.length ≤ length) {cursor : Cursor}
    (isIn : IsIn text cursor) : word.stops length [cursor] = other.stops length [cursor] := by
  have descending := (follows_stops enough word).descending (.singleton isIn)
  have otherDescending := (follows_stops enough other).descending (.singleton isIn)
  apply descending.eq_of_mem_iff otherDescending
  intro stop
  rw [mem_stops_singleton_iff enough word isIn, mem_stops_singleton_iff enough other isIn]
  exact alike cursor stop

theorem hitAt?_congr {text : Text} {length : Nat} (enough : text.length ≤ length) (trail : Pattern)
    {cursor : Cursor} (isIn : IsIn text cursor) :
    hitAt? length word trail cursor = hitAt? length other trail cursor := by
  rw [hitAt?, hitAt?, stops_congr alike enough isIn]

theorem segmentsFrom_congr {text : Text} {length : Nat} (enough : text.length ≤ length)
    (trail : Pattern) {cursor : Cursor} (isIn : IsIn text cursor) :
    segmentsFrom length word trail cursor = segmentsFrom length other trail cursor := by
  have sameHit {position : Cursor} (positionIsIn : IsIn text position) :
      hitAt? length word trail position = hitAt? length other trail position :=
    hitAt?_congr alike enough trail positionIsIn
  fun_induction segmentsFrom length word trail cursor with
  | case1 cursor noHit atEnd =>
      rw [segmentsFrom_eq, ← sameHit isIn, noHit, atEnd]
  | case2 cursor noHit c next step inductionHypothesis =>
      rw [segmentsFrom_eq _ other, ← sameHit isIn, noHit, step, inductionHypothesis (isIn.next step)]
  | case3 cursor hit stop found shorter inductionHypothesis =>
      rw [segmentsFrom_eq _ other, ← sameHit isIn, found,
        inductionHypothesis (isIn_stop_of_hitAt? enough isIn found)]
      exact (if_pos shorter).symm
  | case4 cursor hit stop found notShorter atEnd =>
      rw [segmentsFrom_eq, ← sameHit isIn, found, atEnd]
      exact (if_neg notShorter).symm
  | case5 cursor hit stop found notShorter c next step inductionHypothesis =>
      rw [segmentsFrom_eq _ other, ← sameHit isIn, found, step, inductionHypothesis (isIn.next step)]
      exact (if_neg notShorter).symm

theorem segments_congr (trail : Pattern) (text : Text) :
    segments word trail text = segments other trail text :=
  segmentsFrom_congr alike (Nat.le_refl _) trail (isIn_start text)

end Alike

theorem matches_wordAmong_congr {words others : List Text} (same : ∀ word, word ∈ words ↔ word ∈ others)
    (cursor stop : Cursor) :
    (wordAmong words).Matches cursor stop ↔ (wordAmong others).Matches cursor stop := by
  by_cases empty : words = []
  · have othersEmpty : others = [] := by
      apply List.eq_nil_iff_forall_not_mem.mpr
      intro word member
      have inWords := (same word).mpr member
      rw [empty] at inWords
      exact List.not_mem_nil inWords
    rw [empty, othersEmpty]
  · have othersNonempty : others ≠ [] := by
      obtain ⟨word, member⟩ := List.exists_mem_of_ne_nil words empty
      exact List.ne_nil_of_mem ((same word).mp member)
    simp only [wordAmong, matches_inOrder_cons_iff,
      matches_oneOf_iff (List.map_eq_nil_iff.not.mpr empty),
      matches_oneOf_iff (List.map_eq_nil_iff.not.mpr othersNonempty), List.mem_map, same]

end Pattern

theorem Lexeme.find?_isWord_of_separators {lead : Text}
    (separators : ∀ c ∈ lead, isIdentifierChar c = false) (rest : Text) :
    (ofText (lead ++ rest)).find? isWord = (ofText rest).find? isWord := by
  have noWord : (lead.map Lexeme.other).find? isWord = none := by
    rw [List.find?_map, Option.map_eq_none_iff, List.find?_eq_none]
    intro c _
    exact Bool.false_ne_true
  rw [ofText_separators separators, List.find?_append, noWord, Option.none_or]

namespace Table

/-! ## Tables with the same rows -/

/-- No code fits two rows. -/
def Exclusive (table : Table) : Prop :=
  ∀ code, ∀ row ∈ table.rows, ∀ other ∈ table.rows,
    row.fits code = true → other.fits code = true → row = other

section Reordered

variable {table other : Table} (wellFormed : table.WellFormed) (reordered : table.rows.Perm other.rows)

include reordered

theorem mem_keywords_iff_of_perm (word : Text) : word ∈ table.keywords ↔ word ∈ other.keywords :=
  (reordered.map Row.keyword).mem_iff

theorem segments_of_perm (trail : Pattern) (code : Text) :
    Pattern.segments table.keywordPattern trail code =
      Pattern.segments other.keywordPattern trail code :=
  Pattern.segments_congr
    (Pattern.matches_wordAmong_congr (mem_keywords_iff_of_perm reordered)) trail code

theorem firstMisuse?_of_perm (code : Text) : table.firstMisuse? code = other.firstMisuse? code := by
  simp only [firstMisuse?, misused?, segments_of_perm reordered]

theorem find?_fits_of_perm (exclusive : table.Exclusive) (code : Text) :
    table.rows.find? (fun row => row.fits code) = other.rows.find? fun row => row.fits code := by
  apply List.find?_eq_find?_of_perm reordered
  intro row rowFits second secondFits
  exact exclusive code row rowFits.1 second secondFits.1 rowFits.2 secondFits.2

theorem judge_of_perm (exclusive : table.Exclusive) (blocks : Blocks) (file : Text) (number : Nat)
    (line : Line) : table.judge blocks file number line = other.judge blocks file number line := by
  simp only [judge, find?_fits_of_perm reordered exclusive, firstMisuse?_of_perm reordered]

include wellFormed

theorem row?_of_perm (word : Text) : table.row? word = other.row? word := by
  apply List.find?_eq_find?_of_perm reordered
  intro row isRow second isSecond
  have sameKeyword : row.keyword = second.keyword :=
    (beq_iff_eq.mp isRow.2).trans (beq_iff_eq.mp isSecond.2).symm
  exact List.inj_on_of_nodup_map wellFormed.distinct isRow.1 isSecond.1 sameKeyword

theorem replaceWords_of_perm (text : Text) : table.replaceWords text = other.replaceWords text := by
  have sameSegment : table.replaceSegment = other.replaceSegment := by
    funext segment
    cases segment with
    | char c => rfl
    | found hit => simp only [replaceSegment, equivalent, row?_of_perm wellFormed reordered]
  rw [replaceWords, replaceWords, segments_of_perm reordered, sameSegment]

theorem replaceInLine_of_perm (line : Line) : table.replaceInLine line = other.replaceInLine line := by
  have samePiece : table.replaceInPiece = other.replaceInPiece := by
    funext piece
    cases piece with
    | code text => simp only [replaceInPiece, replaceInCode, replaceWords_of_perm wellFormed reordered]
    | comment text => rfl
  rw [replaceInLine, replaceInLine, samePiece]

theorem compileLine_of_perm (exclusive : table.Exclusive) (file : Text) (number : Nat)
    (progress : Progress) (text : Text) :
    table.compileLine file number progress text = other.compileLine file number progress text := by
  simp only [compileLine, judge_of_perm reordered exclusive,
    replaceInLine_of_perm wellFormed reordered]

theorem compileLines_of_perm (exclusive : table.Exclusive) (file : Text) (number : Nat)
    (progress : Progress) (texts : List Text) :
    table.compileLines file number progress texts = other.compileLines file number progress texts := by
  induction texts generalizing number progress with
  | nil => rfl
  | cons text rest inductionHypothesis =>
      simp only [compileLines, compileLine_of_perm wellFormed reordered exclusive, inductionHypothesis]

theorem compile_of_perm (exclusive : table.Exclusive) (source file : Text) :
    table.compile source file = other.compile source file := by
  rw [compile, compile, compileLines_of_perm wellFormed reordered exclusive]

end Reordered

/-! ## The built-in table -/

/-- The keyword of a row that code fits is the first word of the code. -/
theorem find?_isWord_of_fits {row : Row} (member : row ∈ builtin.rows) {code : Text}
    (fits : row.fits code = true) :
    (Lexeme.ofText code).find? Lexeme.isWord = some (.word row.keyword) := by
  obtain ⟨context, isContext, occurs⟩ := (Option.any_eq_true ..).mp fits
  obtain ⟨brace, trail, inTrails, rfl⟩ := leading_of_context member isContext
  obtain ⟨lead, rest, rfl, isLead, separated⟩ := Pattern.exists_lead_of_occursIn inTrails occurs
  have isKeyword : row.keyword ∈ builtin.keywords := List.mem_map_of_mem member
  have identifier := wellFormed_builtin.identifiers row.keyword isKeyword
  rw [Lexeme.find?_isWord_of_separators (Text.isIdentifierChar_of_mem_lead isLead),
    Lexeme.ofText_run (Text.ne_nil_of_isIdentifier identifier)
      (Text.isIdentifierChar_of_isIdentifier identifier) separated]
  rfl

theorem exclusive_builtin : builtin.Exclusive := by
  intro code row member other otherMember fits otherFits
  have sameWord : Lexeme.word row.keyword = .word other.keyword := by
    rw [← Option.some.injEq, ← find?_isWord_of_fits member fits,
      ← find?_isWord_of_fits otherMember otherFits]
  exact List.inj_on_of_nodup_map wellFormed_builtin.distinct member otherMember
    (Lexeme.word.inj sameWord)

/-! ## Reading rules in another order -/

/-- Rules that form a table form one with the same rows in any other order. -/
theorem exists_ofRules_of_perm {read? : Text → Option Pattern} {rules others : List Rule} {table : Table}
    (accepted : ofRules read? rules = .ok table) (reordered : others.Perm rules) :
    ∃ other, ofRules read? others = .ok other ∧ table.rows.Perm other.rows := by
  obtain ⟨formTable, rfl⟩ := ofRules_eq_ok_iff.mp accepted
  exact ⟨_, ofRules_of_formTable (Rule.formTable_of_perm reordered formTable),
    (reordered.map (Rule.row read?)).symm⟩

/-- The built-in rules can be given in any order. -/
theorem compile_of_perm_builtinRules {rules : List Rule} (reordered : rules.Perm builtinRules) :
    ∃ table, ofRules Pattern.read? rules = .ok table ∧
      ∀ source file, table.compile source file = builtin.compile source file := by
  obtain ⟨table, accepted, sameRows⟩ := exists_ofRules_of_perm ofRules_builtinRules reordered
  refine ⟨table, accepted, ?_⟩
  intro source file
  exact (compile_of_perm wellFormed_builtin sameRows exclusive_builtin source file).symm

/-- With the last rule first, parents come behind the keywords that depend on them. -/
theorem builtin_compile_of_reversed_rules :
    builtinRules.reverse.Perm builtinRules ∧ builtinRules.reverse ≠ builtinRules ∧
      ∃ table, ofRules Pattern.read? builtinRules.reverse = .ok table ∧
        table.compile "pick (a) \x7b\noption 1: yay fun() \x7b\x7d".toList [] =
          .ok "switch (a) \x7b\ncase 1: return function() \x7b\x7d".toList ∧
        ∃ diagnostic, table.compile "option 1: yay fun = 2".toList [] = .error diagnostic ∧
          diagnostic.cause = .placement "pick".toList := by
  refine ⟨List.reverse_perm builtinRules, by decide, ?_⟩
  obtain ⟨table, accepted, same⟩ := compile_of_perm_builtinRules (List.reverse_perm builtinRules)
  refine ⟨table, accepted, ?_, ?_⟩
  · rw [same]
    exact eq_ok_of_toOption (by decide +kernel)
  · refine ⟨.ofCause (.placement "pick".toList) "option".toList
      { file := [], line := 1, text := "option 1: yay fun = 2".toList } (some 0), ?_, rfl⟩
    rw [same]
    exact eq_error_of_match (by decide +kernel)

end Table

end Dialect
