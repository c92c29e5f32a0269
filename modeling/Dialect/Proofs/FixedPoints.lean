import Dialect.Proofs.Compilation
import Dialect.Proofs.Location
import Dialect.Proofs.Rereading

/-!
# Sources that compiling leaves as they are

A source without keywords has no faults and is rewritten to itself. A rewritten source is such a
source, because no equivalent of the built-in table brings a keyword back and no comment or literal
moves. Main statement: `Table.compile_eq_self_iff_keywordFree`.
-/

namespace Dialect

namespace Lexeme

theorem identifier_of_mem_readCode {source content : Text}
    (member : .word content ∈ (readCode source).1) :
    content ≠ [] ∧ ∀ c ∈ content, isIdentifierChar c = true := by
  fun_induction readCode source with
  | case1 => simp at member
  | case2 rest => simp at member
  | case3 rest unclosed => simp at member
  | case4 rest body after closed lexemes isOpen equality inductionHypothesis =>
      rw [equality] at inductionHypothesis
      exact inductionHypothesis (by simpa using member)
  | case5 c rest _ _ quoted after found lexemes isOpen equality inductionHypothesis =>
      rw [equality] at inductionHypothesis
      exact inductionHypothesis (by simpa using member)
  | case6 c rest _ _ unclosed identifier lexemes isOpen equality inductionHypothesis =>
      rw [equality] at inductionHypothesis
      rcases List.mem_cons.mp member with first | later
      · rw [Lexeme.word.inj first]
        exact ⟨List.cons_ne_nil c _, Text.isIdentifierChar_of_mem_run rest identifier⟩
      · exact inductionHypothesis later
  | case7 c rest _ _ unclosed separator lexemes isOpen equality inductionHypothesis =>
      rw [equality] at inductionHypothesis
      exact inductionHypothesis (by simpa using member)

theorem identifier_of_mem_read {source content : Text} {openBefore : Bool}
    (member : .word content ∈ (read source openBefore).1) :
    content ≠ [] ∧ ∀ c ∈ content, isIdentifierChar c = true := by
  rw [read] at member
  split at member
  next => exact identifier_of_mem_readCode member
  next =>
    split at member
    next => simp at member
    next =>
      split at member
      next => simp at member
      next body after closed => exact identifier_of_mem_readCode (by simpa using member)

theorem exists_read_of_mem_readLines {openBefore : Bool} {texts : List Text} {lexemes : List Lexeme}
    (member : lexemes ∈ readLines openBefore texts) :
    ∃ text ∈ texts, ∃ isOpen, lexemes = (read text isOpen).1 := by
  induction texts generalizing openBefore with
  | nil => simp [readLines] at member
  | cons text others inductionHypothesis =>
      rcases List.mem_cons.mp member with first | later
      · exact ⟨text, List.mem_cons_self, openBefore, first⟩
      · obtain ⟨other, inOthers, isOpen, equality⟩ := inductionHypothesis later
        exact ⟨other, List.mem_cons_of_mem text inOthers, isOpen, equality⟩

theorem readLines_eq (openBefore : Bool) (texts : List Text) :
    readLines openBefore texts =
      (Line.readAll openBefore texts).map fun line => (read line.text line.openBefore).1 := by
  induction texts generalizing openBefore with
  | nil => rfl
  | cons text others inductionHypothesis =>
      rw [readLines, Line.readAll, List.map_cons, inductionHypothesis, openAfter_read]
      rfl

end Lexeme

namespace Table

/-- No word of the code of a source is a keyword. -/
def KeywordFree (table : Table) (source : Text) : Prop :=
  ∀ lexemes ∈ Lexeme.readLines false source.lines, ∀ content, .word content ∈ lexemes →
    content ∉ table.keywords

/-! ## Rewritten sources -/

section Settled

variable {table : Table} (settled : table.Settled)

include settled

theorem not_mem_equivalent {c : Char} (separator : isIdentifierChar c = false) (notSpace : c ≠ ' ') :
    ∀ row ∈ table.rows, c ∉ row.equivalent := by
  intro row member inEquivalent
  exact Text.ne_of_phrase ((settled.phrases row member).chars c inEquivalent) separator notSpace rfl

theorem not_mem_keywords_of_mem_rewrittenLexemes {source content : Text} {openBefore : Bool}
    (member : .word content ∈ (Lexeme.read source openBefore).1.flatMap table.rewrittenLexemes) :
    content ∉ table.keywords := by
  obtain ⟨lexeme, inLine, inRewritten⟩ := List.mem_flatMap.mp member
  cases lexeme with
  | word original =>
      rw [rewrittenLexemes, equivalent] at inRewritten
      cases found : table.row? original with
      | none =>
          have absent := (table.row?_eq_none_iff original).mp found
          obtain ⟨nonempty, identifier⟩ := Lexeme.identifier_of_mem_read inLine
          have single := @Lexeme.ofText_run original [] nonempty identifier rfl
          rw [List.append_nil] at single
          rw [found, single, Lexeme.ofText_nil, List.mem_singleton] at inRewritten
          rw [Lexeme.word.inj inRewritten]
          exact absent
      | some row =>
          rw [found] at inRewritten
          exact settled.foreign row (List.mem_of_find?_eq_some found) content inRewritten
  | comment text => simp [rewrittenLexemes] at inRewritten
  | literal text => simp [rewrittenLexemes] at inRewritten
  | other c => simp [rewrittenLexemes] at inRewritten

theorem readLines_rewrittenText (openBefore : Bool) (texts : List Text) :
    Lexeme.readLines openBefore ((Lexeme.readLines openBefore texts).map table.rewrittenText) =
      (Lexeme.readLines openBefore texts).map fun lexemes =>
        lexemes.flatMap table.rewrittenLexemes := by
  induction texts generalizing openBefore with
  | nil => rfl
  | cons text others inductionHypothesis =>
      rw [Lexeme.readLines, List.map_cons, List.map_cons, Lexeme.readLines,
        read_rewrittenText settled, inductionHypothesis]

/-- A character that is in no equivalent is in a rewritten line only if it was in the line. -/
theorem not_mem_of_mem_rewrittenLines {c : Char} {texts : List Text} {openBefore : Bool}
    (separator : isIdentifierChar c = false) (notSpace : c ≠ ' ')
    (absent : ∀ text ∈ texts, c ∉ text) :
    ∀ line ∈ (Lexeme.readLines openBefore texts).map table.rewrittenText, c ∉ line := by
  intro line member
  obtain ⟨lexemes, inLines, rfl⟩ := List.mem_map.mp member
  obtain ⟨text, inTexts, isOpen, rfl⟩ := Lexeme.exists_read_of_mem_readLines inLines
  apply not_mem_rewrittenText (not_mem_equivalent settled separator notSpace)
  rw [Lexeme.flatMap_text_read]
  exact absent text inTexts

theorem lines_rewrite (source : Text) :
    (table.rewrite source).lines =
      (Lexeme.readLines false source.lines).map table.rewrittenText := by
  apply Text.lines_unlines
  · intro empty
    have noLines : Lexeme.readLines false source.lines = [] := List.map_eq_nil_iff.mp empty
    cases lines : source.lines with
    | nil => exact absurd lines (Text.splitOn_ne_nil '\n' source)
    | cons first others =>
        rw [lines, Lexeme.readLines] at noLines
        exact absurd noLines (List.cons_ne_nil _ _)
  · exact not_mem_of_mem_rewrittenLines settled (by decide) (by decide)
      fun text member inText => (Text.mem_of_mem_lines inText member).2 rfl

theorem keywordFree_rewrite (source : Text) : table.KeywordFree (table.rewrite source) := by
  intro lexemes member content isWord
  rw [lines_rewrite settled, readLines_rewrittenText settled] at member
  obtain ⟨original, inLines, rfl⟩ := List.mem_map.mp member
  obtain ⟨text, _, isOpen, rfl⟩ := Lexeme.exists_read_of_mem_readLines inLines
  exact not_mem_keywords_of_mem_rewrittenLexemes settled isWord

theorem spare_rewrite {source : Text} (spare : ∃ marker, Mask.IsMarker marker ∧ marker ∉ source) :
    ∃ marker, Mask.IsMarker marker ∧ marker ∉ table.rewrite source := by
  obtain ⟨marker, isMarker, absent⟩ := spare
  have separator := Mask.isIdentifierChar_of_isMarker isMarker
  have notSpace : marker ≠ ' ' := by
    intro equality
    rw [equality] at isMarker
    exact absurd isMarker (by decide)
  have notNewline : marker ≠ '\n' := by
    intro equality
    rw [equality] at isMarker
    exact absurd isMarker (by decide)
  refine ⟨marker, isMarker, Text.not_mem_unlines notNewline ?_⟩
  exact not_mem_of_mem_rewrittenLines settled separator notSpace
    fun text member inText => absent (Text.mem_of_mem_lines inText member).1

end Settled

theorem settled_builtin : builtin.Settled := by
  have phrases : ∀ rule ∈ builtinRules, rule.equivalent ≠ [] ∧
      (rule.equivalent.all fun c => isIdentifierChar c = true ∨ c = ' ') = true := by decide
  have foreign : ∀ rule ∈ builtinRules, ∀ other ∈ builtinRules,
      .word other.keyword ∉ Lexeme.ofText rule.equivalent := by decide +kernel
  constructor
  · intro row member
    obtain ⟨rule, inRules, reads⟩ := exists_rule_of_mem_builtin member
    obtain ⟨nonempty, chars⟩ := phrases rule inRules
    rw [reads.equivalent]
    exact ⟨nonempty, fun c inEquivalent => by simpa using List.all_eq_true.mp chars c inEquivalent⟩
  · intro row member word isWord isKeyword
    obtain ⟨rule, inRules, reads⟩ := exists_rule_of_mem_builtin member
    obtain ⟨other, otherMember, rfl⟩ := List.mem_map.mp isKeyword
    obtain ⟨otherRule, inOtherRules, otherReads⟩ := exists_rule_of_mem_builtin otherMember
    rw [reads.equivalent, otherReads.keyword] at isWord
    exact foreign rule inRules otherRule inOtherRules isWord

/-! ## Sources without keywords -/

theorem rewrittenText_of_keywordFree {table : Table} {lexemes : List Lexeme}
    (free : ∀ content, .word content ∈ lexemes → content ∉ table.keywords) :
    table.rewrittenText lexemes = lexemes.flatMap Lexeme.text := by
  have kept : ∀ lexeme ∈ lexemes, table.rewriteLexeme lexeme = lexeme.text := by
    intro lexeme member
    cases lexeme with
    | word content => exact equivalent_of_not_mem (free content member)
    | comment content => rfl
    | literal content => rfl
    | other c => rfl
  rw [rewrittenText, List.flatMap_def, List.flatMap_def, List.map_congr_left kept]

theorem map_rewrittenText_readLines {table : Table} {openBefore : Bool} {texts : List Text}
    (free : ∀ lexemes ∈ Lexeme.readLines openBefore texts, ∀ content, .word content ∈ lexemes →
      content ∉ table.keywords) :
    (Lexeme.readLines openBefore texts).map table.rewrittenText = texts := by
  induction texts generalizing openBefore with
  | nil => rfl
  | cons text others inductionHypothesis =>
      have first := rewrittenText_of_keywordFree (free _ List.mem_cons_self)
      rw [Lexeme.readLines, List.map_cons, first, Lexeme.flatMap_text_read,
        inductionHypothesis fun lexemes member => free lexemes (List.mem_cons_of_mem _ member)]

theorem rewrite_of_keywordFree {table : Table} {source : Text} (free : table.KeywordFree source) :
    table.rewrite source = source := by
  rw [rewrite, map_rewrittenText_readLines free, Text.unlines_lines]

/-- A fault of the built-in table is about a keyword among the words of the line. -/
theorem mem_read_of_judge_builtin {text file : Text} {openBefore : Bool} {blocks : Blocks}
    {number : Nat} {diagnostic : Diagnostic}
    (failed : builtin.judge blocks file number (Line.read text openBefore) = .error diagnostic) :
    .word diagnostic.keyword ∈ (Lexeme.read text openBefore).1 ∧
      diagnostic.keyword ∈ builtin.keywords := by
  obtain ⟨offset, _, isKeyword, located, misused, placed⟩ :=
    exists_offset_of_judge wellFormed_builtin failed
  obtain ⟨place, isPlace⟩ : ∃ place, offset = some place := by
    cases cause : diagnostic.cause with
    | placement parent =>
        obtain ⟨place, isPlace, _⟩ := placed rfl parent cause
        exact ⟨place, isPlace⟩
    | misuse kind => exact Option.isSome_iff_exists.mp (misused kind cause)
  have inLine := List.mem_map_of_mem (f := Prod.snd) (located place isPlace)
  rw [Lexeme.map_snd_located] at inLine
  exact ⟨inLine, isKeyword⟩

theorem exists_compile_of_keywordFree {source : Text} (file : Text)
    (free : builtin.KeywordFree source) : ∃ out, builtin.compile source file = .ok out := by
  cases compiled : builtin.compile source file with
  | ok out => exact ⟨out, rfl⟩
  | error diagnostic =>
      obtain ⟨index, line, blocks, isLine, _, judged⟩ := exists_judge_of_compile compiled
      obtain ⟨isWord, isKeyword⟩ := mem_read_of_judge_builtin judged
      refine absurd isKeyword (free _ ?_ _ isWord)
      rw [Lexeme.readLines_eq]
      exact List.mem_map_of_mem (List.mem_of_getElem? isLine)

theorem compile_of_keywordFree {source : Text} (file : Text)
    (spare : ∃ marker, Mask.IsMarker marker ∧ marker ∉ source) (free : builtin.KeywordFree source) :
    builtin.compile source file = .ok source := by
  obtain ⟨out, compiled⟩ := exists_compile_of_keywordFree file free
  have isRewritten := eq_rewrite_of_compile wellFormed_builtin markerFree_builtin spare compiled
  rw [compiled, isRewritten, rewrite_of_keywordFree free]

/-- The sources that compile to themselves are those without keywords, and every source compiles to
such a one. -/
theorem compile_eq_self_iff_keywordFree {source : Text}
    (spare : ∃ marker, Mask.IsMarker marker ∧ marker ∉ source) (file : Text) :
    (builtin.compile source file = .ok source ↔ builtin.KeywordFree source) ∧
      ∀ out other, builtin.compile source file = .ok out → builtin.compile out other = .ok out := by
  constructor
  · constructor
    · intro compiled
      -- The source is its own rewriting, and no rewriting holds a keyword.
      rw [eq_rewrite_of_compile wellFormed_builtin markerFree_builtin spare compiled]
      exact keywordFree_rewrite settled_builtin source
    · exact compile_of_keywordFree file spare
  · intro out other compiled
    rw [eq_rewrite_of_compile wellFormed_builtin markerFree_builtin spare compiled]
    exact compile_of_keywordFree other (spare_rewrite settled_builtin spare)
      (keywordFree_rewrite settled_builtin source)

theorem builtin_else_if_compiles_to_itself :
    ∃ out, builtin.compile "when (a) \x7b\n\x7d maybe ($fun) \x7b \"fun\" /* fun \x7d".toList [] =
        .ok out ∧
      builtin.compile out [] = .ok out ∧ builtin.KeywordFree out ∧
      ¬builtin.KeywordFree "when (a) \x7b\n\x7d maybe ($fun) \x7b \"fun\" /* fun \x7d".toList := by
  have compiled :
      builtin.compile "when (a) \x7b\n\x7d maybe ($fun) \x7b \"fun\" /* fun \x7d".toList [] =
        .ok "if (a) \x7b\n\x7d else if ($fun) \x7b \"fun\" /* fun \x7d".toList :=
    eq_ok_of_toOption (by decide +kernel)
  have fixed := (compile_eq_self_iff_keywordFree ⟨Char.ofNat 0xE000, by decide, by decide⟩ []).2
    _ [] compiled
  refine ⟨_, compiled, fixed, ?_, ?_⟩
  · exact (compile_eq_self_iff_keywordFree ⟨Char.ofNat 0xE000, by decide, by decide⟩ []).1.mp fixed
  · intro free
    have same := (compile_eq_self_iff_keywordFree ⟨Char.ofNat 0xE000, by decide, by decide⟩ []).1.mpr
      free
    have equality := Except.ok.inj (compiled.symm.trans same)
    exact absurd equality (by decide)

end Table

end Dialect
