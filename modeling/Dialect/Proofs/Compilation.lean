import Dialect.Proofs.Acceptance
import Dialect.Proofs.Lines
import Dialect.Proofs.Masking
import Dialect.Proofs.Segmentation
import Dialect.Proofs.Steps

/-!
# What compiling does to a source

Compiling cuts each line into pieces, masks the literals of each code piece, replaces keywords by a
search, and puts everything together again. `Table.rewrite` says what comes out of this: the lexemes
of each line are copied, except that a keyword gives way to its equivalent.
-/

namespace Dialect

theorem Mask.spare_of_mem_lines {source : Text}
    (spare : ∃ marker, IsMarker marker ∧ marker ∉ source) :
    ∀ text ∈ source.lines, ∃ marker, IsMarker marker ∧ marker ∉ text := by
  intro text member
  obtain ⟨marker, isMarker, absent⟩ := spare
  exact ⟨marker, isMarker, fun inLine => absent (Text.mem_of_mem_lines inLine member).1⟩

namespace Table

/-- A source with each keyword, outside comments and literals, replaced by its equivalent. -/
def rewrite (table : Table) (source : Text) : Text :=
  Text.unlines ((Lexeme.readLines false source.lines).map table.rewrittenText)

section Lines

variable {table : Table} (wellFormed : table.WellFormed) (markerFree : table.MarkerFree)

include wellFormed markerFree

theorem replaceInPiece_eq {piece : Piece}
    (spare : ∃ marker, Mask.IsMarker marker ∧ marker ∉ piece.text) :
    table.replaceInPiece piece = piece.lexemes.flatMap table.rewriteLexeme := by
  cases piece with
  | code text => exact replaceInCode_eq wellFormed.identifiers markerFree spare
  | comment text => simp [replaceInPiece, Piece.lexemes, rewriteLexeme]

theorem replaceInPiece_of_mem_read {text : Text} {openBefore : Bool} {piece : Piece}
    (spare : ∃ marker, Mask.IsMarker marker ∧ marker ∉ text)
    (member : piece ∈ (Line.read text openBefore).pieces) :
    table.replaceInPiece piece = piece.lexemes.flatMap table.rewriteLexeme := by
  obtain ⟨marker, isMarker, absent⟩ := spare
  refine replaceInPiece_eq wellFormed markerFree ⟨marker, isMarker, fun inPiece => absent ?_⟩
  rw [← Line.flatMap_text_read text openBefore]
  exact List.mem_flatMap_of_mem member inPiece

theorem replaceInLine_read {text : Text} (openBefore : Bool)
    (spare : ∃ marker, Mask.IsMarker marker ∧ marker ∉ text) :
    table.replaceInLine (Line.read text openBefore) =
      table.rewrittenText (Lexeme.read text openBefore).1 := by
  have perPiece : ∀ piece ∈ (Line.read text openBefore).pieces,
      table.replaceInPiece piece = piece.lexemes.flatMap table.rewriteLexeme :=
    fun piece => replaceInPiece_of_mem_read wellFormed markerFree spare
  rw [Lexeme.lexemes_read, replaceInLine, rewrittenText, List.flatMap_assoc, List.flatMap_def,
    List.flatMap_def, List.map_congr_left perPiece]

/-- A run over lines rewrites each line, and the comment flag it carries along is the one that
reading the lines carries along. -/
theorem compileLines_eq_rewrite {file : Text} {number : Nat} {progress last : Progress}
    {texts outs : List Text}
    (spare : ∀ text ∈ texts, ∃ marker, Mask.IsMarker marker ∧ marker ∉ text)
    (compiled : table.compileLines file number progress texts = .ok (outs, last)) :
    outs = (Lexeme.readLines progress.commentOpen texts).map table.rewrittenText := by
  induction texts generalizing number progress outs with
  | nil =>
      obtain ⟨rfl, rfl⟩ := Prod.mk.inj (Except.ok.inj compiled)
      rfl
  | cons text others inductionHypothesis =>
      obtain ⟨out, next, more, first, later, rfl⟩ := compileLines_cons_eq_ok_iff.mp compiled
      obtain ⟨verdict, judged, rfl, rfl⟩ := compileLine_eq_ok_iff.mp first
      have moreEquality := inductionHypothesis
        (fun other member => spare other (List.mem_cons_of_mem text member)) later
      -- What `read_eq` adds to the equation of the line: the same comment is open behind it.
      rw [Lexeme.readLines, List.map_cons, moreEquality,
        replaceInLine_read wellFormed markerFree _ (spare text List.mem_cons_self), Lexeme.read_eq]
      rfl

theorem eq_rewrite_of_compile {source file out : Text}
    (spare : ∃ marker, Mask.IsMarker marker ∧ marker ∉ source)
    (compiled : table.compile source file = .ok out) : out = table.rewrite source := by
  obtain ⟨lines, last, linesCompiled, rfl⟩ := compile_eq_ok_iff.mp compiled
  rw [compileLines_eq_rewrite wellFormed markerFree (Mask.spare_of_mem_lines spare) linesCompiled]
  rfl

end Lines

theorem markerFree_builtin : builtin.MarkerFree := by
  have written : ∀ rule ∈ builtinRules, (rule.equivalent.all fun c => ¬Mask.IsMarker c) = true := by
    decide
  intro row member c inEquivalent
  obtain ⟨rule, inRules, reads⟩ := exists_rule_of_mem_builtin member
  rw [reads.equivalent] at inEquivalent
  simpa using List.all_eq_true.mp (written rule inRules) c inEquivalent

/-- What compiling gives is the source with its keywords rewritten. -/
theorem compile_eq_rewrite {read? : Text → Option Pattern} {rules : List Rule} {table : Table}
    (accepted : ofRules read? rules = .ok table) (markerFree : table.MarkerFree)
    {source file out : Text} (spare : ∃ marker, Mask.IsMarker marker ∧ marker ∉ source)
    (compiled : table.compile source file = .ok out) : out = table.rewrite source :=
  eq_rewrite_of_compile (wellFormed_of_ofRules accepted) markerFree spare compiled

theorem builtin_compile_eq_rewrite_two_lines :
    builtin.compile "/* fun */ fun go(n) \x7b\n yay \"fun\" + $fun + n; // yay".toList [] =
        .ok "/* fun */ function go(n) \x7b\n return \"fun\" + $fun + n; // yay".toList ∧
      "/* fun */ function go(n) \x7b\n return \"fun\" + $fun + n; // yay".toList =
        builtin.rewrite "/* fun */ fun go(n) \x7b\n yay \"fun\" + $fun + n; // yay".toList := by
  have compiled :
      builtin.compile "/* fun */ fun go(n) \x7b\n yay \"fun\" + $fun + n; // yay".toList [] =
        .ok "/* fun */ function go(n) \x7b\n return \"fun\" + $fun + n; // yay".toList :=
    eq_ok_of_toOption (by decide +kernel)
  exact ⟨compiled, compile_eq_rewrite ofRules_builtinRules markerFree_builtin
    ⟨Char.ofNat 0xE000, by decide, by decide⟩ compiled⟩

end Table

end Dialect
