import Dialect.Proofs.Comments
import Dialect.Proofs.Noninterference

/-!
# The code of a line as a line of its own

Taking the comments out of a line and putting a space where they were makes no new comment and closes no
quote that was open: the characters around a comment do not come together, and the space leaves a reader
behind an open quote in the same state as the comment did. Main statement: the code of a line, read as a
line, is a single code piece, and it is judged like the line (`Table.comments_removed_stably`).
-/

namespace Dialect

namespace Line

/-- Behind a character the code goes on as the text does, or with the space for a comment. -/
theorem head?_joinedBehind (text : Text) :
    (Piece.joinedBehind ' ' id (readCode text).1).head? = text.head? ∨
      ∀ d ∈ (Piece.joinedBehind ' ' id (readCode text).1).head?, d = ' ' := by
  fun_cases readCode text with
  | case1 => exact Or.inl rfl
  | case2 rest => exact Or.inr (by simp [Piece.joinedBehind_comment])
  | case3 rest _ => exact Or.inr (by simp [Piece.joinedBehind_comment])
  | case4 rest body after closed pieces isOpen readAfter =>
      right
      rw [Piece.joinedBehind_comment]
      split
      next => simp [eq_comm]
      next => simp
  | case5 c rest _ _ unclosed pieces isOpen readAfter =>
      left
      rw [Piece.joinedBehind_consCode, Piece.joined_id_consCode]
      rfl
  | case6 c rest _ _ literal after found pieces isOpen readAfter =>
      left
      obtain ⟨joined, nonempty⟩ := Text.literal?_append found
      rw [Piece.joinedBehind_consCode, Piece.joined_id_consCode, ← joined,
        List.head?_append_of_ne_nil _ nonempty, List.head?_append_of_ne_nil _ nonempty]

theorem scansAsCode_joinedBehind {pieces : List Piece}
    (scans : Text.ScansAsCode [] (Piece.joined ' ' id pieces)) :
    Text.ScansAsCode [] (Piece.joinedBehind ' ' id pieces) := by
  cases pieces with
  | nil => exact .done
  | cons piece others =>
      cases piece with
      | code content => exact scans
      | comment content =>
          rw [Piece.joinedBehind_comment]
          split
          next =>
            exact .char (Text.literal?_cons_of_not_isQuote _ (by decide))
              (Lexeme.startsComment_of_ne_slash _ (by decide)) scans
          next => exact .done

/-- A reader goes through the joined code without meeting a comment. -/
theorem scansAsCode_joined_readCode (text : Text) :
    Text.ScansAsCode [] (Piece.joined ' ' id (readCode text).1) := by
  fun_induction readCode text with
  | case1 => exact .done
  | case2 rest => exact .done
  | case3 rest _ => exact .done
  | case4 rest body after closed pieces isOpen readAfter inductionHypothesis =>
      rw [readAfter] at inductionHypothesis
      exact inductionHypothesis
  | case5 c rest notLine notBlock unclosed pieces isOpen readAfter inductionHypothesis =>
      have quieter := quieter_joinedBehind rest
      have next := head?_joinedBehind rest
      rw [readAfter] at inductionHypothesis quieter next
      rw [Piece.joined_id_consCode]
      refine .char ?_ ?_ (scansAsCode_joinedBehind inductionHypothesis)
      · rw [List.append_nil]
        exact quieter.literal?_eq_none unclosed
      · rw [List.append_nil]
        apply Lexeme.startsComment_of_head? (Lexeme.startsComment_eq_false notLine notBlock)
        refine next.imp_right fun space d isFirst => ?_
        rw [space d isFirst]
        decide
  | case6 c rest _ _ literal after found pieces isOpen readAfter inductionHypothesis =>
      rw [readAfter] at inductionHypothesis
      rw [Piece.joined_id_consCode]
      exact .literal (Text.literal?_append_of_eq_some found _)
        (scansAsCode_joinedBehind inductionHypothesis)

theorem scansAsCode_code (text : Text) (openBefore : Bool) :
    Text.ScansAsCode [] (read text openBefore).code := by
  rw [code, Piece.joinWith_filterMap_code?]
  rcases pieces_read_cases text openBefore with ⟨after, equality⟩ | ⟨comment, after, equality⟩
  · rw [equality]
    exact scansAsCode_joined_readCode after
  · rw [equality]
    exact scansAsCode_joined_readCode after

/-- The code of a line, read as a line, is one code piece. -/
theorem read_code (text : Text) (openBefore : Bool) :
    read (read text openBefore).code false =
      { text := (read text openBefore).code
        pieces := if (read text openBefore).code = [] then [] else [.code (read text openBefore).code]
        openBefore := false
        openAfter := false } := by
  have whole := Piece.readCode_append_of_scansAsCode (scansAsCode_code text openBefore)
  rw [List.append_nil, readCode] at whole
  rw [read, if_neg (by decide), whole]
  rfl

theorem code_read_code (text : Text) (openBefore : Bool) :
    (read (read text openBefore).code false).code = (read text openBefore).code := by
  rw [read_code, code]
  by_cases empty : (read text openBefore).code = []
  · rw [if_pos empty, empty]
    rfl
  · rw [if_neg empty]
    rfl

end Line

/-- A line without its comments is one piece of code with no comment open behind it, and whatever the table
and the open blocks are, it is judged like the line: the verdict is the same, or the same is wrong with the
same keyword. -/
theorem Table.comments_removed_stably (text : Text) (openBefore : Bool) :
    let line := Line.read text openBefore
    let bare := Line.read line.code false
    bare.pieces = (if line.code = [] then [] else [.code line.code]) ∧ bare.openAfter = false ∧
      ∀ (table : Table) (blocks : Blocks) (file : Text) (number : Nat),
        (table.judge blocks file number bare).mapError Diagnostic.fault =
          (table.judge blocks file number line).mapError Diagnostic.fault := by
  refine ⟨?_, ?_, ?_⟩
  · rw [Line.read_code]
  · rw [Line.read_code]
  · intro table blocks file number
    apply mapError_judge_of_seesAlike
    rw [Line.code_read_code]
    exact ⟨rfl, rfl, rfl⟩

end Dialect
