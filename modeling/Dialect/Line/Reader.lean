import Dialect.Text.Literal
import Dialect.Line.Basic

/-!
# Reading a line

A line is read from left to right. In code, `//` starts a comment that takes the rest of the line
and `/*` one that lasts until the next `*/`, on this line or on a later one; neither counts inside a
quoted literal. In a block comment nothing but `*/` counts.

Main statement: the pieces of a line, in order, are the line (`flatMap_text_read`).
-/

namespace Dialect

namespace Text

/-- What follows the start of a block comment, cut behind the first `*/`. -/
def closeComment? : Text → Option (Text × Text)
  | [] => none
  | '*' :: '/' :: rest => some (['*', '/'], rest)
  | c :: rest => (closeComment? rest).map fun (body, after) => (c :: body, after)

theorem closeComment?_append {text body after : Text}
    (closed : closeComment? text = some (body, after)) :
    body ++ after = text ∧ body ≠ [] := by
  fun_induction closeComment? text generalizing body with
  | case1 => simp at closed
  | case2 =>
      simp only [Option.some.injEq, Prod.mk.injEq] at closed
      obtain ⟨rfl, rfl⟩ := closed
      simp
  | case3 c rest _ inductionHypothesis =>
      obtain ⟨⟨inner, tail⟩, innerClosed, equality⟩ := Option.map_eq_some_iff.mp closed
      simp only [Prod.mk.injEq] at equality
      obtain ⟨rfl, rfl⟩ := equality
      simp [(inductionHypothesis innerClosed).1]

/-- What follows a block comment is shorter than the text that the comment starts. -/
theorem length_after_closeComment?_lt {text body after : Text}
    (closed : closeComment? text = some (body, after)) :
    after.length < text.length := by
  obtain ⟨joined, nonempty⟩ := closeComment?_append closed
  have bodyLength : 0 < body.length := List.length_pos_iff.mpr nonempty
  rw [← joined, List.length_append]
  omega

end Text

namespace Piece

/-- Puts code in front of pieces, as a part of the first one if that is code. -/
def consCode (text : Text) : List Piece → List Piece
  | .code first :: pieces => .code (text ++ first) :: pieces
  | pieces => .code text :: pieces

/-- A comment piece, unless it would be empty. -/
def commentOf (text : Text) : List Piece :=
  if text = [] then [] else [.comment text]

end Piece

namespace Line

/-- The pieces of a text that starts outside comments, and whether a block comment is open at its
end. -/
def readCode : Text → List Piece × Bool
  | [] => ([], false)
  | '/' :: '/' :: rest => ([.comment ('/' :: '/' :: rest)], false)
  | '/' :: '*' :: rest =>
      match _closed : Text.closeComment? rest with
      | none => ([.comment ('/' :: '*' :: rest)], true)
      | some (body, after) =>
          let (pieces, isOpen) := readCode after
          (.comment ('/' :: '*' :: body) :: pieces, isOpen)
  | c :: rest =>
      match _found : Text.literal? (c :: rest) with
      | none =>
          let (pieces, isOpen) := readCode rest
          (Piece.consCode [c] pieces, isOpen)
      | some (literal, after) =>
          let (pieces, isOpen) := readCode after
          (Piece.consCode literal pieces, isOpen)
termination_by text => text.length
decreasing_by
  · have := Text.length_after_closeComment?_lt _closed
    simp only [List.length_cons]
    omega
  · simp
  · exact Text.length_after_literal?_lt _found

/-- The pieces of a text that starts inside a block comment, and whether one is open at its end. -/
def readComment (text : Text) : List Piece × Bool :=
  match Text.closeComment? text with
  | none => (Piece.commentOf text, true)
  | some (body, after) =>
      let (pieces, isOpen) := readCode after
      (.comment body :: pieces, isOpen)

/-- Cuts a line into pieces, given whether a block comment is open before it. -/
def read (text : Text) (openBefore : Bool) : Line :=
  let (pieces, openAfter) := if openBefore then readComment text else readCode text
  { text, pieces, openBefore, openAfter }

/-! ## One step of reading -/

theorem readCode_of_unclosed_comment {rest : Text} (unclosed : Text.closeComment? rest = none) :
    readCode ('/' :: '*' :: rest) = ([.comment ('/' :: '*' :: rest)], true) := by
  rw [readCode]
  split
  next => rfl
  next body after closed => simp [unclosed] at closed

theorem readCode_of_closed_comment {rest body after : Text}
    (closed : Text.closeComment? rest = some (body, after)) :
    readCode ('/' :: '*' :: rest) =
      (.comment ('/' :: '*' :: body) :: (readCode after).1, (readCode after).2) := by
  rw [readCode]
  split
  next unclosed => simp [closed] at unclosed
  next otherBody otherAfter equality =>
    rw [closed] at equality
    obtain ⟨rfl, rfl⟩ := Prod.mk.inj (Option.some.inj equality)
    rfl

section Code

variable {c : Char} {rest : Text} (notLine : ∀ others, c = '/' → rest = '/' :: others → False)
  (notBlock : ∀ others, c = '/' → rest = '*' :: others → False)

include notLine notBlock

theorem readCode_of_unclosed_quote (unclosed : Text.literal? (c :: rest) = none) :
    readCode (c :: rest) = (Piece.consCode [c] (readCode rest).1, (readCode rest).2) := by
  rw [readCode]
  · split
    next => rfl
    next equality => simp [unclosed] at equality
  · exact notLine
  · exact notBlock

theorem readCode_of_literal? {quoted after : Text}
    (found : Text.literal? (c :: rest) = some (quoted, after)) :
    readCode (c :: rest) = (Piece.consCode quoted (readCode after).1, (readCode after).2) := by
  rw [readCode]
  · split
    next equality => simp [found] at equality
    next other others equality =>
      rw [found] at equality
      obtain ⟨rfl, rfl⟩ := Prod.mk.inj (Option.some.inj equality)
      rfl
  · exact notLine
  · exact notBlock

end Code

/-! ## Nothing is lost -/

theorem flatMap_text_consCode (text : Text) (pieces : List Piece) :
    (Piece.consCode text pieces).flatMap Piece.text = text ++ pieces.flatMap Piece.text := by
  cases pieces with
  | nil => simp [Piece.consCode, Piece.text]
  | cons first others => cases first <;> simp [Piece.consCode, Piece.text]

theorem flatMap_text_readCode (text : Text) :
    (readCode text).1.flatMap Piece.text = text := by
  fun_induction readCode text with
  | case1 => rfl
  | case2 rest => simp [Piece.text]
  | case3 rest _ => simp [Piece.text]
  | case4 rest body after closed pieces isOpen readAfter inductionHypothesis =>
      rw [readAfter] at inductionHypothesis
      have joined := (Text.closeComment?_append closed).1
      simp only [List.flatMap_cons, Piece.text, inductionHypothesis, List.cons_append, joined]
  | case5 c rest _ _ _ pieces isOpen readAfter inductionHypothesis =>
      rw [readAfter] at inductionHypothesis
      simp only [flatMap_text_consCode, inductionHypothesis, List.singleton_append]
  | case6 c rest _ _ literal after found pieces isOpen readAfter inductionHypothesis =>
      rw [readAfter] at inductionHypothesis
      simp only [flatMap_text_consCode, inductionHypothesis, (Text.literal?_append found).1]

theorem flatMap_text_readComment (text : Text) :
    (readComment text).1.flatMap Piece.text = text := by
  rw [readComment]
  split
  next =>
    by_cases empty : text = []
    · simp [Piece.commentOf, empty]
    · simp [Piece.commentOf, empty, Piece.text]
  next body after closed =>
    simp only [List.flatMap_cons, Piece.text, flatMap_text_readCode,
      (Text.closeComment?_append closed).1]

/-- The pieces of a line, in order, are the line. -/
theorem flatMap_text_read (text : Text) (openBefore : Bool) :
    (read text openBefore).pieces.flatMap Piece.text = text := by
  cases openBefore
  · exact flatMap_text_readCode text
  · exact flatMap_text_readComment text

end Line

end Dialect
