import Dialect.Line.Reader
import Dialect.Mask
import Dialect.Proofs.Lexeme
import Dialect.Proofs.Quotation

/-!
# Code pieces and the code of a line

A line is cut into pieces, and its code pieces are read in two ways: one by one, and joined with a
space for every comment between them. A quote that is left open in one piece could be closed by a
quote in a later one. It is not: the reader would have found that literal, since a comment that has
been closed leaves it in the same state as the space does. Main statements: the fragments of the code
of a line are those of its code pieces (`Line.ofCode_code`), and the lexemes of a line are those of
its pieces (`Lexeme.read_eq`).
-/

namespace Dialect

theorem Fragment.ofCode_of_literal? {text quoted after : Text}
    (found : Text.literal? text = some (quoted, after)) :
    ofCode text = .literal quoted :: ofCode after := by
  cases text with
  | nil => simp [Text.literal?] at found
  | cons c rest =>
      rw [ofCode]
      split
      next nothing => simp [found] at nothing
      next other tail equality =>
        rw [found] at equality
        obtain ⟨rfl, rfl⟩ := Prod.mk.inj (Option.some.inj equality)
        rfl

theorem Fragment.ofCode_of_unclosed {c : Char} {rest : Text}
    (unclosed : Text.literal? (c :: rest) = none) :
    ofCode (c :: rest) = .plain c :: ofCode rest := by
  rw [ofCode]
  split
  next => rfl
  next quoted after found => simp [unclosed] at found

namespace Piece

/-! ## Joining code pieces -/

/-- Whether a piece is code. -/
def isCode (piece : Piece) : Bool := piece.code?.isSome

/-- What the code pieces consist of, with a separator between each two. -/
def joined {α : Type} (separator : α) (parts : Text → List α) : List Piece → List α
  | [] => []
  | .comment _ :: pieces => joined separator parts pieces
  | .code text :: pieces =>
      parts text ++ if pieces.any isCode then separator :: joined separator parts pieces else []

/-- What joining puts behind code that comes before the pieces. -/
def joinedBehind {α : Type} (separator : α) (parts : Text → List α) : List Piece → List α
  | .code text :: pieces => joined separator parts (.code text :: pieces)
  | pieces => if pieces.any isCode then separator :: joined separator parts pieces else []

theorem joined_consCode {α : Type} {separator : α} {parts : Text → List α} {added : Text}
    {front : List α} {pieces : List Piece} (nothing : parts [] = [])
    (splits : ∀ first after, first ++ after = pieces.flatMap text →
      parts (added ++ first) = front ++ parts first) :
    joined separator parts (consCode added pieces) =
      front ++ joinedBehind separator parts pieces := by
  have alone : parts added = front := by
    have split := splits [] (pieces.flatMap text) rfl
    rwa [List.append_nil, nothing, List.append_nil] at split
  cases pieces with
  | nil => simp [consCode, joined, joinedBehind, alone]
  | cons piece others =>
      cases piece with
      | comment content => simp [consCode, joined, joinedBehind, alone]
      | code first =>
          have split := splits first (others.flatMap text) rfl
          simp [consCode, joined, joinedBehind, split]

theorem joinedBehind_consCode {α : Type} (separator : α) (parts : Text → List α) (added : Text)
    (pieces : List Piece) :
    joinedBehind separator parts (consCode added pieces) =
      joined separator parts (consCode added pieces) := by
  cases pieces with
  | nil => rfl
  | cons piece others => cases piece <;> rfl

/-- The joined text goes on behind a character as it does behind code. -/
theorem joined_id_consCode (added : Text) (pieces : List Piece) :
    joined ' ' id (consCode added pieces) = added ++ joinedBehind ' ' id pieces :=
  joined_consCode rfl fun _ _ _ => rfl

theorem joinedBehind_comment {α : Type} (separator : α) (parts : Text → List α) (content : Text)
    (pieces : List Piece) :
    joinedBehind separator parts (.comment content :: pieces) =
      if pieces.any isCode then separator :: joined separator parts pieces else [] := by
  simp [joinedBehind, joined, isCode, code?]

theorem any_isCode_eq_false_iff (pieces : List Piece) :
    pieces.any isCode = false ↔ pieces.filterMap code? = [] := by
  simp [isCode, List.filterMap_eq_nil_iff]

theorem joinWith_filterMap_code? (pieces : List Piece) :
    Text.joinWith [' '] (pieces.filterMap code?) = joined ' ' id pieces := by
  induction pieces with
  | nil => rfl
  | cons piece others inductionHypothesis =>
      cases piece with
      | comment content =>
          rw [List.filterMap_cons_none rfl, inductionHypothesis, joined]
      | code content =>
          have first : code? (.code content) = some content := rfl
          rw [List.filterMap_cons_some first, joined, ← inductionHypothesis]
          cases codes : others.filterMap code? with
          | nil => simp [(any_isCode_eq_false_iff others).mpr codes, Text.joinWith]
          | cons first more =>
              have hasCode : others.any isCode = true := by
                rw [← Bool.not_eq_false, any_isCode_eq_false_iff, codes]
                exact List.cons_ne_nil first more
              simp [hasCode, Text.joinWith]

end Piece

/-! ## Open quotes at a comment -/

theorem Text.exists_append_of_closeComment? {text body after : Text}
    (closed : closeComment? text = some (body, after)) : ∃ front, body = front ++ ['*', '/'] := by
  fun_induction closeComment? text generalizing body with
  | case1 => simp at closed
  | case2 =>
      obtain ⟨rfl, rfl⟩ := Prod.mk.inj (Option.some.inj closed)
      exact ⟨[], rfl⟩
  | case3 c rest _ inductionHypothesis =>
      obtain ⟨⟨inner, tail⟩, innerClosed, equality⟩ := Option.map_eq_some_iff.mp closed
      obtain ⟨rfl, rfl⟩ := Prod.mk.inj equality
      obtain ⟨front, rfl⟩ := inductionHypothesis innerClosed
      exact ⟨c :: front, rfl⟩

theorem Text.isFiller_space : IsFiller [' '] :=
  ⟨by decide, List.forall_mem_singleton.mpr (by decide)⟩

/-- A comment that has been closed leaves no backslash behind. -/
theorem Text.settles_of_closeComment? {text body after : Text}
    (closed : closeComment? text = some (body, after)) : Settles ('/' :: '*' :: body) := by
  obtain ⟨front, rfl⟩ := exists_append_of_closeComment? closed
  have isFiller : IsFiller ['*', '/'] :=
    ⟨by decide, List.forall_mem_cons.mpr ⟨by decide, List.forall_mem_singleton.mpr (by decide)⟩⟩
  exact isFiller.settles.append_left ('/' :: '*' :: front)

namespace Line

open QuoteState

/-- To a reader inside a literal the space in front of the code makes no difference. -/
theorem after_inside_joinedBehind {quote : Char} (isQuote : isQuote quote = true)
    {pieces : List Piece} (hasCode : pieces.any Piece.isCode = true) :
    after quote .inside (Piece.joinedBehind ' ' id pieces) =
      after quote .inside (Piece.joined ' ' id pieces) := by
  cases pieces with
  | nil => rfl
  | cons piece others =>
      cases piece with
      | code content => rfl
      | comment content =>
          have hasMore : others.any Piece.isCode = true := by
            simpa [Piece.isCode, Piece.code?] using hasCode
          rw [Piece.joinedBehind_comment, if_pos hasMore, Piece.joined, ← List.singleton_append,
            after_append, Text.isFiller_space.after_eq isQuote (by decide)]

/-- The code behind a character closes a quote only if the text behind the character does. -/
theorem quieter_joinedBehind (text : Text) :
    Text.Quieter (Piece.joinedBehind ' ' id (readCode text).1) text := by
  fun_induction readCode text with
  | case1 => exact Text.Quieter.nil _
  | case2 rest => exact Text.Quieter.nil _
  | case3 rest _ => exact Text.Quieter.nil _
  | case4 rest body after closed pieces isOpen readAfter inductionHypothesis =>
      rw [readAfter] at inductionHypothesis
      rw [Piece.joinedBehind_comment]
      split
      next hasCode =>
        obtain ⟨joined, _⟩ := Text.closeComment?_append closed
        rw [← joined]
        apply Text.Quieter.replace Text.isFiller_space (Text.settles_of_closeComment? closed)
        intro quote isQuote closes
        apply inductionHypothesis quote .inside isQuote
        rw [after_inside_joinedBehind isQuote hasCode]
        exact closes
      next => exact Text.Quieter.nil _
  | case5 c rest _ _ unclosed pieces isOpen readAfter inductionHypothesis =>
      rw [readAfter] at inductionHypothesis
      rw [Piece.joinedBehind_consCode, Piece.joined_id_consCode]
      exact inductionHypothesis.append_left [c]
  | case6 c rest _ _ literal after found pieces isOpen readAfter inductionHypothesis =>
      rw [readAfter] at inductionHypothesis
      rw [Piece.joinedBehind_consCode, Piece.joined_id_consCode, ← (Text.literal?_append found).1]
      exact inductionHypothesis.append_left literal

/-- The pieces of a line start with a part of a comment or are read from code. -/
theorem pieces_read_cases (text : Text) (openBefore : Bool) :
    (∃ after, (read text openBefore).pieces = (readCode after).1) ∨
      (∃ comment after, (read text openBefore).pieces = .comment comment :: (readCode after).1) := by
  cases openBefore with
  | false => exact Or.inl ⟨text, rfl⟩
  | true =>
      rw [read, if_pos rfl, readComment]
      cases closed : Text.closeComment? text with
      | some cut => exact Or.inr ⟨cut.1, cut.2, rfl⟩
      | none =>
          have nothing : (readCode []).1 = [] := by rw [readCode]
          by_cases empty : text = []
          · exact Or.inl ⟨[], by rw [nothing]; simp [Piece.commentOf, empty]⟩
          · exact Or.inr ⟨text, [], by rw [nothing]; simp [Piece.commentOf, empty]⟩

/-! ## The fragments of the code -/

private theorem ofCode_joinedBehind {pieces : List Piece}
    (joined : Fragment.ofCode (Piece.joined ' ' id pieces) =
      Piece.joined (.plain ' ') Fragment.ofCode pieces) :
    Fragment.ofCode (Piece.joinedBehind ' ' id pieces) =
      Piece.joinedBehind (.plain ' ') Fragment.ofCode pieces := by
  have space (rest : Text) : Fragment.ofCode (' ' :: rest) = .plain ' ' :: Fragment.ofCode rest :=
    Fragment.ofCode_of_unclosed (Text.literal?_cons_of_not_isQuote rest (by decide))
  cases pieces with
  | nil => simp [Piece.joinedBehind, Fragment.ofCode]
  | cons piece others =>
      cases piece with
      | code content => exact joined
      | comment content =>
          rw [Piece.joinedBehind_comment, Piece.joinedBehind_comment]
          split
          next =>
            rw [space]
            exact congrArg _ joined
          next => rw [Fragment.ofCode]

theorem ofCode_joined_readCode (text : Text) :
    Fragment.ofCode (Piece.joined ' ' id (readCode text).1) =
      Piece.joined (.plain ' ') Fragment.ofCode (readCode text).1 := by
  have nothing : Fragment.ofCode [] = [] := by rw [Fragment.ofCode]
  fun_induction readCode text with
  | case1 => exact nothing
  | case2 rest => exact nothing
  | case3 rest _ => exact nothing
  | case4 rest body after closed pieces isOpen readAfter inductionHypothesis =>
      rw [readAfter] at inductionHypothesis
      exact inductionHypothesis
  | case5 c rest _ _ unclosed pieces isOpen readAfter inductionHypothesis =>
      rw [readAfter] at inductionHypothesis
      have quieter := quieter_joinedBehind rest
      have whole := flatMap_text_readCode rest
      rw [readAfter] at quieter whole
      have splits : ∀ first after, first ++ after = pieces.flatMap Piece.text →
          Fragment.ofCode ([c] ++ first) = [.plain c] ++ Fragment.ofCode first := by
        intro first after equality
        rw [whole] at equality
        rw [← equality] at unclosed
        exact Fragment.ofCode_of_unclosed
          ((Text.Quieter.of_append_right first after).literal?_eq_none unclosed)
      rw [Piece.joined_id_consCode, Piece.joined_consCode nothing splits, List.singleton_append,
        List.singleton_append, Fragment.ofCode_of_unclosed (quieter.literal?_eq_none unclosed),
        ofCode_joinedBehind inductionHypothesis]
  | case6 c rest _ _ literal after found pieces isOpen readAfter inductionHypothesis =>
      rw [readAfter] at inductionHypothesis
      have splits : ∀ first after, first ++ after = pieces.flatMap Piece.text →
          Fragment.ofCode (literal ++ first) = [.literal literal] ++ Fragment.ofCode first :=
        fun first _ _ => Fragment.ofCode_of_literal? (Text.literal?_append_of_eq_some found first)
      rw [Piece.joined_id_consCode, Piece.joined_consCode nothing splits,
        Fragment.ofCode_of_literal? (Text.literal?_append_of_eq_some found _),
        ofCode_joinedBehind inductionHypothesis, List.singleton_append]

/-- The fragments of the code of a line are those of its code pieces, with a space between each
two. -/
theorem ofCode_code (text : Text) (openBefore : Bool) :
    Fragment.ofCode (read text openBefore).code =
      Piece.joined (.plain ' ') Fragment.ofCode (read text openBefore).pieces := by
  rw [code, Piece.joinWith_filterMap_code?]
  rcases pieces_read_cases text openBefore with ⟨after, equality⟩ | ⟨comment, after, equality⟩
  · rw [equality, ofCode_joined_readCode]
  · rw [equality]
    exact ofCode_joined_readCode after

end Line

namespace Piece

/-! ## The lexemes of pieces -/

/-- The lexemes of a piece. -/
def lexemes : Piece → List Lexeme
  | .code text => Lexeme.ofFragments (Fragment.ofCode text)
  | .comment text => [.comment text]

theorem lexemes_code_ne_nil {content : Text} (nonempty : content ≠ []) :
    (code content).lexemes ≠ [] := by
  intro none
  have whole := Lexeme.flatMap_text_ofFragments (Fragment.ofCode content)
  rw [Fragment.flatMap_text_ofCode] at whole
  rw [lexemes] at none
  rw [none] at whole
  exact nonempty whole.symm

theorem ne_nil_of_mem_consCode {added content : Text} {pieces : List Piece} (nonempty : added ≠ [])
    (others : ∀ content, code content ∈ pieces → content ≠ [])
    (member : code content ∈ consCode added pieces) : content ≠ [] := by
  have addedOrThere : (∃ rest, content = added ++ rest) ∨ code content ∈ pieces := by
    cases pieces with
    | nil => exact Or.inl ⟨[], by simpa [consCode] using member⟩
    | cons piece more =>
        cases piece with
        | comment text =>
            rcases List.mem_cons.mp member with first | inPieces
            · exact Or.inl ⟨[], by simpa using first⟩
            · exact Or.inr inPieces
        | code text =>
            rcases List.mem_cons.mp member with first | inMore
            · exact Or.inl ⟨text, by simpa using first⟩
            · exact Or.inr (List.mem_cons_of_mem _ inMore)
  rcases addedOrThere with ⟨rest, rfl⟩ | inPieces
  · exact List.append_ne_nil_of_left_ne_nil nonempty rest
  · exact others content inPieces

theorem ne_nil_of_mem_readCode (text : Text) :
    ∀ content, code content ∈ (Line.readCode text).1 → content ≠ [] := by
  intro content member
  fun_induction Line.readCode text generalizing content with
  | case1 => simp at member
  | case2 rest => simp at member
  | case3 rest _ => simp at member
  | case4 rest body after closed pieces isOpen readAfter inductionHypothesis =>
      rw [readAfter] at inductionHypothesis
      exact inductionHypothesis content (by simpa using member)
  | case5 c rest _ _ unclosed pieces isOpen readAfter inductionHypothesis =>
      rw [readAfter] at inductionHypothesis
      exact ne_nil_of_mem_consCode (List.cons_ne_nil c []) inductionHypothesis member
  | case6 c rest _ _ literal after found pieces isOpen readAfter inductionHypothesis =>
      rw [readAfter] at inductionHypothesis
      exact ne_nil_of_mem_consCode (Text.literal?_append found).2 inductionHypothesis member

theorem flatMap_lexemes_consCode {c : Char} {pieces : List Piece}
    (nonempty : ∀ content, code content ∈ pieces → content ≠ [])
    (unclosed : Text.literal? (c :: pieces.flatMap text) = none) :
    (consCode [c] pieces).flatMap lexemes = Lexeme.consChar c (pieces.flatMap lexemes) := by
  have front (first after : Text) (equality : first ++ after = pieces.flatMap text) :
      (code (c :: first)).lexemes = Lexeme.consChar c (code first).lexemes := by
    rw [← equality] at unclosed
    have firstUnclosed := (Text.Quieter.of_append_right first after).literal?_eq_none unclosed
    rw [lexemes, Fragment.ofCode_of_unclosed firstUnclosed, Lexeme.ofFragments, lexemes]
  have alone : (code [c]).lexemes = Lexeme.consChar c [] := by
    rw [front [] _ rfl, lexemes, Fragment.ofCode, Lexeme.ofFragments]
  cases pieces with
  | nil => simp [consCode, alone]
  | cons piece others =>
      cases piece with
      | comment content =>
          rw [consCode, List.flatMap_cons, alone]
          · exact (Lexeme.consChar_append [] (Lexeme.noWordFirst_cons _ rfl)).symm
          · simp
      | code first =>
          rw [consCode, List.flatMap_cons, List.flatMap_cons, List.singleton_append,
            front first (others.flatMap text) rfl,
            Lexeme.consChar_append_of_ne_nil _
              (lexemes_code_ne_nil (nonempty first List.mem_cons_self))]

theorem flatMap_lexemes_consCode_literal {source literal after : Text} {pieces : List Piece}
    (found : Text.literal? source = some (literal, after)) :
    (consCode literal pieces).flatMap lexemes = .literal literal :: pieces.flatMap lexemes := by
  have front (first : Text) :
      (code (literal ++ first)).lexemes = .literal literal :: (code first).lexemes := by
    rw [lexemes, Fragment.ofCode_of_literal? (Text.literal?_append_of_eq_some found first),
      Lexeme.ofFragments, lexemes]
  have alone : (code literal).lexemes = [.literal literal] := by
    have nothing := front []
    rwa [List.append_nil, lexemes, lexemes, Fragment.ofCode, Lexeme.ofFragments] at nothing
  cases pieces with
  | nil => simp [consCode, alone]
  | cons piece others =>
      cases piece with
      | comment content => simp [consCode, alone]
      | code first => simp [consCode, front]

end Piece

namespace Lexeme

theorem readCode_eq (source : Text) :
    readCode source =
      ((Line.readCode source).1.flatMap Piece.lexemes, (Line.readCode source).2) := by
  fun_induction Line.readCode source with
  | case1 => rw [readCode]; rfl
  | case2 rest => rw [readCode]; rfl
  | case3 rest unclosed => rw [readCode_of_unclosed_comment unclosed]; rfl
  | case4 rest body after closed pieces isOpen readAfter inductionHypothesis =>
      rw [readAfter] at inductionHypothesis
      rw [readCode_of_closed_comment closed, inductionHypothesis]
      rfl
  | case5 c rest notLine notBlock unclosed pieces isOpen readAfter inductionHypothesis =>
      have nonempty := Piece.ne_nil_of_mem_readCode rest
      have whole := Line.flatMap_text_readCode rest
      rw [readAfter] at inductionHypothesis nonempty whole
      rw [readCode_cons (startsComment_eq_false notLine notBlock) unclosed, inductionHypothesis,
        Piece.flatMap_lexemes_consCode nonempty (by rw [whole]; exact unclosed)]
  | case6 c rest notLine notBlock literal after found pieces isOpen readAfter inductionHypothesis =>
      rw [readAfter] at inductionHypothesis
      rw [readCode_of_literal? found, inductionHypothesis,
        Piece.flatMap_lexemes_consCode_literal found]

/-- The lexemes of a line are those of its pieces. -/
theorem read_eq (source : Text) (openBefore : Bool) :
    read source openBefore =
      ((Line.read source openBefore).pieces.flatMap Piece.lexemes,
        (Line.read source openBefore).openAfter) := by
  cases openBefore with
  | false => exact readCode_eq source
  | true =>
      rw [read, if_neg (by decide), Line.read, if_pos rfl, Line.readComment]
      split
      next empty => simp [empty, Text.closeComment?, Piece.commentOf]
      next nonempty =>
        cases closed : Text.closeComment? source with
        | none => simp [Piece.commentOf, nonempty, Piece.lexemes]
        | some cut => simp [readCode_eq, Piece.lexemes]

theorem lexemes_read (source : Text) (openBefore : Bool) :
    (read source openBefore).1 = (Line.read source openBefore).pieces.flatMap Piece.lexemes := by
  rw [read_eq]

theorem openAfter_read (source : Text) (openBefore : Bool) :
    (read source openBefore).2 = (Line.read source openBefore).openAfter := by
  rw [read_eq]

end Lexeme

end Dialect
