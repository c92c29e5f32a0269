import Mathlib.Data.List.Find
import Dialect.Proofs.Compilation
import Dialect.Proofs.Places

/-!
# A carriage return behind a line

The carriage return of a line ending stays with its line. It closes no quote and no comment, so it joins
the last piece of the line, or is a code piece of its own behind a closed comment. Main statements:
the code of the line gets at most a space and the carriage return more (`Line.exists_code_return`), and
the rewritten line gets the carriage return and nothing else (`Table.replaceInLine_return`).
-/

namespace Dialect

/-! ## Blanks, quotes and comments -/

theorem QuoteState.after_ne_closed {quote : Char} {state : QuoteState} {tail : Text}
    (absent : quote ∉ tail) (notClosed : state ≠ .closed) : after quote state tail ≠ .closed := by
  induction tail generalizing state with
  | nil => exact notClosed
  | cons c rest inductionHypothesis =>
      rw [List.mem_cons, not_or] at absent
      apply inductionHypothesis absent.2
      cases state with
      | inside =>
          by_cases backslash : c = '\\'
          · simp [step, backslash]
          · simp [step, backslash, Ne.symm absent.1]
      | escaped => simp [step]
      | closed => exact absurd rfl notClosed

namespace Text

theorem trimEnd_append_of_blank {tail : Text} (blank : ∀ c ∈ tail, isBlank c = true) (text : Text) :
    trimEnd (text ++ tail) = trimEnd text := by
  rw [trimEnd, List.reverse_append, List.dropWhile_append_of_pos (by simpa using blank), trimEnd]

theorem trim_append_of_blank {tail : Text} (blank : ∀ c ∈ tail, isBlank c = true) (text : Text) :
    trim (text ++ tail) = trim text := by
  induction text with
  | nil =>
      have nothing : trimStart tail = [] := by
        rw [trimStart, ← List.append_nil tail, List.dropWhile_append_of_pos blank, List.dropWhile_nil]
      rw [List.nil_append, trim, nothing]
      rfl
  | cons c rest inductionHypothesis =>
      rw [trim, trim, trimStart, trimStart] at inductionHypothesis ⊢
      by_cases blankFirst : isBlank c = true
      · rw [List.cons_append, List.dropWhile_cons_of_pos blankFirst, List.dropWhile_cons_of_pos blankFirst,
          inductionHypothesis]
      · rw [List.cons_append, List.dropWhile_cons_of_neg blankFirst, List.dropWhile_cons_of_neg blankFirst,
          ← List.cons_append, trimEnd_append_of_blank blank]

theorem allBlank_append_of_blank {tail : Text} (blank : ∀ c ∈ tail, isBlank c = true) (text : Text) :
    allBlank (text ++ tail) = allBlank text := by
  rw [allBlank, List.all_append, List.all_eq_true.mpr blank, Bool.and_true, allBlank]

theorem closeQuote?_append_of_not_mem {quote : Char} {tail : Text} (absent : quote ∉ tail)
    (text : Text) :
    closeQuote? quote (text ++ tail) =
      (closeQuote? quote text).map fun (body, after) => (body, after ++ tail) := by
  cases closed : closeQuote? quote text with
  | none =>
      rw [Option.map_none, closeQuote?_eq_none_iff, QuoteState.after_append]
      exact QuoteState.after_ne_closed absent ((closeQuote?_eq_none_iff ..).mp closed)
  | some found =>
      obtain ⟨body, rest⟩ := found
      rw [← (closeQuote?_append closed).1, List.append_assoc]
      exact closeQuote?_append_of_eq_some closed (rest ++ tail)

theorem literal?_append_of_no_quote {tail : Text} (noQuote : ∀ c ∈ tail, isQuote c = false)
    (text : Text) :
    literal? (text ++ tail) = (literal? text).map fun (literal, after) => (literal, after ++ tail) := by
  cases text with
  | nil =>
      cases tail with
      | nil => rfl
      | cons c rest => exact literal?_cons_of_not_isQuote rest (noQuote c List.mem_cons_self)
  | cons c rest =>
      rw [List.cons_append, literal?, literal?]
      by_cases quote : isQuote c = true
      · have absent : c ∉ tail := by
          intro member
          rw [noQuote c member] at quote
          exact absurd quote (by decide)
        rw [if_pos quote, if_pos quote, closeQuote?_append_of_not_mem absent, Option.map_map,
          Option.map_map]
        rfl
      · rw [if_neg quote, if_neg quote, Option.map_none]

theorem closeComment?_return (text : Text) :
    closeComment? (text ++ ['\r']) =
      (closeComment? text).map fun (body, after) => (body, after ++ ['\r']) := by
  fun_induction closeComment? text with
  | case1 => rfl
  | case2 rest => rfl
  | case3 c rest notClosing inductionHypothesis =>
      have stillOpen : ∀ others, c = '*' → rest ++ ['\r'] = '/' :: others → False := by
        intro others star closing
        cases rest with
        | nil => exact absurd closing (by simp)
        | cons d more => exact notClosing more star (by simpa using congrArg List.head? closing)
      rw [List.cons_append, closeComment?, inductionHypothesis, Option.map_map, Option.map_map]
      · rfl
      · exact stillOpen

end Text

theorem Fragment.ofCode_append_of_no_quote {tail : Text} (noQuote : ∀ c ∈ tail, isQuote c = false)
    (code : Text) : ofCode (code ++ tail) = ofCode code ++ tail.map .plain := by
  fun_induction ofCode code with
  | case1 =>
      induction tail with
      | nil => simp [ofCode]
      | cons c rest inductionHypothesis =>
          have unclosed := Text.literal?_cons_of_not_isQuote rest (noQuote c List.mem_cons_self)
          have others := inductionHypothesis fun d member => noQuote d (List.mem_cons_of_mem c member)
          rw [List.nil_append, ofCode_of_unclosed unclosed]
          simpa using others
  | case2 c rest unclosed inductionHypothesis =>
      have stillUnclosed : Text.literal? (c :: (rest ++ tail)) = none := by
        rw [← List.cons_append, Text.literal?_append_of_no_quote noQuote, unclosed, Option.map_none]
      rw [List.cons_append, ofCode_of_unclosed stillUnclosed, inductionHypothesis, List.cons_append]
  | case3 c rest quoted after found inductionHypothesis =>
      have stillFound : Text.literal? (c :: rest ++ tail) = some (quoted, after ++ tail) := by
        rw [Text.literal?_append_of_no_quote noQuote, found, Option.map_some]
      rw [ofCode_of_literal? stillFound, inductionHypothesis, List.cons_append]

namespace Piece

/-! ## Pieces -/

/-- The pieces of a line, and the pieces of the line with a carriage return behind it. -/
inductive Returned : List Piece → List Piece → Prop where
  | code (content : Text) : Returned [.code content] [.code (content ++ ['\r'])]
  | comment (content : Text) : Returned (commentOf content) [.comment (content ++ ['\r'])]
  | apart : Returned [] [.code ['\r']]
  | cons (piece : Piece) {pieces later : List Piece} (returned : Returned pieces later) :
      Returned (piece :: pieces) (piece :: later)

theorem Returned.of_comment {content : Text} (nonempty : content ≠ []) :
    Returned [.comment content] [.comment (content ++ ['\r'])] := by
  have commented := Returned.comment content
  rwa [commentOf, if_neg nonempty] at commented

theorem Returned.consCode (added : Text) {pieces later : List Piece} (returned : Returned pieces later)
    (onlyCode : pieces = [] → later = [.code ['\r']]) :
    Returned (Piece.consCode added pieces) (Piece.consCode added later) := by
  cases returned with
  | code content =>
      rw [Piece.consCode, Piece.consCode, ← List.append_assoc]
      exact .code (added ++ content)
  | comment content =>
      by_cases empty : content = []
      · simp [commentOf, empty] at onlyCode
      · rw [commentOf, if_neg empty]
        exact .cons (.code added) (.of_comment empty)
  | apart => exact .code added
  | cons piece others =>
      cases piece with
      | code content => exact .cons (.code (added ++ content)) others
      | comment content => exact .cons (.code added) (.cons (.comment content) others)

end Piece

namespace Line

theorem readCode_return : readCode ['\r'] = ([.code ['\r']], false) := by
  rw [readCode_of_unclosed_quote (by simp) (by simp) rfl, readCode, Piece.consCode]
  simp

private theorem eq_nil_of_pieces_eq_nil {text : Text} (nothing : (readCode text).1 = []) : text = [] := by
  rw [← flatMap_text_readCode text, nothing, List.flatMap_nil]

/-- A carriage return starts no comment behind a slash. -/
private theorem stillNot {c d : Char} {rest : Text} (different : d ≠ '\r')
    (notBefore : ∀ others, c = '/' → rest = d :: others → False) :
    ∀ others, c = '/' → rest ++ ['\r'] = d :: others → False := by
  intro others slash starts
  cases rest with
  | nil => exact different (by simpa using congrArg List.head? starts.symm)
  | cons e more => exact notBefore more slash (by simpa using congrArg List.head? starts)

theorem returned_readCode (text : Text) :
    Piece.Returned (readCode text).1 (readCode (text ++ ['\r'])).1 ∧
      (readCode (text ++ ['\r'])).2 = (readCode text).2 := by
  -- only an empty text has no pieces, and behind it the carriage return is code
  have onlyCode (rest : Text) (nothing : (readCode rest).1 = []) :
      (readCode (rest ++ ['\r'])).1 = [.code ['\r']] := by
    rw [eq_nil_of_pieces_eq_nil nothing, List.nil_append, readCode_return]
  have noQuote : ∀ c ∈ ['\r'], isQuote c = false := List.forall_mem_singleton.mpr (by decide)
  fun_induction readCode text with
  | case1 =>
      rw [List.nil_append, readCode_return]
      exact ⟨.apart, rfl⟩
  | case2 rest =>
      rw [List.cons_append, List.cons_append, readCode]
      exact ⟨.of_comment (by simp), rfl⟩
  | case3 rest unclosed =>
      have stillUnclosed : Text.closeComment? (rest ++ ['\r']) = none := by
        rw [Text.closeComment?_return, unclosed, Option.map_none]
      rw [List.cons_append, List.cons_append, readCode_of_unclosed_comment stillUnclosed]
      exact ⟨.of_comment (by simp), rfl⟩
  | case4 rest body after closed pieces isOpen readAfter inductionHypothesis =>
      have stillClosed : Text.closeComment? (rest ++ ['\r']) = some (body, after ++ ['\r']) := by
        rw [Text.closeComment?_return, closed, Option.map_some]
      rw [readAfter] at inductionHypothesis
      rw [List.cons_append, List.cons_append, readCode_of_closed_comment stillClosed]
      exact ⟨.cons _ inductionHypothesis.1, inductionHypothesis.2⟩
  | case5 c rest notLine notBlock unclosed pieces isOpen readAfter inductionHypothesis =>
      have stillUnclosed : Text.literal? (c :: (rest ++ ['\r'])) = none := by
        rw [← List.cons_append, Text.literal?_append_of_no_quote noQuote, unclosed, Option.map_none]
      have noPieces := onlyCode rest
      rw [readAfter] at inductionHypothesis noPieces
      rw [List.cons_append, readCode_of_unclosed_quote (stillNot (by decide) notLine)
        (stillNot (by decide) notBlock) stillUnclosed]
      exact ⟨inductionHypothesis.1.consCode [c] noPieces, inductionHypothesis.2⟩
  | case6 c rest notLine notBlock quoted after found pieces isOpen readAfter inductionHypothesis =>
      have stillFound : Text.literal? (c :: (rest ++ ['\r'])) = some (quoted, after ++ ['\r']) := by
        rw [← List.cons_append, Text.literal?_append_of_no_quote noQuote, found, Option.map_some]
      have noPieces := onlyCode after
      rw [readAfter] at inductionHypothesis noPieces
      rw [List.cons_append, readCode_of_literal? (stillNot (by decide) notLine)
        (stillNot (by decide) notBlock) stillFound]
      exact ⟨inductionHypothesis.1.consCode quoted noPieces, inductionHypothesis.2⟩

theorem returned_read (text : Text) (openBefore : Bool) :
    Piece.Returned (read text openBefore).pieces (read (text ++ ['\r']) openBefore).pieces ∧
      (read (text ++ ['\r']) openBefore).openAfter = (read text openBefore).openAfter := by
  cases openBefore with
  | false => exact returned_readCode text
  | true =>
      show Piece.Returned (readComment text).1 (readComment (text ++ ['\r'])).1 ∧
        (readComment (text ++ ['\r'])).2 = (readComment text).2
      rw [readComment, readComment, Text.closeComment?_return]
      cases closed : Text.closeComment? text with
      | none =>
          refine ⟨?_, rfl⟩
          simpa [Piece.commentOf] using Piece.Returned.comment text
      | some found =>
          obtain ⟨body, after⟩ := found
          obtain ⟨returned, sameOpen⟩ := returned_readCode after
          exact ⟨.cons (.comment body) returned, sameOpen⟩

end Line

/-! ## The code of the line -/

/-- What a carriage return behind a line can add to its code: itself, and a space if it is a piece of
its own. -/
def Text.IsReturn (tail : Text) : Prop := ∀ c ∈ tail, c = ' ' ∨ c = '\r'

namespace Piece.Returned

theorem any_isCode {pieces later : List Piece} (returned : Returned pieces later)
    (hasCode : pieces.any isCode = true) : later.any isCode = true := by
  induction returned with
  | code content => rfl
  | comment content =>
      by_cases empty : content = []
      · simp [commentOf, empty] at hasCode
      · simp [commentOf, empty, isCode, code?] at hasCode
  | apart => rfl
  | cons piece _ inductionHypothesis =>
      rw [List.any_cons, Bool.or_eq_true] at hasCode ⊢
      exact hasCode.imp id inductionHypothesis

theorem exists_joined {pieces later : List Piece} (returned : Returned pieces later) :
    ∃ tail : Text, tail.IsReturn ∧ joined ' ' id later = joined ' ' id pieces ++ tail := by
  induction returned with
  | code content => exact ⟨['\r'], by simp [Text.IsReturn], by simp [joined]⟩
  | comment content =>
      refine ⟨[], by simp [Text.IsReturn], ?_⟩
      by_cases empty : content = []
      · simp [commentOf, empty, joined]
      · simp [commentOf, empty, joined]
  | apart => exact ⟨['\r'], by simp [Text.IsReturn], by simp [joined]⟩
  | @cons piece pieces later returned inductionHypothesis =>
      obtain ⟨tail, isReturn, added⟩ := inductionHypothesis
      cases piece with
      | comment content => exact ⟨tail, isReturn, added⟩
      | code content =>
          by_cases hasCode : pieces.any isCode = true
          · refine ⟨tail, isReturn, ?_⟩
            simp [joined, hasCode, returned.any_isCode hasCode, added]
          · have nothing : joined ' ' id pieces = [] := by
              rw [← joinWith_filterMap_code?, (any_isCode_eq_false_iff pieces).mp (by simpa using hasCode)]
              rfl
            by_cases hasMore : later.any isCode = true
            · refine ⟨' ' :: tail, ?_, ?_⟩
              · simpa [Text.IsReturn] using isReturn
              · simp [joined, hasCode, hasMore, added, nothing]
            · exact ⟨[], by simp [Text.IsReturn], by simp [joined, hasCode, hasMore]⟩

theorem offsetInPieces? {pieces later : List Piece} (returned : Returned pieces later)
    {start offset place : Nat} (found : Line.offsetInPieces? start offset pieces = some place) :
    Line.offsetInPieces? start offset later = some place := by
  induction returned generalizing start offset with
  | code content =>
      have longer : Text.bytes content ≤ Text.bytes (content ++ ['\r']) := by
        rw [Text.bytes_append]
        exact Nat.le_add_right ..
      rw [Line.offsetInPieces?] at found ⊢
      by_cases inPiece : offset < content.bytes
      · rw [if_pos inPiece] at found
        rwa [if_pos (Nat.lt_of_lt_of_le inPiece longer)]
      · rw [if_neg inPiece] at found
        split at found <;> simp [Line.offsetInPieces?] at found
  | comment content =>
      by_cases empty : content = []
      · simp [commentOf, empty, Line.offsetInPieces?] at found
      · simp [commentOf, empty, Line.offsetInPieces?] at found
  | apart => simp [Line.offsetInPieces?] at found
  | cons piece _ inductionHypothesis =>
      cases piece with
      | comment content => exact inductionHypothesis found
      | code content =>
          rw [Line.offsetInPieces?] at found ⊢
          split
          next inPiece => rwa [if_pos inPiece] at found
          next behind =>
            rw [if_neg behind] at found
            split
            next joint => rwa [if_pos joint] at found
            next behindJoint => 
              rw [if_neg behindJoint] at found
              exact inductionHypothesis found

end Piece.Returned

theorem Line.exists_code_return (text : Text) (openBefore : Bool) :
    ∃ tail : Text, tail.IsReturn ∧
      (read (text ++ ['\r']) openBefore).code = (read text openBefore).code ++ tail := by
  rw [code, code, Piece.joinWith_filterMap_code?, Piece.joinWith_filterMap_code?]
  exact (returned_read text openBefore).1.exists_joined

theorem Line.offsetInLine?_return {text : Text} {openBefore : Bool} {offset place : Nat}
    (found : (read text openBefore).offsetInLine? offset = some place) :
    (read (text ++ ['\r']) openBefore).offsetInLine? offset = some place :=
  (returned_read text openBefore).1.offsetInPieces? found

/-! ## Masks -/

namespace Mask

theorem markerFor_append {tail : Text} (noMarker : ∀ c ∈ tail, ¬IsMarker c) (code : Text) :
    markerFor (code ++ tail) = markerFor code := by
  have sameChoice : (markers.find? fun marker => !(code ++ tail).contains marker) =
      markers.find? fun marker => !code.contains marker := by
    apply List.find?_congr
    intro marker member
    have notInTail : marker ∉ tail := fun inTail =>
      noMarker marker inTail (.inl ((mem_markers_iff marker).mp member))
    simp [notInTail]
  rw [markerFor, markerFor, sameChoice]

theorem takeLiteral?_append {mask : Mask} {tail : Text} (absent : mask.marker ∉ tail) (text : Text) :
    mask.takeLiteral? (text ++ tail) =
      (mask.takeLiteral? text).map fun (literal, after) => (literal, after ++ tail) := by
  by_cases inText : mask.marker ∈ text
  · obtain ⟨front, rest, rfl, notBefore⟩ := List.eq_append_cons_of_mem inText
    rw [List.append_assoc, List.cons_append, takeLiteral?_append_marker notBefore,
      takeLiteral?_append_marker notBefore, Option.map_map]
    rfl
  · have nowhere : mask.marker ∉ text ++ tail := by simp [inText, absent]
    rw [takeLiteral?_of_not_mem nowhere, takeLiteral?_of_not_mem inText, Option.map_none]

/-- What follows all markers is left as it is. -/
theorem unmask_append {mask : Mask} {tail : Text} (absent : mask.marker ∉ tail) (text : Text) :
    mask.unmask (text ++ tail) = mask.unmask text ++ tail := by
  fun_induction unmask mask text with
  | case1 =>
      have whole := unmask_append_of_not_mem mask [] absent
      rwa [unmask, List.append_nil] at whole
  | case2 rest notFound inductionHypothesis =>
      have stillNotFound : mask.takeLiteral? (rest ++ tail) = none := by
        rw [takeLiteral?_append absent, notFound, Option.map_none]
      rw [List.cons_append, unmask_marker_of_eq_none stillNotFound, inductionHypothesis, List.cons_append]
  | case3 rest literal after found inductionHypothesis =>
      have stillFound : mask.takeLiteral? (rest ++ tail) = some (literal, after ++ tail) := by
        rw [takeLiteral?_append absent, found, Option.map_some]
      rw [List.cons_append, unmask_marker_of_eq_some stillFound, inductionHypothesis, List.append_assoc]
  | case4 c rest different inductionHypothesis =>
      rw [List.cons_append, unmask, if_neg different, inductionHypothesis, List.cons_append]

end Mask

namespace Text.IsReturn

variable {tail : Text} (isReturn : tail.IsReturn)

include isReturn

theorem isQuote_eq_false : ∀ c ∈ tail, isQuote c = false := by
  intro c member
  obtain rfl | rfl := isReturn c member
  · decide
  · decide

theorem not_isMarker : ∀ c ∈ tail, ¬Mask.IsMarker c := by
  intro c member
  obtain rfl | rfl := isReturn c member
  · decide
  · decide

theorem spaces_contains : ∀ c ∈ tail, CharSet.spaces.contains c = true := by
  intro c member
  obtain rfl | rfl := isReturn c member
  · decide
  · decide

theorem isBlank : ∀ c ∈ tail, Dialect.isBlank c = true := by
  intro c member
  obtain rfl | rfl := isReturn c member
  · decide
  · decide

end Text.IsReturn

namespace Mask

section SameMarker

variable {mask other : Mask} (sameMarker : mask.marker = other.marker)

include sameMarker

theorem textFrom_congr (number : Nat) (fragments : List Fragment) :
    mask.textFrom number fragments = other.textFrom number fragments := by
  induction fragments generalizing number with
  | nil => rfl
  | cons fragment fragments inductionHypothesis =>
      cases fragment with
      | plain c => rw [textFrom, textFrom, inductionHypothesis]
      | literal quoted => rw [textFrom, textFrom, inductionHypothesis, placeholder, placeholder, sameMarker]

theorem endsFrom_congr (number inText inCode : Nat) (fragments : List Fragment) :
    mask.endsFrom number inText inCode fragments = other.endsFrom number inText inCode fragments := by
  induction fragments generalizing number inText inCode with
  | nil => rfl
  | cons fragment fragments inductionHypothesis =>
      cases fragment with
      | plain c => exact inductionHypothesis ..
      | literal quoted =>
          have samePlaceholder : mask.placeholder number = other.placeholder number := by
            rw [placeholder, placeholder, sameMarker]
          simp only [endsFrom, samePlaceholder, inductionHypothesis]

theorem unmask_congr (sameLiterals : mask.literals = other.literals) (text : Text) :
    mask.unmask text = other.unmask text := by
  have sameLiteral (rest : Text) : mask.takeLiteral? rest = other.takeLiteral? rest := by
    simp only [takeLiteral?, sameMarker, sameLiterals]
  fun_induction unmask mask text with
  | case1 => rw [unmask]
  | case2 rest notFound inductionHypothesis =>
      rw [sameLiteral] at notFound
      rw [inductionHypothesis, sameMarker, unmask_marker_of_eq_none notFound]
  | case3 rest literal after found inductionHypothesis =>
      rw [sameLiteral] at found
      rw [inductionHypothesis, sameMarker, unmask_marker_of_eq_some found]
  | case4 c rest different inductionHypothesis =>
      rw [sameMarker] at different
      rw [unmask, if_neg different, inductionHypothesis]

end SameMarker

theorem endsFrom_plain (mask : Mask) (number inText inCode : Nat) (text : Text) :
    mask.endsFrom number inText inCode (text.map .plain) = [] := by
  induction text generalizing inText inCode with
  | nil => rfl
  | cons c rest inductionHypothesis => exact inductionHypothesis ..

/-- The mask of code with something behind it that is neither quoted nor a marker. -/
def followedBy (mask : Mask) (tail : Text) : Mask :=
  { mask with fragments := mask.fragments ++ tail.map .plain }

theorem marker_followedBy (mask : Mask) (tail : Text) : (mask.followedBy tail).marker = mask.marker := rfl

theorem text_followedBy (mask : Mask) (tail : Text) : (mask.followedBy tail).text = mask.text ++ tail := by
  rw [text, textFrom_congr (marker_followedBy mask tail), followedBy, textFrom_append, textFrom_plain, text]

theorem offsetInCode_followedBy (mask : Mask) (tail : Text) (offset : Nat) :
    (mask.followedBy tail).offsetInCode offset = mask.offsetInCode offset := by
  have sameEnds : (mask.followedBy tail).ends = mask.ends := by
    rw [ends, endsFrom_congr (marker_followedBy mask tail), followedBy, endsFrom_append, endsFrom_plain,
      List.append_nil, ends]
  rw [offsetInCode, offsetInCode, sameEnds]

theorem unmask_followedBy (mask : Mask) (tail text : Text) :
    (mask.followedBy tail).unmask text = mask.unmask text := by
  apply unmask_congr (marker_followedBy mask tail)
  rw [literals, followedBy, List.filterMap_append, List.filterMap_map]
  simp [literals, Fragment.literal?, Function.comp_def]

theorem ofCode_append_return {tail : Text} (isReturn : tail.IsReturn) (code : Text) :
    ofCode (code ++ tail) = (ofCode code).followedBy tail := by
  simp only [ofCode, followedBy, markerFor_append isReturn.not_isMarker,
    Fragment.ofCode_append_of_no_quote isReturn.isQuote_eq_false]

theorem text_ofCode_append_return {tail : Text} (isReturn : tail.IsReturn) (code : Text) :
    (ofCode (code ++ tail)).text = (ofCode code).text ++ tail := by
  rw [ofCode_append_return isReturn, text_followedBy]

end Mask

namespace Table

variable {table : Table} (identifiers : ∀ word ∈ table.keywords, word.isIdentifier = true)

include identifiers

theorem replaceWords_append_separators {tail : Text}
    (separators : ∀ c ∈ tail, isIdentifierChar c = false) (text : Text) :
    table.replaceWords (text ++ tail) = table.replaceWords text ++ tail := by
  have tailLexemes : Lexeme.ofText tail = tail.map .other := by
    have all := Lexeme.ofText_separators separators []
    rwa [List.append_nil, Lexeme.ofText_nil, List.append_nil] at all
  have noWord : Lexeme.NoWordFirst (Lexeme.ofFragments (tail.map .plain)) := by
    apply Lexeme.noWordFirst_ofText
    cases tail with
    | nil => rfl
    | cons c rest => exact separators c List.mem_cons_self
  have split : Lexeme.ofText (text ++ tail) = Lexeme.ofText text ++ tail.map .other := by
    rw [Lexeme.ofText, List.map_append, Lexeme.ofFragments_append _ noWord, ← tailLexemes]
    rfl
  rw [replaceWords_eq identifiers, replaceWords_eq identifiers, split, List.flatMap_append]
  simp [rewriteLexeme, Lexeme.text, List.flatMap_map]

theorem replaceInCode_append_return {tail : Text} (isReturn : tail.IsReturn) (code : Text) :
    table.replaceInCode (code ++ tail) = table.replaceInCode code ++ tail := by
  have separators : ∀ c ∈ tail, isIdentifierChar c = false := fun c member =>
    Text.isIdentifierChar_of_isBlank (isReturn.isBlank c member)
  have absent : (Mask.ofCode code).marker ∉ tail := fun member =>
    isReturn.not_isMarker _ member (Mask.isMarker_marker_ofCode code)
  rw [replaceInCode, replaceInCode, Mask.ofCode_append_return isReturn, Mask.text_followedBy,
    replaceWords_append_separators identifiers separators, Mask.unmask_followedBy, Mask.unmask_append absent]

theorem flatMap_replaceInPiece_of_returned {pieces later : List Piece}
    (returned : Piece.Returned pieces later) :
    later.flatMap table.replaceInPiece = pieces.flatMap table.replaceInPiece ++ ['\r'] := by
  have isReturn : Text.IsReturn ['\r'] := by simp [Text.IsReturn]
  induction returned with
  | code content => simp [replaceInPiece, replaceInCode_append_return identifiers isReturn]
  | comment content =>
      by_cases empty : content = []
      · simp [Piece.commentOf, empty, replaceInPiece]
      · simp [Piece.commentOf, empty, replaceInPiece]
  | apart =>
      have added := replaceInCode_append_return identifiers isReturn []
      have nothing : table.replaceInCode [] = [] := by
        rw [replaceInCode, replaceWords_eq identifiers]
        simp [Mask.ofCode, Mask.text, Fragment.ofCode, Mask.textFrom, Lexeme.ofText_nil, Mask.unmask]
      simpa [replaceInPiece, nothing] using added
  | cons piece _ inductionHypothesis => simp [inductionHypothesis]

theorem replaceInLine_return (text : Text) (openBefore : Bool) :
    table.replaceInLine (Line.read (text ++ ['\r']) openBefore) =
      table.replaceInLine (Line.read text openBefore) ++ ['\r'] :=
  flatMap_replaceInPiece_of_returned identifiers (Line.returned_read text openBefore).1

end Table

end Dialect
