import Dialect.Proofs.Acceptance
import Dialect.Proofs.Masking
import Dialect.Proofs.Segmentation

/-!
# The two views of the code of a line

Keywords are replaced in each code piece of a line, and they are judged in the code of the line, which
joins the pieces. Positions go back from masked text to code and from there to the line. Main
statement: both views have the same literals, and the same keywords at the same places of the line
(`Table.replaced_agrees_with_standalone`).
-/

namespace Dialect

namespace Lexeme

/-! ## Lexemes take up room -/

theorem text_ne_nil_of_mem_consChar {c : Char} {lexemes : List Lexeme} {lexeme : Lexeme}
    (others : ∀ other ∈ lexemes, other.text ≠ []) (member : lexeme ∈ consChar c lexemes) :
    lexeme.text ≠ [] := by
  rcases mem_consChar member with ⟨content, isWord⟩ | isOther | inLexemes
  · rw [isWord]
    exact List.cons_ne_nil c content
  · rw [isOther]
    exact List.cons_ne_nil c []
  · exact others lexeme inLexemes

theorem text_ne_nil_of_mem_ofFragments {fragments : List Fragment}
    (nonempty : ∀ fragment ∈ fragments, fragment.text ≠ []) {lexeme : Lexeme}
    (member : lexeme ∈ ofFragments fragments) : lexeme.text ≠ [] := by
  induction fragments generalizing lexeme with
  | nil => simp [ofFragments] at member
  | cons fragment others inductionHypothesis =>
      have othersNonempty : ∀ other ∈ others, other.text ≠ [] :=
        fun other inOthers => nonempty other (List.mem_cons_of_mem fragment inOthers)
      cases fragment with
      | plain c =>
          exact text_ne_nil_of_mem_consChar (fun other => inductionHypothesis othersNonempty) member
      | literal quoted =>
          rcases List.mem_cons.mp member with equality | inOthers
          · rw [equality]
            exact nonempty (.literal quoted) List.mem_cons_self
          · exact inductionHypothesis othersNonempty inOthers

theorem lt_of_mem_located {start place : Nat} {lexeme : Lexeme} {lexemes : List Lexeme}
    (nonempty : ∀ other ∈ lexemes, other.text ≠ [])
    (member : (place, lexeme) ∈ located start lexemes) :
    place < start + Text.bytes (lexemes.flatMap text) := by
  obtain ⟨before, after, rfl, rfl⟩ := mem_located_iff.mp member
  have here : lexeme.text ≠ [] := nonempty lexeme (by simp)
  obtain ⟨c, rest, equality⟩ := List.exists_cons_of_ne_nil here
  have size := c.utf8Size_pos
  rw [List.flatMap_append, List.flatMap_cons, Text.bytes_append, Text.bytes_append, equality,
    Text.bytes_cons]
  omega

end Lexeme

theorem Fragment.text_ne_nil_of_mem_ofCode {code : Text} {fragment : Fragment}
    (member : fragment ∈ ofCode code) : fragment.text ≠ [] := by
  fun_induction ofCode code with
  | case1 => simp at member
  | case2 c rest _ inductionHypothesis =>
      rcases List.mem_cons.mp member with equality | inRest
      · rw [equality]
        exact List.cons_ne_nil c []
      · exact inductionHypothesis inRest
  | case3 c rest quoted after found inductionHypothesis =>
      rcases List.mem_cons.mp member with equality | inAfter
      · rw [equality]
        exact (Text.literal?_append found).2
      · exact inductionHypothesis inAfter

namespace Piece

/-! ## The lexemes of the code at their places in the line -/

theorem text_ne_nil_of_mem_lexemes {content : Text} {lexeme : Lexeme}
    (member : lexeme ∈ (code content).lexemes) : lexeme.text ≠ [] :=
  Lexeme.text_ne_nil_of_mem_ofFragments (fun _ => Fragment.text_ne_nil_of_mem_ofCode) member

theorem flatMap_text_lexemes (piece : Piece) : piece.lexemes.flatMap Lexeme.text = piece.text := by
  cases piece with
  | code content =>
      rw [lexemes, Lexeme.flatMap_text_ofFragments, Fragment.flatMap_text_ofCode, text]
  | comment content => simp [lexemes, text]

/-- The lexemes of the code pieces, with a space between each two. -/
def codeLexemes : List Piece → List Lexeme := joined (.other ' ') fun content => (code content).lexemes

/-- The lexemes of the joined code of pieces that begin at a byte offset of a line, with their places
in the line. A joining space has none. -/
def placed : Nat → List Piece → List (Option Nat × Lexeme)
  | _, [] => []
  | start, .comment content :: pieces => placed (start + content.bytes) pieces
  | start, .code content :: pieces =>
      (Lexeme.located start (code content).lexemes).map (Prod.map some id) ++
        if pieces.any isCode then (none, .other ' ') :: placed (start + content.bytes) pieces else []

theorem ofFragments_joined (pieces : List Piece) :
    Lexeme.ofFragments (joined (.plain ' ') Fragment.ofCode pieces) = codeLexemes pieces := by
  have space (fragments : List Fragment) :
      Lexeme.ofFragments (.plain ' ' :: fragments) = .other ' ' :: Lexeme.ofFragments fragments :=
    Lexeme.ofFragments_cons_separator fragments (by decide)
  induction pieces with
  | nil => rfl
  | cons piece others inductionHypothesis =>
      cases piece with
      | comment content => exact inductionHypothesis
      | code content =>
          rw [joined, codeLexemes, joined]
          cases others.any isCode with
          | false => simp [lexemes]
          | true =>
              simp only [if_true]
              rw [Lexeme.ofFragments_append, space, inductionHypothesis]
              · rfl
              · rw [space]
                exact Lexeme.noWordFirst_cons _ rfl

end Piece

namespace Line

theorem offsetInPieces?_of_lt {start offset : Nat} {content : Text} (pieces : List Piece)
    (inPiece : offset < content.bytes) :
    offsetInPieces? start offset (.code content :: pieces) = some (start + offset) := by
  rw [offsetInPieces?, if_pos inPiece]

theorem offsetInPieces?_joint (start : Nat) (content : Text) (pieces : List Piece) :
    offsetInPieces? start content.bytes (.code content :: pieces) = none := by
  rw [offsetInPieces?, if_neg (Nat.lt_irrefl _), if_pos rfl]

theorem offsetInPieces?_behind (start offset : Nat) (content : Text) (pieces : List Piece) :
    offsetInPieces? start (content.bytes + 1 + offset) (.code content :: pieces) =
      offsetInPieces? (start + content.bytes) offset pieces := by
  have remaining : content.bytes + 1 + offset - content.bytes - 1 = offset := by omega
  rw [offsetInPieces?, if_neg (by omega), if_neg (by omega), remaining]

end Line

namespace Piece

/-- The lexemes of the joined code are at the places to which their offsets lead. -/
theorem located_codeLexemes (start : Nat) (pieces : List Piece) :
    (Lexeme.located 0 (codeLexemes pieces)).map
        (Prod.map (fun offset => Line.offsetInPieces? start offset pieces) id) =
      placed start pieces := by
  induction pieces generalizing start with
  | nil => rfl
  | cons piece others inductionHypothesis =>
      cases piece with
      | comment content => exact inductionHypothesis (start + content.bytes)
      | code content =>
          have size : Text.bytes ((code content).lexemes.flatMap Lexeme.text) = content.bytes := by
            rw [flatMap_text_lexemes, text]
          -- Three kinds of offsets: inside this piece, at the joining space, and behind it.
          have inPiece : (Lexeme.located 0 (code content).lexemes).map
              (Prod.map (fun offset => Line.offsetInPieces? start offset (.code content :: others)) id) =
                (Lexeme.located start (code content).lexemes).map (Prod.map some id) := by
            have shifted := Lexeme.located_add start 0 (code content).lexemes
            rw [Nat.add_zero] at shifted
            rw [shifted, List.map_map]
            apply List.map_congr_left
            intro entry member
            have bound := Lexeme.lt_of_mem_located (fun _ => text_ne_nil_of_mem_lexemes) member
            rw [size, Nat.zero_add] at bound
            exact congrArg (·, entry.2) (Line.offsetInPieces?_of_lt others bound)
          have behind : (Lexeme.located (content.bytes + 1) (codeLexemes others)).map
              (Prod.map (fun offset => Line.offsetInPieces? start offset (.code content :: others)) id) =
                placed (start + content.bytes) others := by
            have shifted := Lexeme.located_add (content.bytes + 1) 0 (codeLexemes others)
            rw [Nat.add_zero] at shifted
            rw [shifted, List.map_map, ← inductionHypothesis]
            apply List.map_congr_left
            intro entry _
            exact congrArg (·, entry.2) (Line.offsetInPieces?_behind start entry.1 content others)
          rw [codeLexemes, joined, Lexeme.located_append, List.map_append, placed, inPiece, size,
            Nat.zero_add]
          congr 1
          cases others.any isCode with
          | false => rfl
          | true =>
              have joint := Line.offsetInPieces?_joint start content others
              simp only [if_true]
              rw [Lexeme.located, List.map_cons, Prod.map_apply, joint]
              exact congrArg _ behind

theorem placed_eq_nil {start : Nat} {pieces : List Piece} (noCode : pieces.any isCode = false) :
    placed start pieces = [] := by
  induction pieces generalizing start with
  | nil => rfl
  | cons piece others inductionHypothesis =>
      rw [List.any_cons, Bool.or_eq_false_iff] at noCode
      cases piece with
      | comment content => exact inductionHypothesis noCode.2
      | code content => simp [isCode, code?] at noCode

/-- The keywords of the joined code stand at places of the line: those of the keywords of the
pieces. -/
theorem keywordPlaces_placed (table : Table) (start : Nat) (pieces : List Piece) :
    table.keywordPlaces (placed start pieces) =
      (table.keywordPlaces (Lexeme.located start (pieces.flatMap lexemes))).map
        (Prod.map some id) := by
  induction pieces generalizing start with
  | nil => rfl
  | cons piece others inductionHypothesis =>
      have later := inductionHypothesis (start + piece.text.bytes)
      rw [List.flatMap_cons, Lexeme.located_append, flatMap_text_lexemes, Table.keywordPlaces_append,
        List.map_append, ← later]
      cases piece with
      | comment content => rfl
      | code content =>
          rw [placed, Table.keywordPlaces_append, Table.keywordPlaces_map]
          congr 1
          cases noCode : others.any isCode with
          | false => simp [placed_eq_nil noCode]
          | true => exact Table.keywordPlaces_cons_of_none _ _ rfl

end Piece

namespace Table

/-- The keywords that replacing takes away from pieces that begin at a byte offset of a line, with
their byte offsets in the line. -/
def replacedInPieces (table : Table) : Nat → List Piece → List (Nat × Text)
  | _, [] => []
  | start, .comment text :: pieces => replacedInPieces table (start + text.bytes) pieces
  | start, .code text :: pieces =>
      (table.replaced (Mask.ofCode text).text).map
          (Prod.map (fun offset => start + (Mask.ofCode text).offsetInCode offset) id) ++
        replacedInPieces table (start + text.bytes) pieces

section Accepted

variable {table : Table} (wellFormed : table.WellFormed)

include wellFormed

theorem replacedInPieces_eq (start : Nat) (pieces : List Piece) :
    table.replacedInPieces start pieces =
      table.keywordPlaces (Lexeme.located start (pieces.flatMap Piece.lexemes)) := by
  induction pieces generalizing start with
  | nil => rfl
  | cons piece others inductionHypothesis =>
      have later := inductionHypothesis (start + piece.text.bytes)
      rw [List.flatMap_cons, Lexeme.located_append, Piece.flatMap_text_lexemes, keywordPlaces_append,
        ← later]
      cases piece with
      | comment content => rfl
      | code content =>
          have shifted := Lexeme.located_add start 0 (Piece.code content).lexemes
          have here := Mask.keywordPlaces_text_ofCode wellFormed.identifiers content
          rw [Nat.add_zero] at shifted
          rw [replacedInPieces, replaced_eq wellFormed.identifiers, shifted, keywordPlaces_map,
            Piece.lexemes, ← here, List.map_map]
          rfl

/-- The keywords that are judged on a line, with their places in the line, are the lexemes of the
line that are keywords. -/
theorem standalone_read_eq (text : Text) (openBefore : Bool) :
    (table.standalone (Mask.ofCode (Line.read text openBefore).code).text).map
        (Prod.map (fun offset => (Line.read text openBefore).offsetInLine?
          ((Mask.ofCode (Line.read text openBefore).code).offsetInCode offset)) id) =
      (table.keywordPlaces (Lexeme.located 0 (Lexeme.read text openBefore).1)).map
        (Prod.map some id) := by
  have inCode := Mask.keywordPlaces_text_ofCode wellFormed.identifiers (Line.read text openBefore).code
  rw [Line.ofCode_code, Piece.ofFragments_joined] at inCode
  have inLine := congrArg
    (List.map (Prod.map (fun offset => (Line.read text openBefore).offsetInLine? offset) id)) inCode
  rw [List.map_map, ← keywordPlaces_map] at inLine
  rw [standalone_eq wellFormed.identifiers wellFormed.distinct, Lexeme.read_eq,
    ← Piece.keywordPlaces_placed, ← Piece.located_codeLexemes]
  exact inLine

end Accepted

end Table

theorem Piece.filterMap_literal?_joined (pieces : List Piece) :
    (joined (.plain ' ') Fragment.ofCode pieces).filterMap Fragment.literal? =
      (pieces.filterMap code?).flatMap fun content =>
        (Fragment.ofCode content).filterMap Fragment.literal? := by
  induction pieces with
  | nil => rfl
  | cons piece others inductionHypothesis =>
      cases piece with
      | comment content => exact inductionHypothesis
      | code content =>
          have first : code? (.code content) = some content := rfl
          rw [List.filterMap_cons_some first, List.flatMap_cons, ← inductionHypothesis, joined,
            List.filterMap_append]
          congr 1
          cases noCode : others.any isCode with
          | true => rfl
          | false =>
              rw [inductionHypothesis, (any_isCode_eq_false_iff others).mp noCode]
              rfl

/-- What replacing and judging see of a line: the same literals, and the same keywords at the same
places. -/
theorem Table.replaced_agrees_with_standalone {read? : Text → Option Pattern} {rules : List Rule}
    {table : Table} (accepted : ofRules read? rules = .ok table) (text : Text) (openBefore : Bool) :
    let line := Line.read text openBefore
    let mask := Mask.ofCode line.code
    (mask.literals =
        (line.pieces.filterMap Piece.code?).flatMap fun code => (Mask.ofCode code).literals) ∧
      (table.replacedInPieces 0 line.pieces).map (Prod.map some id) =
        (table.standalone mask.text).map
          (Prod.map (fun offset => line.offsetInLine? (mask.offsetInCode offset)) id) := by
  have wellFormed := wellFormed_of_ofRules accepted
  constructor
  · have fragments := Line.ofCode_code text openBefore
    simp only [Mask.literals, Mask.ofCode, fragments]
    exact Piece.filterMap_literal?_joined _
  · rw [standalone_read_eq wellFormed, replacedInPieces_eq wellFormed, Lexeme.read_eq]

theorem Table.builtin_replaced_agrees_behind_open_quote :
    let line := Line.read "fun ' /* fun */ yay \"fun\"".toList false
    let mask := Mask.ofCode line.code
    builtin.replacedInPieces 0 line.pieces = [(0, "fun".toList), (16, "yay".toList)] ∧
      (mask.literals =
        (line.pieces.filterMap Piece.code?).flatMap fun code => (Mask.ofCode code).literals) ∧
      (builtin.replacedInPieces 0 line.pieces).map (Prod.map some id) =
        (builtin.standalone mask.text).map
          (Prod.map (fun offset => line.offsetInLine? (mask.offsetInCode offset)) id) :=
  ⟨by decide +kernel, replaced_agrees_with_standalone ofRules_builtinRules _ _⟩

end Dialect
