import Mathlib.Data.List.Chain
import Mathlib.Data.List.Forall2
import Dialect.Proofs.Agreement
import Dialect.Proofs.FixedPoints

/-!
# Where comments and literals stand in compiled code

A rewritten line has the lexemes of the line with each keyword replaced, and the pieces of a line can
be told from its lexemes: comments are pieces of their own, and a reader never cuts code where no
comment is. So each piece of the rewritten line comes from one piece of the line. Main statement:
compiling keeps the comments, the literals and the comment flags of every line
(`Table.compile_keepsLayout`).
-/

namespace Dialect

namespace Lexeme

/-- Whether a lexeme is a comment. -/
def isComment : Lexeme → Bool
  | .comment _ => true
  | _ => false

theorem isComment_of_mem_ofFragments {fragments : List Fragment} {lexeme : Lexeme}
    (member : lexeme ∈ ofFragments fragments) : lexeme.isComment = false := by
  induction fragments with
  | nil => simp [ofFragments] at member
  | cons fragment others inductionHypothesis =>
      cases fragment with
      | plain c =>
          rcases mem_consChar member with ⟨content, isWord⟩ | isOther | inOthers
          · rw [isWord]
            rfl
          · rw [isOther]
            rfl
          · exact inductionHypothesis inOthers
      | literal quoted =>
          rcases List.mem_cons.mp member with isLiteral | inOthers
          · rw [isLiteral]
            rfl
          · exact inductionHypothesis inOthers

/-- There is one way to cut lexemes in front of the first comment. -/
theorem eq_of_append_eq_append {left right otherLeft otherRight : List Lexeme}
    (leftCode : ∀ lexeme ∈ left, lexeme.isComment = false)
    (otherCode : ∀ lexeme ∈ otherLeft, lexeme.isComment = false)
    (rightStops : ∀ lexeme ∈ right.head?, lexeme.isComment = true)
    (otherStops : ∀ lexeme ∈ otherRight.head?, lexeme.isComment = true)
    (same : left ++ right = otherLeft ++ otherRight) : left = otherLeft ∧ right = otherRight := by
  induction left generalizing otherLeft with
  | nil =>
      cases otherLeft with
      | nil => exact ⟨rfl, same⟩
      | cons lexeme others =>
          have code := otherCode lexeme List.mem_cons_self
          rw [rightStops lexeme (by rw [List.nil_append] at same; rw [same]; rfl)] at code
          exact absurd code (by decide)
  | cons lexeme others inductionHypothesis =>
      cases otherLeft with
      | nil =>
          have code := leftCode lexeme List.mem_cons_self
          rw [otherStops lexeme (by rw [List.nil_append] at same; rw [← same]; rfl)] at code
          exact absurd code (by decide)
      | cons otherLexeme more =>
          obtain ⟨rfl, later⟩ := List.cons.inj same
          obtain ⟨rfl, rfl⟩ := inductionHypothesis
            (fun other member => leftCode other (List.mem_cons_of_mem _ member))
            (fun other member => otherCode other (List.mem_cons_of_mem _ member)) later
          exact ⟨rfl, rfl⟩

end Lexeme

namespace Piece

/-! ## Telling pieces from lexemes -/

/-- The lexemes that a piece can consist of. -/
def Admits : Piece → List Lexeme → Prop
  | .comment content, lexemes => lexemes = [.comment content]
  | .code _, lexemes => lexemes ≠ [] ∧ ∀ lexeme ∈ lexemes, lexeme.isComment = false

/-- No two code pieces stand side by side. -/
def Separated (pieces : List Piece) : Prop :=
  pieces.IsChain fun first second => first.isCode = false ∨ second.isCode = false

theorem separated_comment {content : Text} {pieces : List Piece} (separated : Separated pieces) :
    Separated (.comment content :: pieces) :=
  List.isChain_cons.mpr ⟨fun _ _ => Or.inl rfl, separated⟩

theorem separated_consCode {pieces : List Piece} (added : Text) (separated : Separated pieces) :
    Separated (consCode added pieces) := by
  cases pieces with
  | nil => exact List.isChain_singleton _
  | cons piece others =>
      cases piece with
      | comment content =>
          refine List.isChain_cons.mpr ⟨?_, separated⟩
          intro second isSecond
          rw [← Option.some.inj isSecond]
          exact Or.inr rfl
      | code first =>
          obtain ⟨next, othersSeparated⟩ := List.isChain_cons.mp separated
          exact List.isChain_cons.mpr ⟨next, othersSeparated⟩

theorem separated_readCode (text : Text) : Separated (Line.readCode text).1 := by
  fun_induction Line.readCode text with
  | case1 => exact List.isChain_nil
  | case2 rest => exact List.isChain_singleton _
  | case3 rest _ => exact List.isChain_singleton _
  | case4 rest body after closed pieces isOpen readAfter inductionHypothesis =>
      rw [readAfter] at inductionHypothesis
      exact separated_comment inductionHypothesis
  | case5 c rest _ _ unclosed pieces isOpen readAfter inductionHypothesis =>
      rw [readAfter] at inductionHypothesis
      exact separated_consCode [c] inductionHypothesis
  | case6 c rest _ _ literal after found pieces isOpen readAfter inductionHypothesis =>
      rw [readAfter] at inductionHypothesis
      exact separated_consCode literal inductionHypothesis

theorem separated_read (text : Text) (openBefore : Bool) :
    Separated (Line.read text openBefore).pieces := by
  rcases Line.pieces_read_cases text openBefore with ⟨after, equality⟩ | ⟨comment, after, equality⟩
  · rw [equality]
    exact separated_readCode after
  · rw [equality]
    exact separated_comment (separated_readCode after)

theorem isComment_of_mem_lexemes (content : Text) :
    ∀ lexeme ∈ (code content).lexemes, lexeme.isComment = false :=
  fun _ => Lexeme.isComment_of_mem_ofFragments

theorem admits_lexemes_of_mem_read {text : Text} {openBefore : Bool} {piece : Piece}
    (member : piece ∈ (Line.read text openBefore).pieces) : piece.Admits piece.lexemes := by
  cases piece with
  | comment content => rfl
  | code content =>
      have nonempty : content ≠ [] := by
        rcases Line.pieces_read_cases text openBefore with
          ⟨after, equality⟩ | ⟨comment, after, equality⟩
        · rw [equality] at member
          exact ne_nil_of_mem_readCode after content member
        · rw [equality] at member
          exact ne_nil_of_mem_readCode after content (by simpa using member)
      exact ⟨lexemes_code_ne_nil nonempty, isComment_of_mem_lexemes content⟩

/-- Behind a code piece the lexemes go on with a comment. -/
theorem isComment_of_head?_flatMap {content : Text} {pieces : List Piece}
    {parts : Piece → List Lexeme} (separated : Separated (.code content :: pieces))
    (admitted : ∀ piece ∈ pieces, piece.Admits (parts piece)) :
    ∀ lexeme ∈ (pieces.flatMap parts).head?, lexeme.isComment = true := by
  intro lexeme isFirst
  cases pieces with
  | nil => simp at isFirst
  | cons piece others =>
      cases piece with
      | code next =>
          rcases (List.isChain_cons.mp separated).1 _ rfl with notCode | notCode
          · exact absurd notCode (by simp [isCode, code?])
          · exact absurd notCode (by simp [isCode, code?])
      | comment next =>
          have single : parts (.comment next) = [.comment next] := admitted _ List.mem_cons_self
          rw [List.flatMap_cons, single] at isFirst
          rw [← Option.some.inj isFirst]
          rfl

theorem exists_cons_of_admits {piece : Piece} {lexemes : List Lexeme}
    (admits : piece.Admits lexemes) :
    ∃ first others, lexemes = first :: others ∧ first.isComment = !piece.isCode := by
  cases piece with
  | comment content => exact ⟨.comment content, [], admits, rfl⟩
  | code content =>
      obtain ⟨first, others, rfl⟩ := List.exists_cons_of_ne_nil admits.1
      exact ⟨first, others, rfl, admits.2 first List.mem_cons_self⟩

theorem isCode_eq_of_append_eq {piece other : Piece} {left right otherLeft otherRight : List Lexeme}
    (admits : piece.Admits left) (otherAdmits : other.Admits otherLeft)
    (same : left ++ right = otherLeft ++ otherRight) : piece.isCode = other.isCode := by
  obtain ⟨first, more, rfl, kind⟩ := exists_cons_of_admits admits
  obtain ⟨otherFirst, otherMore, rfl, otherKind⟩ := exists_cons_of_admits otherAdmits
  rw [(List.cons.inj same).1, otherKind] at kind
  simpa using kind.symm

section Cutting

variable {parts otherParts : Piece → List Lexeme}

/-- A comment is one lexeme, and code ends where the next comment starts. -/
theorem eq_of_flatMap_cons_eq {piece other : Piece} {pieces others : List Piece}
    (separated : Separated (piece :: pieces)) (othersSeparated : Separated (other :: others))
    (admitted : ∀ part ∈ piece :: pieces, part.Admits (parts part))
    (othersAdmitted : ∀ part ∈ other :: others, part.Admits (otherParts part))
    (same : parts piece ++ pieces.flatMap parts = otherParts other ++ others.flatMap otherParts) :
    parts piece = otherParts other ∧ pieces.flatMap parts = others.flatMap otherParts := by
  have here := admitted piece List.mem_cons_self
  have otherHere := othersAdmitted other List.mem_cons_self
  have sameKind := isCode_eq_of_append_eq here otherHere same
  cases piece with
  | comment content =>
      cases other with
      | code otherContent => exact absurd sameKind (by simp [isCode, code?])
      | comment otherContent =>
          rw [Admits] at here otherHere
          rw [here, otherHere] at same ⊢
          obtain ⟨first, later⟩ := List.cons.inj same
          exact ⟨congrArg (fun lexeme => [lexeme]) first, later⟩
  | code content =>
      cases other with
      | comment otherContent => exact absurd sameKind (by simp [isCode, code?])
      | code otherContent =>
          exact Lexeme.eq_of_append_eq_append here.2 otherHere.2
            (isComment_of_head?_flatMap separated fun part member =>
              admitted part (List.mem_cons_of_mem _ member))
            (isComment_of_head?_flatMap othersSeparated fun part member =>
              othersAdmitted part (List.mem_cons_of_mem _ member)) same

/-- Pieces that consist of the same lexemes altogether do so one by one. -/
theorem forall₂_of_flatMap_eq {pieces others : List Piece} (separated : Separated pieces)
    (othersSeparated : Separated others) (admitted : ∀ part ∈ pieces, part.Admits (parts part))
    (othersAdmitted : ∀ part ∈ others, part.Admits (otherParts part))
    (same : pieces.flatMap parts = others.flatMap otherParts) :
    List.Forall₂ (fun piece other => parts piece = otherParts other) pieces others := by
  induction pieces generalizing others with
  | nil =>
      cases others with
      | nil => exact List.Forall₂.nil
      | cons other more =>
          obtain ⟨_, _, first, _⟩ := exists_cons_of_admits (othersAdmitted other List.mem_cons_self)
          simp [first] at same
  | cons piece rest inductionHypothesis =>
      cases others with
      | nil =>
          obtain ⟨_, _, first, _⟩ := exists_cons_of_admits (admitted piece List.mem_cons_self)
          simp [first] at same
      | cons other more =>
          obtain ⟨first, later⟩ :=
            eq_of_flatMap_cons_eq separated othersSeparated admitted othersAdmitted same
          refine List.Forall₂.cons first ?_
          exact inductionHypothesis (List.isChain_cons.mp separated).2
            (List.isChain_cons.mp othersSeparated).2
            (fun part member => admitted part (List.mem_cons_of_mem piece member))
            (fun part member => othersAdmitted part (List.mem_cons_of_mem other member)) later

end Cutting

/-- The literals of a piece. Comments have none. -/
def literals : Piece → List Text
  | .code content => (Mask.ofCode content).literals
  | .comment _ => []

theorem filterMap_literal?_lexemes (piece : Piece) :
    piece.lexemes.filterMap Lexeme.literal? = piece.literals := by
  cases piece with
  | code content => exact Lexeme.filterMap_literal?_ofFragments (Fragment.ofCode content)
  | comment content => rfl

end Piece

namespace Table

/-! ## Rewritten pieces -/

/-- A piece with its keywords replaced. -/
def rewrittenPiece (table : Table) : Piece → Piece
  | .code content => .code (table.replaceInCode content)
  | .comment content => .comment content

theorem filterMap_literal?_rewrittenLexemes (table : Table) (lexeme : Lexeme) :
    (table.rewrittenLexemes lexeme).filterMap Lexeme.literal? =
      [lexeme].filterMap Lexeme.literal? := by
  cases lexeme with
  | word content =>
      rw [rewrittenLexemes, Lexeme.ofText, Lexeme.filterMap_literal?_ofFragments, List.filterMap_map]
      exact List.filterMap_eq_nil_iff.mpr fun _ _ => rfl
  | comment content => rfl
  | literal content => rfl
  | other c => rfl

theorem flatMap_text_rewrittenLexemes (table : Table) (lexeme : Lexeme) :
    (table.rewrittenLexemes lexeme).flatMap Lexeme.text = table.rewriteLexeme lexeme := by
  cases lexeme with
  | word content => exact Lexeme.flatMap_text_ofText _
  | comment content => exact List.append_nil content
  | literal content => exact List.append_nil content
  | other c => rfl

theorem isComment_of_mem_flatMap_rewrittenLexemes (table : Table) {lexemes : List Lexeme}
    (allCode : ∀ lexeme ∈ lexemes, lexeme.isComment = false) :
    ∀ lexeme ∈ lexemes.flatMap table.rewrittenLexemes, lexeme.isComment = false := by
  intro lexeme member
  obtain ⟨original, inLexemes, inRewritten⟩ := List.mem_flatMap.mp member
  cases original with
  | word content => exact Lexeme.isComment_of_mem_ofFragments inRewritten
  | comment content => exact absurd (allCode _ inLexemes) (by simp [Lexeme.isComment])
  | literal content =>
      rw [List.mem_singleton.mp inRewritten]
      rfl
  | other c =>
      rw [List.mem_singleton.mp inRewritten]
      rfl

/-- What a line and its compiled form have in common: the pieces are of the same kinds, comments are
kept, in code only keywords are replaced, every piece has the literals it had, and the same comment is
open behind the line. -/
structure KeepsLayout (table : Table) (line out : Line) : Prop where
  pieces : line.pieces.map table.rewrittenPiece = out.pieces
  literals : line.pieces.map Piece.literals = out.pieces.map Piece.literals
  openAfter : line.openAfter = out.openAfter

section Settled

variable {table : Table} (settled : table.Settled)

include settled

theorem equivalent_ne_nil {content : Text} (nonempty : content ≠ []) :
    table.equivalent content ≠ [] := by
  rw [equivalent]
  cases found : table.row? content with
  | none => exact nonempty
  | some row => exact (settled.phrases row (List.mem_of_find?_eq_some found)).nonempty

theorem rewrittenLexemes_ne_nil {lexeme : Lexeme} (nonempty : lexeme.text ≠ []) :
    table.rewrittenLexemes lexeme ≠ [] := by
  cases lexeme with
  | word content =>
      intro nothing
      have whole := Lexeme.flatMap_text_ofText (table.equivalent content)
      rw [rewrittenLexemes] at nothing
      rw [nothing] at whole
      exact equivalent_ne_nil settled nonempty whole.symm
  | comment content => exact List.cons_ne_nil _ _
  | literal content => exact List.cons_ne_nil _ _
  | other c => exact List.cons_ne_nil _ _

/-- Rewriting leaves some code in a code piece and puts no comment there. -/
theorem admits_flatMap_rewrittenLexemes {piece : Piece} (admits : piece.Admits piece.lexemes) :
    piece.Admits (piece.lexemes.flatMap table.rewrittenLexemes) := by
  cases piece with
  | comment content => rfl
  | code content =>
      obtain ⟨nonempty, allCode⟩ := admits
      constructor
      · obtain ⟨first, others, equality⟩ := List.exists_cons_of_ne_nil nonempty
        have firstText : first.text ≠ [] := by
          apply Piece.text_ne_nil_of_mem_lexemes
          rw [equality]
          exact List.mem_cons_self
        rw [equality, List.flatMap_cons]
        exact List.append_ne_nil_of_left_ne_nil (rewrittenLexemes_ne_nil settled firstText) _
      · exact isComment_of_mem_flatMap_rewrittenLexemes table allCode

/-- Each piece of a rewritten line consists of what the lexemes of one piece of the line are rewritten
to. -/
theorem forall₂_lexemes_read (text : Text) (openBefore : Bool) :
    List.Forall₂ (fun piece out => piece.lexemes.flatMap table.rewrittenLexemes = out.lexemes)
      (Line.read text openBefore).pieces
      (Line.read (table.rewrittenText (Lexeme.read text openBefore).1) openBefore).pieces := by
  apply Piece.forall₂_of_flatMap_eq (Piece.separated_read _ _) (Piece.separated_read _ _)
  · intro piece member
    exact admits_flatMap_rewrittenLexemes settled (Piece.admits_lexemes_of_mem_read member)
  · intro piece member
    exact Piece.admits_lexemes_of_mem_read member
  · have again := congrArg Prod.fst (read_rewrittenText settled text openBefore)
    rw [← List.flatMap_assoc, ← Lexeme.lexemes_read, ← Lexeme.lexemes_read]
    exact again.symm

end Settled

/-- A piece is known from the lexemes that its own are rewritten to. -/
theorem rewrittenPiece_eq {table : Table} {piece out : Piece}
    (replaced : table.replaceInPiece piece = piece.lexemes.flatMap table.rewriteLexeme)
    (lexemes : piece.lexemes.flatMap table.rewrittenLexemes = out.lexemes) :
    table.rewrittenPiece piece = out := by
  have sameText : table.replaceInPiece piece = out.text := by
    rw [← Piece.flatMap_text_lexemes out, ← lexemes, List.flatMap_assoc, replaced]
    simp only [flatMap_text_rewrittenLexemes]
  cases piece with
  | code content =>
      have allCode := table.isComment_of_mem_flatMap_rewrittenLexemes
        (Piece.isComment_of_mem_lexemes content)
      rw [lexemes] at allCode
      cases out with
      | code outContent => exact congrArg Piece.code sameText
      | comment outContent => exact absurd (allCode _ List.mem_cons_self) (by simp [Lexeme.isComment])
  | comment content =>
      cases out with
      | comment outContent => exact congrArg Piece.comment sameText
      | code outContent =>
          have isCode := Piece.isComment_of_mem_lexemes outContent (.comment content)
            (by rw [← lexemes]; exact List.mem_cons_self)
          exact absurd isCode (by simp [Lexeme.isComment])

theorem literals_eq {table : Table} {piece out : Piece}
    (lexemes : piece.lexemes.flatMap table.rewrittenLexemes = out.lexemes) :
    piece.literals = out.literals := by
  rw [← Piece.filterMap_literal?_lexemes out, ← lexemes, List.filterMap_flatMap]
  simp only [filterMap_literal?_rewrittenLexemes]
  rw [← List.filterMap_flatMap, List.flatMap_singleton', Piece.filterMap_literal?_lexemes]

section Layout

variable {table : Table} (settled : table.Settled) (wellFormed : table.WellFormed)
  (markerFree : table.MarkerFree)

include settled wellFormed markerFree

theorem keepsLayout_read {text : Text} (openBefore : Bool)
    (spare : ∃ marker, Mask.IsMarker marker ∧ marker ∉ text) :
    table.KeepsLayout (Line.read text openBefore)
      (Line.read (table.rewrittenText (Lexeme.read text openBefore).1) openBefore) := by
  have perPiece := forall₂_lexemes_read settled text openBefore
  have replaced := (List.forall₂_and_left _ _).mpr
    ⟨fun piece => replaceInPiece_of_mem_read wellFormed markerFree spare, perPiece⟩
  refine ⟨?_, ?_, ?_⟩
  · rw [← List.forall₂_eq_eq_eq, List.forall₂_map_left_iff]
    exact replaced.imp fun piece out facts => rewrittenPiece_eq facts.1 facts.2
  · rw [← List.forall₂_eq_eq_eq, List.forall₂_map_left_iff, List.forall₂_map_right_iff]
    exact perPiece.imp fun piece out => literals_eq
  · have again := congrArg Prod.snd (read_rewrittenText settled text openBefore)
    rw [Lexeme.openAfter_read, Lexeme.openAfter_read] at again
    exact again.symm

/-- Reading rewritten lines carries along the comment flags of the lines. -/
theorem forall₂_keepsLayout_readAll {texts : List Text} (openBefore : Bool)
    (spare : ∀ text ∈ texts, ∃ marker, Mask.IsMarker marker ∧ marker ∉ text) :
    List.Forall₂ table.KeepsLayout (Line.readAll openBefore texts)
      (Line.readAll openBefore ((Lexeme.readLines openBefore texts).map table.rewrittenText)) := by
  induction texts generalizing openBefore with
  | nil => exact List.Forall₂.nil
  | cons text others inductionHypothesis =>
      have first := keepsLayout_read settled wellFormed markerFree openBefore
        (spare text List.mem_cons_self)
      rw [Line.readAll, Lexeme.readLines, List.map_cons, Line.readAll, ← first.openAfter,
        Lexeme.openAfter_read]
      exact List.Forall₂.cons first
        (inductionHypothesis _ fun other member => spare other (List.mem_cons_of_mem text member))

end Layout

/-- Compiling keeps the lines of a source, and on each line the kinds of its pieces, its comments, the
literals of its code and the comment that is open behind it. -/
theorem compile_keepsLayout {source file out : Text}
    (spare : ∃ marker, Mask.IsMarker marker ∧ marker ∉ source)
    (compiled : builtin.compile source file = .ok out) :
    out.lines.length = source.lines.length ∧
      List.Forall₂ builtin.KeepsLayout (Line.readAll false source.lines)
        (Line.readAll false out.lines) := by
  have isRewritten := eq_rewrite_of_compile wellFormed_builtin markerFree_builtin spare compiled
  have layout := forall₂_keepsLayout_readAll settled_builtin wellFormed_builtin markerFree_builtin
    false (Mask.spare_of_mem_lines spare)
  rw [← lines_rewrite settled_builtin, ← isRewritten] at layout
  have sameLength := layout.length_eq
  rw [← List.length_map Line.text, Line.map_text_readAll, ← List.length_map Line.text,
    Line.map_text_readAll] at sameLength
  exact ⟨sameLength.symm, layout⟩

theorem builtin_keepsLayout_behind_open_comment_and_quote :
    builtin.compile "when (\"it's /*\") \x7b yay/* \"a\nyay */fun/'fun'/yay\\\"yay//fun\"".toList [] =
        .ok "if (\"it's /*\") \x7b return/* \"a\nyay */function/'fun'/return\\\"yay//fun\"".toList ∧
      List.Forall₂ builtin.KeepsLayout
        (Line.readAll false
          (Text.lines "when (\"it's /*\") \x7b yay/* \"a\nyay */fun/'fun'/yay\\\"yay//fun\"".toList))
        (Line.readAll false
          (Text.lines
            "if (\"it's /*\") \x7b return/* \"a\nyay */function/'fun'/return\\\"yay//fun\"".toList)) := by
  have compiled :
      builtin.compile "when (\"it's /*\") \x7b yay/* \"a\nyay */fun/'fun'/yay\\\"yay//fun\"".toList [] =
        .ok "if (\"it's /*\") \x7b return/* \"a\nyay */function/'fun'/return\\\"yay//fun\"".toList :=
    eq_ok_of_toOption (by decide +kernel)
  exact ⟨compiled, (compile_keepsLayout ⟨Char.ofNat 0xE000, by decide, by decide⟩ compiled).2⟩

end Table

end Dialect
