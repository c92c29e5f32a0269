import Dialect.Proofs.Layout
import Dialect.Proofs.Scanning

/-!
# The comment grammar of a line

What the pieces of a line are can be said piece by piece, without reading the line: which text a
comment takes up, what code may not hold, and when a comment stays open. Main statement: the lines that
follow this grammar are exactly the lines that have been read (`Line.eq_read_iff_grammatical`).

Between the two stands `Piece.Cut`, which says from left to right which pieces can follow each other.
-/

namespace Dialect

namespace Text

/-! ## The end of a block comment -/

/-- What closes a block comment. -/
def commentEnd : Text := ['*', '/']

/-- A text goes just through the first `*/` of another: it is the shortest beginning that ends in
one. -/
structure RunsThroughEnd (content text : Text) : Prop where
  starts : content <+: text
  closed : commentEnd <:+ content
  shortest : ∀ other, other <+: text → commentEnd <:+ other → content.length ≤ other.length

/-- What a block comment takes up of the text behind its start: everything through the first `*/`, or
everything if there is none. -/
def TakenByComment (content text : Text) : Prop :=
  RunsThroughEnd content text ∨ content = text ∧ ¬commentEnd <:+: text

theorem runsThroughEnd_commentEnd (rest : Text) : RunsThroughEnd commentEnd (commentEnd ++ rest) where
  starts := List.prefix_append commentEnd rest
  closed := List.suffix_rfl
  shortest := fun _ _ ending => ending.length_le

theorem RunsThroughEnd.cons {c : Char} {content rest : Text}
    (notHere : ∀ others, c = '*' → rest = '/' :: others → False)
    (runs : RunsThroughEnd content rest) : RunsThroughEnd (c :: content) (c :: rest) where
  starts := List.cons_prefix_cons.mpr ⟨rfl, runs.starts⟩
  closed := runs.closed.trans (List.suffix_cons c content)
  shortest := by
    intro other starts ending
    cases other with
    | nil => simp [commentEnd] at ending
    | cons d more =>
        obtain ⟨rfl, later⟩ := List.cons_prefix_cons.mp starts
        rcases List.suffix_cons_iff.mp ending with here | inMore
        · obtain ⟨isStar, isSlash⟩ := List.cons.inj here
          obtain ⟨others, joined⟩ := later
          rw [← isSlash] at joined
          exact (notHere others isStar.symm joined.symm).elim
        · exact Nat.succ_le_succ (runs.shortest more later inMore)

theorem RunsThroughEnd.unique {content other text : Text} (runs : RunsThroughEnd content text)
    (otherRuns : RunsThroughEnd other text) : content = other := by
  have sameLength : content.length = other.length :=
    Nat.le_antisymm (runs.shortest other otherRuns.starts otherRuns.closed)
      (otherRuns.shortest content runs.starts runs.closed)
  exact (List.prefix_of_prefix_length_le runs.starts otherRuns.starts
    (Nat.le_of_eq sameLength)).eq_of_length sameLength

theorem RunsThroughEnd.isInfix {content text : Text} (runs : RunsThroughEnd content text) :
    commentEnd <:+: text :=
  runs.closed.isInfix.trans runs.starts.isInfix

theorem runsThroughEnd_of_closeComment? {text body after : Text}
    (closed : closeComment? text = some (body, after)) : RunsThroughEnd body text := by
  fun_induction closeComment? text generalizing body with
  | case1 => simp at closed
  | case2 rest =>
      obtain ⟨rfl, rfl⟩ := Prod.mk.inj (Option.some.inj closed)
      exact runsThroughEnd_commentEnd rest
  | case3 c rest notHere inductionHypothesis =>
      obtain ⟨⟨inner, tail⟩, innerClosed, equality⟩ := Option.map_eq_some_iff.mp closed
      obtain ⟨rfl, rfl⟩ := Prod.mk.inj equality
      exact (inductionHypothesis innerClosed).cons notHere

theorem closeComment?_eq_none_iff (text : Text) :
    closeComment? text = none ↔ ¬commentEnd <:+: text := by
  constructor
  · intro unclosed
    fun_induction closeComment? text with
    | case1 => simp [commentEnd]
    | case2 rest => simp at unclosed
    | case3 c rest notHere inductionHypothesis =>
        rw [List.infix_cons_iff]
        rintro (here | later)
        · obtain ⟨others, joined⟩ := here
          obtain ⟨isStar, isSlash⟩ := List.cons.inj joined
          exact notHere others isStar.symm isSlash.symm
        · exact inductionHypothesis (Option.map_eq_none_iff.mp unclosed) later
  · intro absent
    cases closed : closeComment? text with
    | none => rfl
    | some cut => exact absurd (runsThroughEnd_of_closeComment? closed).isInfix absent

theorem closeComment?_eq_some_iff (text body after : Text) :
    closeComment? text = some (body, after) ↔ text = body ++ after ∧ RunsThroughEnd body text := by
  constructor
  · intro closed
    exact ⟨(closeComment?_append closed).1.symm, runsThroughEnd_of_closeComment? closed⟩
  · rintro ⟨joined, runs⟩
    cases closed : closeComment? text with
    | none => exact absurd runs.isInfix ((closeComment?_eq_none_iff text).mp closed)
    | some cut =>
        obtain ⟨otherBody, otherAfter⟩ := cut
        obtain rfl := runs.unique (runsThroughEnd_of_closeComment? closed)
        rw [List.append_cancel_left (joined.symm.trans (closeComment?_append closed).1.symm)]

/-! ## Scanning code -/

/-- A reader that starts outside comments goes through a text and stops in front of the text behind it:
it skips each literal that the rest of the line closes, and everywhere else it passes a character that
starts no comment. So no skipped literal reaches beyond the text. -/
inductive ScansAsCode (behind : Text) : Text → Prop
  | done : ScansAsCode behind []
  | literal {quoted rest : Text} :
      literal? (quoted ++ (rest ++ behind)) = some (quoted, rest ++ behind) →
      ScansAsCode behind rest → ScansAsCode behind (quoted ++ rest)
  | char {c : Char} {rest : Text} :
      literal? (c :: (rest ++ behind)) = none →
      Lexeme.startsComment (c :: (rest ++ behind)) = false →
      ScansAsCode behind rest → ScansAsCode behind (c :: rest)

end Text

namespace Piece

/-! ## The grammar -/

/-- What a block comment starts with on a line: nothing if it was open before. -/
def commentStart (carried : Bool) : Text := if carried then [] else ['/', '*']

@[simp]
theorem commentStart_true_append (body : Text) : commentStart true ++ body = body := rfl

@[simp]
theorem commentStart_false_append (body : Text) :
    commentStart false ++ body = '/' :: '*' :: body := rfl

/-- What a piece can be in front of other pieces, given whether a comment is open before it: code, a
comment that takes up the rest of the line, or a block comment. -/
def Fits (carried : Bool) (after : List Piece) : Piece → Prop
  | .code content => carried = false ∧ Text.ScansAsCode (after.flatMap text) content
  | .comment content =>
      (carried = false ∧ ['/', '/'] <+: content ∧ after = []) ∨
      ∃ body, content = commentStart carried ++ body ∧
        Text.TakenByComment body (body ++ after.flatMap text)

/-- A block comment that nothing closes. -/
def StaysOpen (carried : Bool) : Piece → Prop
  | .code _ => False
  | .comment content => ∃ body, content = commentStart carried ++ body ∧ ¬Text.commentEnd <:+: body

end Piece

/-- The line with the given pieces. -/
def Line.ofPieces (openBefore : Bool) (pieces : List Piece) (openAfter : Bool) : Line where
  text := pieces.flatMap Piece.text
  pieces := pieces
  openBefore := openBefore
  openAfter := openAfter

/-- The comment grammar. Only the first piece can be a comment that was open before the line. -/
structure Line.Grammatical (line : Line) : Prop where
  joined : line.pieces.flatMap Piece.text = line.text
  nonempty : ∀ piece ∈ line.pieces, piece.text ≠ []
  separated : Piece.Separated line.pieces
  fits : ∀ before piece after, line.pieces = before ++ piece :: after →
    piece.Fits (before.isEmpty && line.openBefore) after
  openAfter : line.openAfter = true ↔
    (line.text = [] ∧ line.openBefore = true) ∨
    ∃ before piece, line.pieces = before ++ [piece] ∧
      piece.StaysOpen (before.isEmpty && line.openBefore)

namespace Piece

/-! ## From left to right -/

/-- The pieces that a reader can have cut, given whether a comment was open before them, and whether one
is open behind them. -/
inductive Cut : Bool → List Piece → Bool → Prop
  | nothing (carried : Bool) : Cut carried [] carried
  | lineComment (rest : Text) : Cut false [.comment ('/' :: '/' :: rest)] false
  | openComment {carried : Bool} {body : Text} :
      commentStart carried ++ body ≠ [] → ¬Text.commentEnd <:+: body →
      Cut carried [.comment (commentStart carried ++ body)] true
  | closedComment {carried : Bool} {body : Text} {pieces : List Piece} {isOpen : Bool} :
      Text.RunsThroughEnd body (body ++ pieces.flatMap text) → Cut false pieces isOpen →
      Cut carried (.comment (commentStart carried ++ body) :: pieces) isOpen
  | code {content : Text} {pieces : List Piece} {isOpen : Bool} :
      content ≠ [] → Text.ScansAsCode (pieces.flatMap text) content →
      pieces.head?.any isCode = false → Cut false pieces isOpen →
      Cut false (.code content :: pieces) isOpen

/-- Scanned code can be put in front of the pieces of a cut. -/
theorem Cut.consCode {added : Text} {pieces : List Piece} {isOpen : Bool}
    (cut : Cut false pieces isOpen) (nonempty : added ≠ [])
    (scans : ∀ content behind, content ++ behind = pieces.flatMap text →
      Text.ScansAsCode behind content → Text.ScansAsCode behind (added ++ content)) :
    Cut false (consCode added pieces) isOpen := by
  have alone : Text.ScansAsCode (pieces.flatMap text) added := by
    have scanned := scans [] (pieces.flatMap text) rfl .done
    rwa [List.append_nil] at scanned
  cases pieces with
  | nil => exact .code nonempty alone rfl cut
  | cons piece others =>
      cases piece with
      | comment content => exact .code nonempty alone rfl cut
      | code first =>
          cases cut with
          | code _ firstScans notCode othersCut =>
              exact .code (List.append_ne_nil_of_left_ne_nil nonempty first)
                (scans first (others.flatMap text) rfl firstScans) notCode othersCut

theorem cut_readCode (source : Text) :
    Cut false (Line.readCode source).1 (Line.readCode source).2 := by
  fun_induction Line.readCode source with
  | case1 => exact .nothing false
  | case2 rest => exact .lineComment rest
  | case3 rest unclosed =>
      exact @Cut.openComment false rest (List.cons_ne_nil _ _)
        ((Text.closeComment?_eq_none_iff rest).mp unclosed)
  | case4 rest body after closed pieces isOpen readAfter inductionHypothesis =>
      have whole := Line.flatMap_text_readCode after
      rw [readAfter] at inductionHypothesis whole
      obtain ⟨joined, runs⟩ := (Text.closeComment?_eq_some_iff rest body after).mp closed
      rw [joined, ← whole] at runs
      exact @Cut.closedComment false body pieces isOpen runs inductionHypothesis
  | case5 c rest notLine notBlock unclosed pieces isOpen readAfter inductionHypothesis =>
      have whole := Line.flatMap_text_readCode rest
      rw [readAfter] at inductionHypothesis whole
      apply inductionHypothesis.consCode (List.cons_ne_nil c [])
      intro content behind joined scanned
      rw [whole] at joined
      have noComment := Lexeme.startsComment_eq_false notLine notBlock
      rw [← joined] at unclosed noComment
      exact .char unclosed noComment scanned
  | case6 c rest notLine notBlock literal after found pieces isOpen readAfter inductionHypothesis =>
      have whole := Line.flatMap_text_readCode after
      rw [readAfter] at inductionHypothesis whole
      obtain ⟨literalJoined, nonempty⟩ := Text.literal?_append found
      apply inductionHypothesis.consCode nonempty
      intro content behind joined scanned
      rw [← literalJoined, ← whole, ← joined] at found
      exact .literal found scanned

theorem cut_read (source : Text) (openBefore : Bool) :
    Cut openBefore (Line.read source openBefore).pieces (Line.read source openBefore).openAfter := by
  cases openBefore with
  | false => exact cut_readCode source
  | true =>
      rw [Line.read, if_pos rfl, Line.readComment]
      cases closed : Text.closeComment? source with
      | none =>
          have absent := (Text.closeComment?_eq_none_iff source).mp closed
          by_cases empty : source = []
          · simpa [commentOf, empty] using Cut.nothing true
          · simpa [commentOf, empty] using @Cut.openComment true source empty absent
      | some cut =>
          obtain ⟨joined, runs⟩ := (Text.closeComment?_eq_some_iff source cut.1 cut.2).mp closed
          rw [joined, ← Line.flatMap_text_readCode cut.2] at runs
          exact @Cut.closedComment true cut.1 _ _ runs (cut_readCode cut.2)

/-! ## One way to cut a line -/

theorem consCode_behindCode {added : Text} (nonempty : added ≠ []) (rest : Text) (pieces : List Piece) :
    consCode added (Line.behindCode rest pieces) = Line.behindCode (added ++ rest) pieces := by
  by_cases empty : rest = []
  · rw [Line.behindCode, if_pos empty, empty, List.append_nil, Line.behindCode, if_neg nonempty]
  · rw [Line.behindCode, if_neg empty, Line.behindCode, if_neg (by simp [empty])]
    cases pieces with
    | nil => rfl
    | cons piece others =>
        cases piece with
        | code first => simp [consCode]
        | comment content => rfl

theorem readCode_append_of_scansAsCode {content behind : Text}
    (scans : Text.ScansAsCode behind content) :
    Line.readCode (content ++ behind) =
      (Line.behindCode content (Line.readCode behind).1, (Line.readCode behind).2) := by
  induction scans with
  | done => rfl
  | @literal quoted rest found _ inductionHypothesis =>
      obtain ⟨c, others, rfl⟩ := List.exists_cons_of_ne_nil (Text.literal?_append found).2
      obtain ⟨notLine, notBlock⟩ := Lexeme.not_comment_cases
        (Lexeme.startsComment_of_isQuote (others ++ (rest ++ behind)) (Lexeme.isQuote_of_literal? found))
      rw [List.append_assoc, List.cons_append, Line.readCode_of_literal? notLine notBlock found,
        inductionHypothesis, consCode_behindCode (List.cons_ne_nil c others)]
  | @char c rest unclosed noComment _ inductionHypothesis =>
      obtain ⟨notLine, notBlock⟩ := Lexeme.not_comment_cases noComment
      rw [List.cons_append, Line.readCode_of_unclosed_quote notLine notBlock unclosed,
        inductionHypothesis, consCode_behindCode (List.cons_ne_nil c [])]
      rfl

theorem behindCode_of_no_code_first {content : Text} {pieces : List Piece} (nonempty : content ≠ [])
    (notCode : pieces.head?.any isCode = false) :
    Line.behindCode content pieces = .code content :: pieces := by
  rw [Line.behindCode, if_neg nonempty]
  cases pieces with
  | nil => rfl
  | cons piece others =>
      cases piece with
      | comment _ => rfl
      | code _ => simp [isCode, code?] at notCode

theorem Cut.readCode_eq {pieces : List Piece} {isOpen : Bool} (cut : Cut false pieces isOpen) :
    Line.readCode (pieces.flatMap text) = (pieces, isOpen) := by
  generalize notCarried : false = carried at cut
  induction cut with
  | nothing carried =>
      subst notCarried
      exact Line.readCode.eq_1
  | lineComment rest => simp [text, Line.readCode]
  | @openComment carried body _ absent =>
      subst notCarried
      have unclosed := (Text.closeComment?_eq_none_iff body).mpr absent
      simpa [text, commentStart] using Line.readCode_of_unclosed_comment unclosed
  | @closedComment carried body pieces isOpen runs _ inductionHypothesis =>
      subst notCarried
      have closed := (Text.closeComment?_eq_some_iff _ body (pieces.flatMap text)).mpr ⟨rfl, runs⟩
      have read := Line.readCode_of_closed_comment closed
      rwa [inductionHypothesis rfl] at read
  | @code content pieces isOpen nonempty scans notCode _ inductionHypothesis =>
      rw [List.flatMap_cons, text, readCode_append_of_scansAsCode scans, inductionHypothesis rfl,
        behindCode_of_no_code_first nonempty notCode]

theorem Cut.readComment_eq {pieces : List Piece} {isOpen : Bool} (cut : Cut true pieces isOpen) :
    Line.readComment (pieces.flatMap text) = (pieces, isOpen) := by
  cases cut with
  | nothing => rfl
  | @openComment _ body nonempty absent =>
      have unclosed := (Text.closeComment?_eq_none_iff body).mpr absent
      rw [commentStart, if_pos rfl, List.nil_append] at nonempty
      simp [commentStart, text, Line.readComment, unclosed, commentOf, nonempty]
  | @closedComment _ body pieces _ runs othersCut =>
      have closed := (Text.closeComment?_eq_some_iff _ body (pieces.flatMap text)).mpr ⟨rfl, runs⟩
      simp [commentStart, text, Line.readComment, closed, othersCut.readCode_eq]

theorem Cut.read_eq {openBefore : Bool} {pieces : List Piece} {isOpen : Bool}
    (cut : Cut openBefore pieces isOpen) :
    Line.read (pieces.flatMap text) openBefore = .ofPieces openBefore pieces isOpen := by
  cases openBefore with
  | false => rw [Line.read, if_neg (by decide), cut.readCode_eq, Line.ofPieces]
  | true => rw [Line.read, if_pos rfl, cut.readComment_eq, Line.ofPieces]

end Piece

namespace Line

/-! ## The grammar from left to right -/

section First

variable {openBefore isOpen : Bool} {first : Piece} {others : List Piece}

/-- Only the first piece can be a comment that was open before. -/
theorem forall_fits_cons_iff :
    (∀ before piece after, first :: others = before ++ piece :: after →
      piece.Fits (before.isEmpty && openBefore) after) ↔
    first.Fits openBefore others ∧ ∀ before piece after, others = before ++ piece :: after →
      piece.Fits (before.isEmpty && false) after := by
  constructor
  · intro fits
    refine ⟨fits [] first others rfl, ?_⟩
    intro before piece after split
    rw [Bool.and_false]
    exact fits (first :: before) piece after (congrArg (first :: ·) split)
  · rintro ⟨firstFits, othersFit⟩ before piece after split
    cases before with
    | nil =>
        obtain ⟨rfl, rfl⟩ := List.cons.inj split
        exact firstFits
    | cons _ before =>
        have fits := othersFit before piece after (List.cons.inj split).2
        rwa [Bool.and_false] at fits

theorem exists_staysOpen_cons_iff :
    (∃ before piece, first :: others = before ++ [piece] ∧
      piece.StaysOpen (before.isEmpty && openBefore)) ↔
    (others = [] ∧ first.StaysOpen openBefore) ∨
      ∃ before piece, others = before ++ [piece] ∧ piece.StaysOpen (before.isEmpty && false) := by
  constructor
  · rintro ⟨before, piece, split, staysOpen⟩
    cases before with
    | nil =>
        obtain ⟨rfl, rfl⟩ := List.cons.inj split
        exact Or.inl ⟨rfl, staysOpen⟩
    | cons _ before =>
        exact Or.inr ⟨before, piece, (List.cons.inj split).2, by rwa [Bool.and_false]⟩
  · rintro (⟨rfl, staysOpen⟩ | ⟨before, piece, rfl, staysOpen⟩)
    · exact ⟨[], first, rfl, staysOpen⟩
    · refine ⟨first :: before, piece, rfl, ?_⟩
      rwa [Bool.and_false] at staysOpen

theorem separated_cons_iff :
    Piece.Separated (first :: others) ↔
      (first.isCode = true → others.head?.any Piece.isCode = false) ∧ Piece.Separated others := by
  rw [Piece.Separated, List.isChain_cons, Piece.Separated]
  refine and_congr_left fun _ => ?_
  cases others with
  | nil => simp
  | cons second _ => cases first.isCode <;> simp

/-- A piece that leaves no comment open can be put in front of a grammatical line, and taken off it. -/
theorem grammatical_cons_iff (nonempty : first.text ≠ [])
    (closed : others = [] → ¬first.StaysOpen openBefore) :
    (ofPieces openBefore (first :: others) isOpen).Grammatical ↔
      (first.isCode = true → others.head?.any Piece.isCode = false) ∧
        first.Fits openBefore others ∧ (ofPieces false others isOpen).Grammatical := by
  have laterOpen : ((first :: others).flatMap Piece.text = [] ∧ openBefore = true ∨
        ∃ before piece, first :: others = before ++ [piece] ∧
          piece.StaysOpen (before.isEmpty && openBefore)) ↔
      (others.flatMap Piece.text = [] ∧ false = true ∨
        ∃ before piece, others = before ++ [piece] ∧ piece.StaysOpen (before.isEmpty && false)) := by
    have notHere : ¬(others = [] ∧ first.StaysOpen openBefore) := fun here => closed here.1 here.2
    rw [exists_staysOpen_cons_iff]
    simp [nonempty, notHere]
  constructor
  · intro grammatical
    obtain ⟨next, separated⟩ := separated_cons_iff.mp grammatical.separated
    obtain ⟨firstFits, othersFit⟩ := forall_fits_cons_iff.mp grammatical.fits
    refine ⟨next, firstFits, rfl, ?_, separated, othersFit, ?_⟩
    · exact fun piece member => grammatical.nonempty piece (List.mem_cons_of_mem first member)
    · exact grammatical.openAfter.trans laterOpen
  · rintro ⟨next, firstFits, grammatical⟩
    refine ⟨rfl, ?_, separated_cons_iff.mpr ⟨next, grammatical.separated⟩,
      forall_fits_cons_iff.mpr ⟨firstFits, grammatical.fits⟩, ?_⟩
    · exact List.forall_mem_cons.mpr ⟨nonempty, grammatical.nonempty⟩
    · exact grammatical.openAfter.trans laterOpen.symm

end First

theorem grammatical_nil_iff {openBefore isOpen : Bool} :
    (ofPieces openBefore [] isOpen).Grammatical ↔ isOpen = openBefore := by
  constructor
  · intro grammatical
    simpa [ofPieces] using grammatical.openAfter
  · rintro rfl
    exact ⟨rfl, by simp [ofPieces], List.isChain_nil, by simp [ofPieces], by simp [ofPieces]⟩

/-- A comment that stays open takes up the rest of the line. -/
theorem grammatical_staysOpen_iff {openBefore isOpen : Bool} {first : Piece}
    (nonempty : first.text ≠ []) (staysOpen : first.StaysOpen openBefore) :
    (ofPieces openBefore [first] isOpen).Grammatical ↔ isOpen = true := by
  have isLast : ∃ before piece, [first] = before ++ [piece] ∧
      piece.StaysOpen (before.isEmpty && openBefore) := ⟨[], first, rfl, staysOpen⟩
  constructor
  · intro grammatical
    exact grammatical.openAfter.mpr (Or.inr isLast)
  · rintro rfl
    refine ⟨rfl, by simpa [ofPieces] using nonempty, List.isChain_singleton first, ?_,
      fun _ => Or.inr isLast, fun _ => rfl⟩
    refine forall_fits_cons_iff.mpr ⟨?_, by simp⟩
    cases first with
    | code content => exact staysOpen.elim
    | comment content =>
        obtain ⟨body, isContent, absent⟩ := staysOpen
        exact Or.inr ⟨body, isContent, Or.inr ⟨(List.append_nil body).symm, by simpa using absent⟩⟩

theorem grammatical_of_cut {openBefore isOpen : Bool} {pieces : List Piece}
    (cut : Piece.Cut openBefore pieces isOpen) :
    (ofPieces openBefore pieces isOpen).Grammatical := by
  induction cut with
  | nothing carried => exact grammatical_nil_iff.mpr rfl
  | lineComment rest =>
      rw [grammatical_cons_iff (by simp [Piece.text]) (by simp [Piece.StaysOpen])]
      exact ⟨by simp [Piece.isCode, Piece.code?], Or.inl ⟨rfl, ⟨rest, rfl⟩, rfl⟩,
        grammatical_nil_iff.mpr rfl⟩
  | @openComment carried body nonempty absent =>
      have staysOpen : Piece.StaysOpen carried (.comment (Piece.commentStart carried ++ body)) :=
        ⟨body, rfl, absent⟩
      rw [grammatical_staysOpen_iff (by simpa [Piece.text] using nonempty) staysOpen]
  | @closedComment carried body pieces isOpen runs _ inductionHypothesis =>
      have bodyNonempty : body ≠ [] := by
        rintro rfl
        exact absurd runs.closed (by decide)
      have closed : ¬Piece.StaysOpen carried (.comment (Piece.commentStart carried ++ body)) := by
        rintro ⟨other, sameContent, absent⟩
        rw [← List.append_cancel_left sameContent] at absent
        exact absent runs.closed.isInfix
      rw [grammatical_cons_iff (by simp [Piece.text, bodyNonempty]) fun _ => closed]
      exact ⟨by simp [Piece.isCode, Piece.code?], Or.inr ⟨body, rfl, Or.inl runs⟩, inductionHypothesis⟩
  | @code content pieces isOpen nonempty scans notCode _ inductionHypothesis =>
      rw [grammatical_cons_iff (by simpa [Piece.text] using nonempty) (by simp [Piece.StaysOpen])]
      exact ⟨fun _ => notCode, ⟨rfl, scans⟩, inductionHypothesis⟩

theorem cut_of_grammatical {openBefore isOpen : Bool} {pieces : List Piece}
    (grammatical : (ofPieces openBefore pieces isOpen).Grammatical) :
    Piece.Cut openBefore pieces isOpen := by
  induction pieces generalizing openBefore with
  | nil =>
      rw [grammatical_nil_iff.mp grammatical]
      exact .nothing openBefore
  | cons first others inductionHypothesis =>
      have nonempty : first.text ≠ [] := grammatical.nonempty first List.mem_cons_self
      by_cases here : others = [] ∧ first.StaysOpen openBefore
      · obtain ⟨rfl, staysOpen⟩ := here
        rw [(grammatical_staysOpen_iff nonempty staysOpen).mp grammatical]
        cases first with
        | code content => exact staysOpen.elim
        | comment content =>
            obtain ⟨body, rfl, absent⟩ := staysOpen
            exact .openComment nonempty absent
      · rw [grammatical_cons_iff nonempty fun empty staysOpen => here ⟨empty, staysOpen⟩] at grammatical
        obtain ⟨next, firstFits, othersGrammatical⟩ := grammatical
        have othersCut := inductionHypothesis othersGrammatical
        cases first with
        | code content =>
            obtain ⟨rfl, scans⟩ := firstFits
            exact .code nonempty scans (next rfl) othersCut
        | comment content =>
            rcases firstFits with ⟨rfl, ⟨rest, rfl⟩, rfl⟩ | ⟨body, rfl, runs | ⟨isWhole, absent⟩⟩
            · cases othersCut
              exact .lineComment rest
            · exact .closedComment runs othersCut
            · -- Nothing is left behind a comment that nothing closes, so it would stay open.
              have nothing : others.flatMap Piece.text = [] := List.self_eq_append_right.mp isWhole
              have noOthers : others = [] := by
                cases others with
                | nil => rfl
                | cons second more =>
                    exact absurd (List.append_eq_nil_iff.mp nothing).1
                      (othersGrammatical.nonempty second List.mem_cons_self)
              rw [← isWhole] at absent
              exact absurd ⟨noOthers, body, rfl, absent⟩ here

/-- The lines that follow the comment grammar are exactly the lines that have been read. -/
theorem eq_read_iff_grammatical (text : Text) (openBefore : Bool) (line : Line) :
    line = read text openBefore ↔
      line.text = text ∧ line.openBefore = openBefore ∧ line.Grammatical := by
  constructor
  · rintro rfl
    have grammatical := grammatical_of_cut (Piece.cut_read text openBefore)
    rw [ofPieces, flatMap_text_read] at grammatical
    exact ⟨rfl, rfl, grammatical⟩
  · rintro ⟨rfl, rfl, grammatical⟩
    have joined := grammatical.joined
    have isPieces : line = ofPieces line.openBefore line.pieces line.openAfter := by
      rw [ofPieces, joined]
    rw [isPieces] at grammatical
    have read := (cut_of_grammatical grammatical).read_eq
    rw [joined, ← isPieces] at read
    exact read.symm

end Line

end Dialect
