import Dialect.Proofs.Agreement
import Dialect.Proofs.Leading

/-!
# Places in a line

What is known of a lexeme at a place of a line: a word stands alone there and inside one code piece,
and no two lexemes overlap. A keyword with nothing but a lead before it is where the first visible
character of the code is (`Line.leadOffset?_of_lead`).
-/

namespace Dialect

theorem Text.any_getLast?_of_closeQuote? {quote : Char} (isQuote : isQuote quote = true)
    {text body after : Text} (closed : closeQuote? quote text = some (body, after)) (before : Text) :
    (before ++ body).getLast?.any isIdentifierChar = false := by
  fun_induction closeQuote? quote text generalizing body before with
  | case1 => simp at closed
  | case2 => simp at closed
  | case3 c rest inductionHypothesis =>
      obtain ⟨⟨inner, tail⟩, innerClosed, equality⟩ := Option.map_eq_some_iff.mp closed
      obtain ⟨rfl, rfl⟩ := Prod.mk.inj equality
      have later := inductionHypothesis innerClosed (before ++ ['\\', c])
      rwa [List.append_assoc] at later
  | case4 =>
      obtain ⟨rfl, rfl⟩ := Prod.mk.inj (Option.some.inj closed)
      rw [List.getLast?_append]
      cases identifier : isIdentifierChar quote with
      | false => simp [identifier]
      | true =>
          rw [isQuote_eq_false_of_identifier identifier] at isQuote
          exact absurd isQuote (by decide)
  | case5 c rest _ _ _ inductionHypothesis =>
      obtain ⟨⟨inner, tail⟩, innerClosed, equality⟩ := Option.map_eq_some_iff.mp closed
      obtain ⟨rfl, rfl⟩ := Prod.mk.inj equality
      have later := inductionHypothesis innerClosed (before ++ [c])
      rwa [List.append_assoc] at later

theorem Text.any_getLast?_of_literal? {text literal after : Text}
    (found : literal? text = some (literal, after)) (before : Text) :
    (before ++ literal).getLast?.any isIdentifierChar = false := by
  cases text with
  | nil => simp [literal?] at found
  | cons c rest =>
      rw [literal?] at found
      split at found
      next isQuote =>
        obtain ⟨⟨body, tail⟩, closed, equality⟩ := Option.map_eq_some_iff.mp found
        obtain ⟨rfl, rfl⟩ := Prod.mk.inj equality
        have last := any_getLast?_of_closeQuote? isQuote closed (before ++ [c])
        rwa [List.append_assoc] at last
      next => simp at found

theorem Text.any_getLast?_of_closeComment? {text body after : Text}
    (closed : closeComment? text = some (body, after)) (before : Text) :
    (before ++ body).getLast?.any isIdentifierChar = false := by
  obtain ⟨front, rfl⟩ := exists_append_of_closeComment? closed
  have slash : isIdentifierChar '/' = false := by decide
  rw [← List.append_assoc, List.getLast?_append]
  exact slash

namespace Lexeme

/-! ## Words stand alone -/

/-- The words among the lexemes behind a text stand alone. -/
def WordsAlone (lead : Text) (lexemes : List Lexeme) : Prop :=
  ∀ before content after, lexemes = before ++ .word content :: after →
    Text.standsBetween (lead ++ before.flatMap text).getLast? (after.flatMap text).head? = true

theorem WordsAlone.nil (lead : Text) : WordsAlone lead [] := by
  intro before content after equality
  simp at equality

theorem WordsAlone.cons {lead : Text} {lexeme : Lexeme} {lexemes : List Lexeme}
    (first : lexeme.isWord = true →
      Text.standsBetween lead.getLast? (lexemes.flatMap text).head? = true)
    (others : WordsAlone (lead ++ lexeme.text) lexemes) : WordsAlone lead (lexeme :: lexemes) := by
  intro before content after equality
  cases before with
  | nil =>
      obtain ⟨rfl, rfl⟩ := List.cons.inj equality
      simpa using first rfl
  | cons second before =>
      obtain ⟨rfl, rest⟩ := List.cons.inj equality
      have alone := others before content after rest
      rwa [List.append_assoc] at alone

theorem wordsAlone_readCode {lead source : Text}
    (separated : lead.getLast?.any isIdentifierChar = false ∨
      source.head?.any isIdentifierChar = false) :
    WordsAlone lead (readCode source).1 := by
  fun_induction readCode source generalizing lead with
  | case1 => exact WordsAlone.nil lead
  | case2 rest => exact WordsAlone.cons (by simp [isWord]) (WordsAlone.nil _)
  | case3 rest closed => exact WordsAlone.cons (by simp [isWord]) (WordsAlone.nil _)
  | case4 rest body after closed lexemes isOpen equality inductionHypothesis =>
      rw [equality] at inductionHypothesis
      apply WordsAlone.cons (by simp [isWord])
      apply inductionHypothesis
      have last := Text.any_getLast?_of_closeComment? closed (lead ++ ['/', '*'])
      rw [List.append_assoc] at last
      exact Or.inl last
  | case5 c rest _ _ quoted after found lexemes isOpen equality inductionHypothesis =>
      rw [equality] at inductionHypothesis
      apply WordsAlone.cons (by simp [isWord])
      exact inductionHypothesis (Or.inl (Text.any_getLast?_of_literal? found lead))
  | case6 c rest _ _ unclosed identifier lexemes isOpen equality inductionHypothesis =>
      -- The source starts with a word here, so it is the lead that does not end in one.
      have whole := flatMap_text_readCode (rest.dropWhile isIdentifierChar)
      have separatedAfter := Text.any_head?_dropWhile rest
      rw [equality] at inductionHypothesis whole
      have separatedBefore : lead.getLast?.any isIdentifierChar = false := by
        rcases separated with before | after
        · exact before
        · simp [identifier] at after
      apply WordsAlone.cons
      · intro _
        rw [whole]
        exact (Text.standsBetween_iff ..).mpr ⟨separatedBefore, separatedAfter⟩
      · exact inductionHypothesis (Or.inr separatedAfter)
  | case7 c rest _ _ unclosed separator lexemes isOpen equality inductionHypothesis =>
      rw [equality] at inductionHypothesis
      apply WordsAlone.cons (by simp [isWord])
      apply inductionHypothesis
      left
      simpa using separator

theorem wordsAlone_read (source : Text) (openBefore : Bool) :
    WordsAlone [] (read source openBefore).1 := by
  rw [read]
  split
  · exact wordsAlone_readCode (Or.inl rfl)
  · split
    · exact WordsAlone.nil []
    · split
      next => exact WordsAlone.cons (by simp [isWord]) (WordsAlone.nil _)
      next body after closed =>
        apply WordsAlone.cons (by simp [isWord])
        exact wordsAlone_readCode (Or.inl (Text.any_getLast?_of_closeComment? closed []))

/-! ## Lexemes do not overlap -/

theorem le_of_mem_located {start place : Nat} {lexeme : Lexeme} {lexemes : List Lexeme}
    (member : (place, lexeme) ∈ located start lexemes) : start ≤ place := by
  obtain ⟨_, _, _, rfl⟩ := mem_located_iff.mp member
  exact Nat.le_add_right _ _

theorem located_apart {start place otherPlace : Nat} {lexeme other : Lexeme}
    {lexemes : List Lexeme} (member : (place, lexeme) ∈ located start lexemes)
    (otherMember : (otherPlace, other) ∈ located start lexemes) (different : lexeme ≠ other) :
    otherPlace + other.text.bytes ≤ place ∨ place + lexeme.text.bytes ≤ otherPlace := by
  induction lexemes generalizing start with
  | nil => simp [located] at member
  | cons first others inductionHypothesis =>
      rw [located] at member otherMember
      rcases List.mem_cons.mp member with here | later
      · obtain ⟨rfl, rfl⟩ := Prod.mk.inj here
        rcases List.mem_cons.mp otherMember with otherHere | otherLater
        · exact absurd (Prod.mk.inj otherHere).2.symm different
        · exact Or.inr (le_of_mem_located otherLater)
      · rcases List.mem_cons.mp otherMember with otherHere | otherLater
        · obtain ⟨rfl, rfl⟩ := Prod.mk.inj otherHere
          exact Or.inl (le_of_mem_located later)
        · exact inductionHypothesis later otherLater

end Lexeme

theorem Piece.exists_code_of_mem_located {start place : Nat} {content : Text} {pieces : List Piece}
    (member : (place, .word content) ∈ Lexeme.located start (pieces.flatMap Piece.lexemes)) :
    ∃ earlier code later, pieces = earlier ++ .code code :: later ∧
      start + Text.bytes (earlier.flatMap Piece.text) ≤ place ∧
      place + content.bytes ≤ start + Text.bytes (earlier.flatMap Piece.text) + code.bytes := by
  induction pieces generalizing start with
  | nil => simp [Lexeme.located] at member
  | cons piece others inductionHypothesis =>
      rw [List.flatMap_cons, Lexeme.located_append, flatMap_text_lexemes, List.mem_append] at member
      rcases member with here | later
      · cases piece with
        | comment comment => simp [lexemes, Lexeme.located] at here
        | code code =>
            obtain ⟨before, after, split, rfl⟩ := Lexeme.mem_located_iff.mp here
            have whole := flatMap_text_lexemes (.code code)
            rw [split, List.flatMap_append, List.flatMap_cons, text] at whole
            have size := congrArg Text.bytes whole
            rw [Text.bytes_append, Text.bytes_append, Lexeme.text_word] at size
            exact ⟨[], code, others, rfl, by simp, by simp; omega⟩
      · obtain ⟨earlier, code, more, rfl, lower, upper⟩ := inductionHypothesis later
        refine ⟨piece :: earlier, code, more, rfl, ?_, ?_⟩
        · rw [List.flatMap_cons, Text.bytes_append]
          omega
        · rw [List.flatMap_cons, Text.bytes_append]
          omega

/-! ## The first keyword of a line -/

theorem Lexeme.ofText_separators {lead : Text} (separators : ∀ c ∈ lead, isIdentifierChar c = false)
    (rest : Text) : ofText (lead ++ rest) = lead.map .other ++ ofText rest := by
  induction lead with
  | nil => rfl
  | cons c others inductionHypothesis =>
      rw [List.cons_append, ofText_cons_separator _ (separators c List.mem_cons_self),
        inductionHypothesis fun d member => separators d (List.mem_cons_of_mem c member)]
      rfl

theorem Mask.eq_of_maskedFrom_eq {mask : Mask} {number : Nat} {lexemes others : List Lexeme}
    {lead word : Text} (absent : mask.marker ∉ lead)
    (masked : mask.maskedFrom number lexemes = lead.map .other ++ .word word :: others) :
    ∃ more, lexemes = lead.map .other ++ .word word :: more := by
  induction lead generalizing lexemes with
  | nil =>
      cases lexemes with
      | nil => simp [maskedFrom] at masked
      | cons lexeme more =>
          cases lexeme with
          | literal quoted => simp [maskedFrom] at masked
          | comment content => simp [maskedFrom] at masked
          | other c => simp [maskedFrom] at masked
          | word content =>
              obtain ⟨first, _⟩ := List.cons.inj masked
              rw [first]
              exact ⟨more, rfl⟩
  | cons c rest inductionHypothesis =>
      have restAbsent : mask.marker ∉ rest := fun member => absent (List.mem_cons_of_mem c member)
      cases lexemes with
      | nil => simp [maskedFrom] at masked
      | cons lexeme more =>
          cases lexeme with
          | literal quoted =>
              obtain ⟨first, _⟩ := List.cons.inj masked
              have isMarker : mask.marker = c := Lexeme.other.inj first
              exact absurd (isMarker ▸ List.mem_cons_self) absent
          | comment content => simp [maskedFrom] at masked
          | word content => simp [maskedFrom] at masked
          | other d =>
              obtain ⟨first, later⟩ := List.cons.inj masked
              obtain ⟨tail, rfl⟩ := inductionHypothesis restAbsent later
              rw [first]
              exact ⟨tail, rfl⟩

theorem Mask.marker_not_mem_lead (code : Text) {lead : Text} (isLead : lead.IsLead) :
    (ofCode code).marker ∉ lead := by
  have isMarker : IsMarker (ofCode code).marker := by
    simp only [ofCode, isMarker_markerFor code]
  intro member
  rcases Text.blank_or_brace_of_mem_lead isLead member with blank | isBrace
  · have bounds := Text.toNat_of_isBlank blank
    rw [IsMarker] at isMarker
    omega
  · rw [isBrace] at isMarker
    exact absurd isMarker (by decide)

/-- The characters of a text with their byte offsets, the first of which is given. -/
def Text.located : Nat → Text → List (Nat × Char)
  | _, [] => []
  | offset, c :: rest => (offset, c) :: located (offset + c.utf8Size) rest

theorem Text.located_append (offset : Nat) (left right : Text) :
    located offset (left ++ right) = located offset left ++ located (offset + left.bytes) right := by
  induction left generalizing offset with
  | nil => simp [located]
  | cons c rest inductionHypothesis =>
      simp only [List.cons_append, located, inductionHypothesis, bytes_cons, Nat.add_assoc]

namespace Line

/-- The characters of the code pieces with their byte offsets in the line, for pieces that begin at a
byte offset of the line. -/
def codeCharsFrom : Nat → List Piece → List (Nat × Char)
  | _, [] => []
  | start, .comment content :: pieces => codeCharsFrom (start + content.bytes) pieces
  | start, .code content :: pieces =>
      content.located start ++ codeCharsFrom (start + content.bytes) pieces

/-- Passes over blank characters, and over a closing brace with the blank characters behind it. -/
def skipLead (chars : List (Nat × Char)) : List (Nat × Char) :=
  match chars.dropWhile fun char => isBlank char.2 with
  | (_, '\x7d') :: rest => rest.dropWhile fun char => isBlank char.2
  | rest => rest

/-- The byte offset of the first character of the code that is neither blank nor a closing brace that
comes first. -/
def leadOffset? (line : Line) : Option Nat :=
  (skipLead (codeCharsFrom 0 line.pieces)).head?.map Prod.fst

theorem skipLead_of_blanks {blanks rest : List (Nat × Char)} {place : Nat} {c : Char}
    (allBlank : ∀ char ∈ blanks, isBlank char.2 = true) (visible : isBlank c = false)
    (notBrace : c ≠ '\x7d') :
    skipLead (blanks ++ (place, c) :: rest) = (place, c) :: rest := by
  rw [skipLead, List.dropWhile_append_of_pos allBlank, List.dropWhile_cons, visible,
    if_neg (by decide)]
  split
  next equality =>
    obtain ⟨first, _⟩ := List.cons.inj equality
    exact absurd (Prod.mk.inj first).2 notBrace
  next => rfl

theorem skipLead_of_brace {blanks more rest : List (Nat × Char)} {brace place : Nat} {c : Char}
    (allBlank : ∀ char ∈ blanks, isBlank char.2 = true)
    (moreBlank : ∀ char ∈ more, isBlank char.2 = true) (visible : isBlank c = false) :
    skipLead (blanks ++ (brace, '\x7d') :: (more ++ (place, c) :: rest)) = (place, c) :: rest := by
  have braceVisible : isBlank '\x7d' = false := by decide
  rw [skipLead, List.dropWhile_append_of_pos allBlank, List.dropWhile_cons, braceVisible,
    if_neg (by decide)]
  simp only
  rw [List.dropWhile_append_of_pos moreBlank, List.dropWhile_cons, visible, if_neg (by decide)]

end Line

namespace Piece

/-- The characters of a lexeme that has a place. -/
def charsAt : Option Nat × Lexeme → List (Nat × Char)
  | (none, _) => []
  | (some place, lexeme) => lexeme.text.located place

theorem flatMap_charsAt_located (start : Nat) (lexemes : List Lexeme) :
    ((Lexeme.located start lexemes).map (Prod.map some id)).flatMap charsAt =
      Text.located start (lexemes.flatMap Lexeme.text) := by
  induction lexemes generalizing start with
  | nil => rfl
  | cons lexeme others inductionHypothesis =>
      rw [Lexeme.located, List.map_cons, List.flatMap_cons, inductionHypothesis, List.flatMap_cons,
        Text.located_append]
      rfl

theorem flatMap_charsAt_placed (start : Nat) (pieces : List Piece) :
    (placed start pieces).flatMap charsAt = Line.codeCharsFrom start pieces := by
  induction pieces generalizing start with
  | nil => rfl
  | cons piece others inductionHypothesis =>
      have later := inductionHypothesis (start + piece.text.bytes)
      cases piece with
      | comment content => exact later
      | code content =>
          rw [placed, List.flatMap_append, flatMap_charsAt_located, flatMap_text_lexemes,
            Line.codeCharsFrom, text]
          congr 1
          cases noCode : others.any isCode with
          | false =>
              rw [placed_eq_nil noCode] at later
              exact later
          | true => exact later

theorem eq_space_of_mem_placed {start : Nat} {lexeme : Lexeme} {pieces : List Piece}
    (member : (none, lexeme) ∈ placed start pieces) : lexeme = .other ' ' := by
  induction pieces generalizing start with
  | nil => simp [placed] at member
  | cons piece others inductionHypothesis =>
      cases piece with
      | comment content => exact inductionHypothesis member
      | code content =>
          rw [placed, List.mem_append] at member
          rcases member with inPiece | behind
          · simp [Prod.map] at inPiece
          · split at behind
            next =>
              rcases List.mem_cons.mp behind with joint | later
              · exact (Prod.mk.inj joint).2
              · exact inductionHypothesis later
            next => simp at behind

theorem exists_place_of_placed {start : Nat} {pieces : List Piece} {lexeme : Lexeme}
    {place : Option Nat} {before after : List (Option Nat × Lexeme)}
    (split : placed start pieces = before ++ (place, lexeme) :: after)
    (notSpace : lexeme ≠ .other ' ') : ∃ offset, place = some offset := by
  cases place with
  | some offset => exact ⟨offset, rfl⟩
  | none =>
      have member : (none, lexeme) ∈ placed start pieces := by
        rw [split]
        simp
      exact absurd (eq_space_of_mem_placed member) notSpace

theorem isBlank_of_mem_charsAt {entries : List (Option Nat × Lexeme)} {blanks : Text}
    (lexemes : entries.map Prod.snd = blanks.map .other)
    (allBlank : ∀ c ∈ blanks, isBlank c = true) :
    ∀ char ∈ entries.flatMap charsAt, isBlank char.2 = true := by
  intro char member
  obtain ⟨⟨place, lexeme⟩, inEntries, inChars⟩ := List.mem_flatMap.mp member
  have inLexemes : lexeme ∈ entries.map Prod.snd := List.mem_map.mpr ⟨(place, lexeme), inEntries, rfl⟩
  rw [lexemes] at inLexemes
  obtain ⟨c, inBlanks, rfl⟩ := List.mem_map.mp inLexemes
  cases place with
  | none => simp [charsAt] at inChars
  | some offset =>
      obtain rfl : char = (offset, c) := by simpa [charsAt, Text.located] using inChars
      exact allBlank c inBlanks

theorem exists_placed_of_codeLexemes {start : Nat} {pieces : List Piece} {left right : List Lexeme}
    {lexeme : Lexeme} (split : codeLexemes pieces = left ++ lexeme :: right) :
    ∃ before after, placed start pieces = before ++
        (Line.offsetInPieces? start (Text.bytes (left.flatMap Lexeme.text)) pieces, lexeme) :: after ∧
      before.map Prod.snd = left := by
  have places := located_codeLexemes start pieces
  rw [split, Lexeme.located_append, Nat.zero_add, Lexeme.located, List.map_append, List.map_cons]
    at places
  refine ⟨_, _, places.symm, ?_⟩
  rw [List.map_map]
  exact Lexeme.map_snd_located 0 left

end Piece

/-- A keyword behind a lead is where the first visible character of the code is. -/
theorem Line.leadOffset?_of_lead {line : Line} {lead keyword : Text} {more : List Lexeme}
    (lexemes : Piece.codeLexemes line.pieces = lead.map .other ++ .word keyword :: more)
    (isLead : lead.IsLead) (nonempty : keyword ≠ [])
    (identifier : ∀ c ∈ keyword, isIdentifierChar c = true) :
    ∃ place, line.offsetInLine? lead.bytes = some place ∧ line.leadOffset? = some place := by
  obtain ⟨k, others, rfl⟩ := List.exists_cons_of_ne_nil nonempty
  have isIdentifier := identifier k List.mem_cons_self
  have visible := Text.isBlank_of_identifier isIdentifier
  have notBrace : k ≠ '\x7d' := by
    intro equality
    rw [equality] at isIdentifier
    exact absurd isIdentifier (by decide)
  have leadText : (lead.map Lexeme.other).flatMap Lexeme.text = lead := by
    rw [List.flatMap_map]
    exact List.flatMap_singleton' lead
  obtain ⟨before, after, places, beforeLexemes⟩ :=
    @Piece.exists_placed_of_codeLexemes 0 _ _ _ _ lexemes
  have chars := Piece.flatMap_charsAt_placed 0 line.pieces
  rw [leadText] at places
  obtain ⟨place, found⟩ := Piece.exists_place_of_placed places (by simp)
  refine ⟨place, found, ?_⟩
  rw [places, found, List.flatMap_append, List.flatMap_cons, Piece.charsAt, Lexeme.text_word,
    Text.located, List.cons_append] at chars
  obtain ⟨first, second, firstBlank, secondBlank, equality⟩ := isLead
  rcases equality with rfl | rfl
  · rw [leadOffset?, ← chars,
      skipLead_of_blanks (Piece.isBlank_of_mem_charsAt beforeLexemes firstBlank) visible notBrace]
    rfl
  · rw [List.map_append, List.map_cons] at beforeLexemes
    obtain ⟨blanks, braced, rfl, blankLexemes, bracedLexemes⟩ := List.map_eq_append_iff.mp beforeLexemes
    obtain ⟨⟨brace, _⟩, rest, rfl, rfl, restLexemes⟩ := List.map_eq_cons_iff.mp bracedLexemes
    rw [List.append_assoc, List.cons_append] at places
    obtain ⟨bracePlace, rfl⟩ := Piece.exists_place_of_placed places (by decide)
    have braceChar : Piece.charsAt (some bracePlace, .other '\x7d') = [(bracePlace, '\x7d')] := rfl
    rw [List.flatMap_append, List.flatMap_cons, List.append_assoc, List.append_assoc, braceChar,
      List.singleton_append] at chars
    rw [leadOffset?, ← chars,
      skipLead_of_brace (Piece.isBlank_of_mem_charsAt blankLexemes firstBlank)
        (Piece.isBlank_of_mem_charsAt restLexemes secondBlank) visible]
    rfl

end Dialect
