import Dialect.Line.Reader
import Dialect.Mask
import Dialect.Proofs.Characters

/-!
# Lexemes

A line is read from left to right into lexemes: comments, quoted literals, maximal runs of identifier
characters, and single characters between them. This is the plainest account of what the text of a
line consists of; it cuts nothing into pieces and masks nothing. `Lexeme.ofFragments` finds the same
words in code whose literals are known, one character at a time.
-/

namespace Dialect

/-- What a line consists of. -/
inductive Lexeme where
  | comment (text : Text)
  | literal (text : Text)
  /-- A maximal run of identifier characters. -/
  | word (text : Text)
  | other (char : Char)
  deriving DecidableEq, Repr

namespace Lexeme

/-- The characters of a lexeme. -/
def text : Lexeme → Text
  | .comment text => text
  | .literal text => text
  | .word text => text
  | .other char => [char]

@[simp]
theorem text_comment (content : Text) : (comment content).text = content := rfl

@[simp]
theorem text_literal (content : Text) : (literal content).text = content := rfl

@[simp]
theorem text_word (content : Text) : (word content).text = content := rfl

@[simp]
theorem text_other (c : Char) : (other c).text = [c] := rfl

/-- Whether a lexeme is a word. -/
def isWord : Lexeme → Bool
  | .word _ => true
  | _ => false

/-! ## Reading a line -/

/-- The lexemes of a text that starts outside comments, and whether a block comment is open at its
end. -/
def readCode : Text → List Lexeme × Bool
  | [] => ([], false)
  | '/' :: '/' :: rest => ([.comment ('/' :: '/' :: rest)], false)
  | '/' :: '*' :: rest =>
      match _closed : Text.closeComment? rest with
      | none => ([.comment ('/' :: '*' :: rest)], true)
      | some (body, after) =>
          let (lexemes, isOpen) := readCode after
          (.comment ('/' :: '*' :: body) :: lexemes, isOpen)
  | c :: rest =>
      match _found : Text.literal? (c :: rest) with
      | some (quoted, after) =>
          let (lexemes, isOpen) := readCode after
          (.literal quoted :: lexemes, isOpen)
      | none =>
          if isIdentifierChar c then
            let (lexemes, isOpen) := readCode (rest.dropWhile isIdentifierChar)
            (.word (c :: rest.takeWhile isIdentifierChar) :: lexemes, isOpen)
          else
            let (lexemes, isOpen) := readCode rest
            (.other c :: lexemes, isOpen)
termination_by text => text.length
decreasing_by
  · have := Text.length_after_closeComment?_lt _closed
    simp only [List.length_cons]
    omega
  · exact Text.length_after_literal?_lt _found
  · have := (List.dropWhile_suffix isIdentifierChar (l := rest)).length_le
    simp only [List.length_cons]
    omega
  · simp

/-- The lexemes of a line, given whether a block comment is open before it, and whether one is open
behind it. -/
def read (text : Text) (openBefore : Bool) : List Lexeme × Bool :=
  if openBefore = false then readCode text
  else if text = [] then ([], true)
  else
    match Text.closeComment? text with
    | none => ([.comment text], true)
    | some (body, after) =>
        let (lexemes, isOpen) := readCode after
        (.comment body :: lexemes, isOpen)

/-- The lexemes of each of some lines, given whether a block comment is open before the first. -/
def readLines : Bool → List Text → List (List Lexeme)
  | _, [] => []
  | openBefore, line :: lines =>
      (read line openBefore).1 :: readLines (read line openBefore).2 lines

/-! ## One character at a time -/

/-- Puts a character in front of lexemes, as a part of the first one if both belong to a word. -/
def consChar (c : Char) : List Lexeme → List Lexeme
  | .word content :: lexemes =>
      if isIdentifierChar c then .word (c :: content) :: lexemes
      else .other c :: .word content :: lexemes
  | lexemes => if isIdentifierChar c then .word [c] :: lexemes else .other c :: lexemes

/-- The lexemes of code that has been cut into fragments. -/
def ofFragments : List Fragment → List Lexeme
  | [] => []
  | .plain c :: fragments => consChar c (ofFragments fragments)
  | .literal quoted :: fragments => .literal quoted :: ofFragments fragments

/-- The maximal runs of identifier characters in a text, and the characters between them. -/
def ofText (text : Text) : List Lexeme := ofFragments (text.map .plain)

/-- Whether no word comes first. -/
def NoWordFirst (lexemes : List Lexeme) : Prop := lexemes.head?.any isWord = false

theorem noWordFirst_nil : NoWordFirst [] := rfl

theorem noWordFirst_cons {lexeme : Lexeme} (lexemes : List Lexeme) (notWord : lexeme.isWord = false) :
    NoWordFirst (lexeme :: lexemes) := by
  rw [NoWordFirst, List.head?_cons, Option.any_some, notWord]

theorem consChar_of_not_identifier {c : Char} (lexemes : List Lexeme)
    (separator : isIdentifierChar c = false) : consChar c lexemes = .other c :: lexemes := by
  rw [consChar.eq_def]
  split <;> simp [separator]

theorem consChar_word {c : Char} (content : Text) (lexemes : List Lexeme)
    (identifier : isIdentifierChar c = true) :
    consChar c (.word content :: lexemes) = .word (c :: content) :: lexemes := by
  rw [consChar, if_pos identifier]

theorem consChar_of_noWordFirst {c : Char} {lexemes : List Lexeme}
    (identifier : isIdentifierChar c = true) (noWord : NoWordFirst lexemes) :
    consChar c lexemes = .word [c] :: lexemes := by
  rw [consChar.eq_def]
  split
  next content others => simp [NoWordFirst, isWord] at noWord
  next => rw [if_pos identifier]

theorem consChar_append_of_ne_nil {c : Char} {left : List Lexeme} (right : List Lexeme)
    (nonempty : left ≠ []) : consChar c (left ++ right) = consChar c left ++ right := by
  obtain ⟨first, others, rfl⟩ := List.exists_cons_of_ne_nil nonempty
  cases identifier : isIdentifierChar c with
  | false => simp [consChar_of_not_identifier _ identifier]
  | true => cases first <;> simp [consChar, identifier]

theorem consChar_append {c : Char} (left : List Lexeme) {right : List Lexeme}
    (noWord : NoWordFirst right) : consChar c (left ++ right) = consChar c left ++ right := by
  cases identifier : isIdentifierChar c with
  | false => simp [consChar_of_not_identifier _ identifier]
  | true =>
      cases left with
      | nil =>
          rw [List.nil_append, consChar_of_noWordFirst identifier noWord,
            consChar_of_noWordFirst identifier noWordFirst_nil, List.singleton_append]
      | cons first others => exact consChar_append_of_ne_nil right (List.cons_ne_nil first others)

theorem consChar_ne_nil (c : Char) (lexemes : List Lexeme) : consChar c lexemes ≠ [] := by
  rw [consChar.eq_def]
  split
  · split <;> simp
  · split <;> simp

theorem mem_consChar {c : Char} {lexemes : List Lexeme} {lexeme : Lexeme}
    (member : lexeme ∈ consChar c lexemes) :
    (∃ content, lexeme = .word (c :: content)) ∨ lexeme = .other c ∨ lexeme ∈ lexemes := by
  rw [consChar.eq_def] at member
  split at member
  · split at member
    · rcases List.mem_cons.mp member with isFirst | later
      · exact Or.inl ⟨_, isFirst⟩
      · exact Or.inr (Or.inr (List.mem_cons_of_mem _ later))
    · rcases List.mem_cons.mp member with isFirst | later
      · exact Or.inr (Or.inl isFirst)
      · exact Or.inr (Or.inr later)
  · split at member
    · rcases List.mem_cons.mp member with isFirst | later
      · exact Or.inl ⟨[], isFirst⟩
      · exact Or.inr (Or.inr later)
    · rcases List.mem_cons.mp member with isFirst | later
      · exact Or.inr (Or.inl isFirst)
      · exact Or.inr (Or.inr later)

@[simp]
theorem flatMap_text_consChar (c : Char) (lexemes : List Lexeme) :
    (consChar c lexemes).flatMap text = c :: lexemes.flatMap text := by
  rw [consChar.eq_def]
  split
  · split <;> simp
  · split <;> simp

/-- Lexemes can be put together where no word is cut in two. -/
theorem ofFragments_append (left : List Fragment) {right : List Fragment}
    (noWord : NoWordFirst (ofFragments right)) :
    ofFragments (left ++ right) = ofFragments left ++ ofFragments right := by
  induction left with
  | nil => rfl
  | cons fragment others inductionHypothesis =>
      cases fragment with
      | plain c =>
          rw [List.cons_append, ofFragments, inductionHypothesis, consChar_append _ noWord, ofFragments]
      | literal quoted =>
          rw [List.cons_append, ofFragments, inductionHypothesis, ofFragments, List.cons_append]

theorem ofFragments_cons_separator {c : Char} (fragments : List Fragment)
    (separator : isIdentifierChar c = false) :
    ofFragments (.plain c :: fragments) = .other c :: ofFragments fragments := by
  rw [ofFragments, consChar_of_not_identifier _ separator]

/-- A run of identifier characters in front of something else is one word. -/
theorem ofFragments_run {run : Text} {fragments : List Fragment} (nonempty : run ≠ [])
    (identifier : ∀ c ∈ run, isIdentifierChar c = true) (noWord : NoWordFirst (ofFragments fragments)) :
    ofFragments (run.map .plain ++ fragments) = .word run :: ofFragments fragments := by
  induction run with
  | nil => exact absurd rfl nonempty
  | cons c rest inductionHypothesis =>
      have first : isIdentifierChar c = true := identifier c List.mem_cons_self
      rw [List.map_cons, List.cons_append, ofFragments]
      cases rest with
      | nil => exact consChar_of_noWordFirst first noWord
      | cons d more =>
          have others := inductionHypothesis (by simp)
            fun e member => identifier e (List.mem_cons_of_mem c member)
          rw [others, consChar_word _ _ first]

theorem flatMap_text_ofFragments (fragments : List Fragment) :
    (ofFragments fragments).flatMap text = fragments.flatMap Fragment.text := by
  induction fragments with
  | nil => rfl
  | cons fragment others inductionHypothesis =>
      cases fragment with
      | plain c => simp [ofFragments, inductionHypothesis, Fragment.text]
      | literal quoted => simp [ofFragments, inductionHypothesis, Fragment.text]

/-! ## The words of a text -/

@[simp]
theorem ofText_nil : ofText [] = [] := rfl

theorem ofText_cons (c : Char) (rest : Text) : ofText (c :: rest) = consChar c (ofText rest) := rfl

theorem ofText_cons_separator {c : Char} (rest : Text) (separator : isIdentifierChar c = false) :
    ofText (c :: rest) = .other c :: ofText rest :=
  ofFragments_cons_separator _ separator

theorem noWordFirst_ofText {source : Text} (separated : source.head?.any isIdentifierChar = false) :
    NoWordFirst (ofText source) := by
  cases source with
  | nil => exact noWordFirst_nil
  | cons c rest =>
      rw [ofText_cons_separator rest (by simpa using separated)]
      exact noWordFirst_cons _ rfl

theorem ofText_run {run rest : Text} (nonempty : run ≠ [])
    (identifier : ∀ c ∈ run, isIdentifierChar c = true)
    (separated : rest.head?.any isIdentifierChar = false) :
    ofText (run ++ rest) = .word run :: ofText rest := by
  rw [ofText, List.map_append]
  exact ofFragments_run nonempty identifier (noWordFirst_ofText separated)

/-- A text can be cut behind a character that belongs to no word. -/
theorem ofText_append_of_separated {left : Text} (right : Text)
    (separated : left.getLast?.any isIdentifierChar = false) :
    ofText (left ++ right) = ofText left ++ ofText right := by
  induction left with
  | nil => rfl
  | cons c rest inductionHypothesis =>
      rw [List.cons_append, ofText_cons, ofText_cons]
      cases rest with
      | nil =>
          have separator : isIdentifierChar c = false := by simpa using separated
          rw [consChar_of_not_identifier _ separator, consChar_of_not_identifier _ separator]
          rfl
      | cons d more =>
          have restSeparated : (d :: more).getLast?.any isIdentifierChar = false := by
            rw [List.getLast?_cons_cons] at separated
            exact separated
          rw [inductionHypothesis restSeparated]
          exact consChar_append_of_ne_nil _ (consChar_ne_nil d _)

/-- A word that stands alone is a lexeme. -/
theorem ofText_of_standsBetween {before word after : Text} (nonempty : word ≠ [])
    (identifier : ∀ c ∈ word, isIdentifierChar c = true)
    (alone : Text.standsBetween before.getLast? after.head? = true) :
    ofText (before ++ word ++ after) = ofText before ++ .word word :: ofText after := by
  obtain ⟨separatedBefore, separatedAfter⟩ := (Text.standsBetween_iff ..).mp alone
  rw [List.append_assoc, ofText_append_of_separated _ separatedBefore,
    ofText_run nonempty identifier separatedAfter]

/-- An identifier character starts a word that goes on as long as identifier characters follow. -/
theorem ofText_cons_identifier {c : Char} (rest : Text) (identifier : isIdentifierChar c = true) :
    ofText (c :: rest) =
      .word (c :: rest.takeWhile isIdentifierChar) :: ofText (rest.dropWhile isIdentifierChar) := by
  have split := ofText_run (List.cons_ne_nil _ _) (Text.isIdentifierChar_of_mem_run rest identifier)
    (Text.any_head?_dropWhile rest)
  rwa [Text.run_append] at split

theorem flatMap_text_ofText (source : Text) : (ofText source).flatMap text = source := by
  rw [ofText, flatMap_text_ofFragments, List.flatMap_map]
  exact List.flatMap_singleton' source

/-- The fragments of a lexeme of code. -/
def fragments : Lexeme → List Fragment
  | .comment content => content.map .plain
  | .literal quoted => [.literal quoted]
  | .word content => content.map .plain
  | .other c => [.plain c]

theorem flatMap_fragments_consChar (c : Char) (lexemes : List Lexeme) :
    (consChar c lexemes).flatMap fragments = .plain c :: lexemes.flatMap fragments := by
  rw [consChar.eq_def]
  split
  · split <;> simp [fragments]
  · split <;> simp [fragments]

/-- No fragment is lost in lexemes. -/
theorem flatMap_fragments_ofFragments (source : List Fragment) :
    (ofFragments source).flatMap fragments = source := by
  induction source with
  | nil => rfl
  | cons fragment others inductionHypothesis =>
      cases fragment with
      | plain c => rw [ofFragments, flatMap_fragments_consChar, inductionHypothesis]
      | literal quoted =>
          rw [ofFragments, List.flatMap_cons, inductionHypothesis]
          rfl

/-- The characters of a literal. -/
def literal? : Lexeme → Option Text
  | .literal quoted => some quoted
  | _ => none

theorem filterMap_literal?_consChar (c : Char) (lexemes : List Lexeme) :
    (consChar c lexemes).filterMap literal? = lexemes.filterMap literal? := by
  rw [consChar.eq_def]
  split
  · split <;> rfl
  · split <;> rfl

theorem filterMap_literal?_ofFragments (source : List Fragment) :
    (ofFragments source).filterMap literal? = source.filterMap Fragment.literal? := by
  induction source with
  | nil => rfl
  | cons fragment others inductionHypothesis =>
      cases fragment with
      | plain c =>
          rw [ofFragments, filterMap_literal?_consChar, inductionHypothesis]
          rfl
      | literal quoted =>
          rw [ofFragments, List.filterMap_cons, inductionHypothesis]
          rfl

/-! ## Lexemes at their places -/

/-- The lexemes with their byte offsets, the first of which is given. -/
def located : Nat → List Lexeme → List (Nat × Lexeme)
  | _, [] => []
  | offset, lexeme :: lexemes =>
      (offset, lexeme) :: located (offset + lexeme.text.bytes) lexemes

theorem located_append (offset : Nat) (left right : List Lexeme) :
    located offset (left ++ right) =
      located offset left ++ located (offset + Text.bytes (left.flatMap text)) right := by
  induction left generalizing offset with
  | nil => simp [located]
  | cons lexeme lexemes inductionHypothesis =>
      simp only [List.cons_append, located, inductionHypothesis, List.flatMap_cons,
        Text.bytes_append, Nat.add_assoc]

theorem located_add (start offset : Nat) (lexemes : List Lexeme) :
    located (start + offset) lexemes =
      (located offset lexemes).map (Prod.map (fun place => start + place) id) := by
  induction lexemes generalizing offset with
  | nil => rfl
  | cons lexeme lexemes inductionHypothesis =>
      simp only [located, List.map_cons, Nat.add_assoc, inductionHypothesis, Prod.map_apply, id]

theorem map_snd_located (offset : Nat) (lexemes : List Lexeme) :
    (located offset lexemes).map Prod.snd = lexemes := by
  induction lexemes generalizing offset with
  | nil => rfl
  | cons lexeme lexemes inductionHypothesis => rw [located, List.map_cons, inductionHypothesis]

/-- A lexeme stands at a place when the lexemes before it take up the text before that place. -/
theorem mem_located_iff {start place : Nat} {lexeme : Lexeme} {lexemes : List Lexeme} :
    (place, lexeme) ∈ located start lexemes ↔
      ∃ before after, lexemes = before ++ lexeme :: after ∧
        place = start + Text.bytes (before.flatMap text) := by
  induction lexemes generalizing start with
  | nil => simp [located]
  | cons first others inductionHypothesis =>
      rw [located, List.mem_cons, inductionHypothesis]
      constructor
      · rintro (atHead | ⟨before, after, rfl, rfl⟩)
        · obtain ⟨rfl, rfl⟩ := Prod.mk.inj atHead
          exact ⟨[], others, rfl, by simp⟩
        · exact ⟨first :: before, after, rfl, by simp [Nat.add_assoc]⟩
      · rintro ⟨before, after, equality, rfl⟩
        cases before with
        | nil =>
            simp only [List.nil_append, List.cons.injEq] at equality
            exact Or.inl (by simp [equality.1])
        | cons second before =>
            simp only [List.cons_append, List.cons.injEq] at equality
            obtain ⟨rfl, rfl⟩ := equality
            exact Or.inr ⟨before, after, rfl, by simp [Nat.add_assoc]⟩

/-! ## What reading does at the start of a text -/

/-- Whether a comment starts a text. -/
def startsComment : Text → Bool
  | '/' :: '/' :: _ => true
  | '/' :: '*' :: _ => true
  | _ => false

theorem startsComment_eq_false {c : Char} {rest : Text}
    (notLine : ∀ others, c = '/' → rest = '/' :: others → False)
    (notBlock : ∀ others, c = '/' → rest = '*' :: others → False) :
    startsComment (c :: rest) = false := by
  rw [startsComment.eq_def]
  split
  next others equality =>
    obtain ⟨isSlash, restEquality⟩ := List.cons.inj equality
    exact (notLine others isSlash restEquality).elim
  next others equality =>
    obtain ⟨isSlash, restEquality⟩ := List.cons.inj equality
    exact (notBlock others isSlash restEquality).elim
  next => rfl

theorem startsComment_of_ne_slash {c : Char} (rest : Text) (different : c ≠ '/') :
    startsComment (c :: rest) = false := by
  rw [startsComment.eq_def]
  split <;> simp_all

theorem isQuote_of_literal? {c : Char} {rest quoted after : Text}
    (found : Text.literal? (c :: rest) = some (quoted, after)) : isQuote c = true := by
  rw [Text.literal?] at found
  split at found
  next quote => exact quote
  next => simp at found

theorem startsComment_of_identifier {c : Char} (rest : Text)
    (identifier : isIdentifierChar c = true) : startsComment (c :: rest) = false := by
  apply startsComment_of_ne_slash
  rintro rfl
  exact absurd identifier (by decide)

theorem startsComment_of_isQuote {c : Char} (rest : Text) (quote : isQuote c = true) :
    startsComment (c :: rest) = false := by
  apply startsComment_of_ne_slash
  rintro rfl
  exact absurd quote (by decide)

theorem not_comment_cases {c : Char} {rest : Text}
    (code : startsComment (c :: rest) = false) :
    (∀ others, c = '/' → rest = '/' :: others → False) ∧
      (∀ others, c = '/' → rest = '*' :: others → False) := by
  constructor
  · rintro others rfl rfl
    simp [startsComment] at code
  · rintro others rfl rfl
    simp [startsComment] at code

theorem readCode_of_unclosed_comment {rest : Text} (unclosed : Text.closeComment? rest = none) :
    readCode ('/' :: '*' :: rest) = ([.comment ('/' :: '*' :: rest)], true) := by
  rw [readCode]
  split
  next => rfl
  next body after closed => simp [unclosed] at closed

theorem readCode_of_closed_comment {rest body after : Text}
    (closed : Text.closeComment? rest = some (body, after)) :
    readCode ('/' :: '*' :: rest) =
      (.comment ('/' :: '*' :: body) :: (readCode after).1, (readCode after).2) := by
  rw [readCode]
  split
  next unclosed => simp [closed] at unclosed
  next otherBody otherAfter equality =>
    rw [closed] at equality
    obtain ⟨rfl, rfl⟩ := Prod.mk.inj (Option.some.inj equality)
    rfl

theorem readCode_of_literal? {c : Char} {rest quoted after : Text}
    (found : Text.literal? (c :: rest) = some (quoted, after)) :
    readCode (c :: rest) = (.literal quoted :: (readCode after).1, (readCode after).2) := by
  obtain ⟨notLine, notBlock⟩ :=
    not_comment_cases (startsComment_of_isQuote rest (isQuote_of_literal? found))
  rw [readCode.eq_def]
  split
  · simp_all
  · simp_all
  · simp_all
  · next equality =>
      simp only [List.cons.injEq] at equality
      obtain ⟨rfl, rfl⟩ := equality
      split
      next other rest equality =>
        rw [found] at equality
        simp only [Option.some.injEq, Prod.mk.injEq] at equality
        obtain ⟨rfl, rfl⟩ := equality
        rfl
      next equality => simp [found] at equality

private theorem readCode_of_not_literal {c : Char} {rest : Text}
    (code : startsComment (c :: rest) = false) (unclosed : Text.literal? (c :: rest) = none) :
    readCode (c :: rest) =
      if isIdentifierChar c then
        (.word (c :: rest.takeWhile isIdentifierChar) ::
          (readCode (rest.dropWhile isIdentifierChar)).1,
          (readCode (rest.dropWhile isIdentifierChar)).2)
      else (.other c :: (readCode rest).1, (readCode rest).2) := by
  obtain ⟨notLine, notBlock⟩ := not_comment_cases code
  rw [readCode.eq_def]
  split
  · simp_all
  · simp_all
  · simp_all
  · next equality =>
      simp only [List.cons.injEq] at equality
      obtain ⟨rfl, rfl⟩ := equality
      split
      next equality => simp [unclosed] at equality
      next => rfl

theorem readCode_of_separator {c : Char} {rest : Text}
    (code : startsComment (c :: rest) = false) (unclosed : Text.literal? (c :: rest) = none)
    (separator : isIdentifierChar c = false) :
    readCode (c :: rest) = (.other c :: (readCode rest).1, (readCode rest).2) := by
  rw [readCode_of_not_literal code unclosed, separator]
  rfl

theorem literal?_of_identifier {c : Char} (rest : Text) (identifier : isIdentifierChar c = true) :
    Text.literal? (c :: rest) = none := by
  rw [Text.literal?, isQuote_eq_false_of_identifier identifier]
  rfl

theorem readCode_of_identifier {c : Char} (rest : Text) (identifier : isIdentifierChar c = true) :
    readCode (c :: rest) =
      (.word (c :: rest.takeWhile isIdentifierChar) ::
        (readCode (rest.dropWhile isIdentifierChar)).1,
        (readCode (rest.dropWhile isIdentifierChar)).2) := by
  rw [readCode_of_not_literal (startsComment_of_identifier rest identifier)
    (literal?_of_identifier rest identifier), if_pos identifier]

/-- A word comes first only where an identifier character does. -/
theorem noWordFirst_readCode {text : Text} (separated : text.head?.any isIdentifierChar = false) :
    NoWordFirst (readCode text).1 := by
  fun_cases readCode text with
  | case1 => exact noWordFirst_nil
  | case2 rest => exact noWordFirst_cons _ rfl
  | case3 rest closed => exact noWordFirst_cons _ rfl
  | case4 rest body after closed lexemes isOpen equality => exact noWordFirst_cons _ rfl
  | case5 c rest _ _ quoted after found lexemes isOpen equality => exact noWordFirst_cons _ rfl
  | case6 c rest _ _ unclosed identifier lexemes isOpen equality =>
      simp [identifier] at separated
  | case7 c rest _ _ unclosed separator lexemes isOpen equality => exact noWordFirst_cons _ rfl

/-- Reading outside comments and literals takes one character at a time. -/
theorem readCode_cons {c : Char} {rest : Text}
    (code : startsComment (c :: rest) = false) (unclosed : Text.literal? (c :: rest) = none) :
    readCode (c :: rest) = (consChar c (readCode rest).1, (readCode rest).2) := by
  cases identifier : isIdentifierChar c with
  | false =>
      rw [readCode_of_separator code unclosed identifier, consChar_of_not_identifier _ identifier]
  | true =>
      rw [readCode_of_identifier rest identifier]
      -- Either the word ends here or its other characters have been read as a word already.
      cases rest with
      | nil => rw [List.takeWhile_nil, List.dropWhile_nil,
          consChar_of_noWordFirst identifier (noWordFirst_readCode rfl)]
      | cons d others =>
          cases second : isIdentifierChar d with
          | false =>
              have noWord : NoWordFirst (readCode (d :: others)).1 :=
                noWordFirst_readCode (by simpa using second)
              rw [List.takeWhile_cons, List.dropWhile_cons, second,
                consChar_of_noWordFirst identifier noWord]
              rfl
          | true =>
              rw [readCode_of_identifier others second, consChar_word _ _ identifier,
                List.takeWhile_cons, List.dropWhile_cons, second]
              rfl

/-- The lexemes of a text, in order, are the text. -/
theorem flatMap_text_readCode (source : Text) : (readCode source).1.flatMap text = source := by
  fun_induction readCode source with
  | case1 => rfl
  | case2 rest => simp
  | case3 rest closed => simp
  | case4 rest body after closed lexemes isOpen equality inductionHypothesis =>
      rw [equality] at inductionHypothesis
      have joined := (Text.closeComment?_append closed).1
      simp only [List.flatMap_cons, text_comment, inductionHypothesis, List.cons_append, joined]
  | case5 c rest _ _ quoted after found lexemes isOpen equality inductionHypothesis =>
      rw [equality] at inductionHypothesis
      simp only [List.flatMap_cons, text_literal, inductionHypothesis, (Text.literal?_append found).1]
  | case6 c rest _ _ unclosed identifier lexemes isOpen equality inductionHypothesis =>
      rw [equality] at inductionHypothesis
      simp only [List.flatMap_cons, text_word, inductionHypothesis, Text.run_append]
  | case7 c rest _ _ unclosed separator lexemes isOpen equality inductionHypothesis =>
      rw [equality] at inductionHypothesis
      simp only [List.flatMap_cons, text_other, inductionHypothesis, List.singleton_append]

/-- The lexemes of a line, in order, are the line. -/
theorem flatMap_text_read (source : Text) (openBefore : Bool) :
    (read source openBefore).1.flatMap text = source := by
  rw [read]
  split
  · exact flatMap_text_readCode source
  · split
    next empty => simp [empty]
    next =>
      split
      next => simp
      next body after closed =>
        simp only [List.flatMap_cons, text_comment, flatMap_text_readCode,
          (Text.closeComment?_append closed).1]

end Lexeme

end Dialect
