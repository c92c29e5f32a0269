import Dialect.Proofs.Acceptance
import Dialect.Proofs.Keywords
import Dialect.Proofs.Quotation

/-!
# Reading a rewritten line again

When the keywords of a line give way to phrases of identifier characters and spaces, every comment and
every literal stays where it was: no slash, star, quote or backslash comes or goes, so each comment
starts and each quote is closed as before. Main statement: the lexemes of the rewritten line are the
lexemes of the line, each keyword replaced by the lexemes of its equivalent (`Table.read_rewrittenText`).
-/

namespace Dialect

namespace Text

structure IsPhrase (text : Text) : Prop where
  nonempty : text ≠ []
  chars : ∀ c ∈ text, isIdentifierChar c = true ∨ c = ' '

theorem isPhrase_run {c : Char} (rest : Text) (identifier : isIdentifierChar c = true) :
    IsPhrase (c :: rest.takeWhile isIdentifierChar) := by
  refine ⟨List.cons_ne_nil c _, ?_⟩
  intro d member
  exact Or.inl (isIdentifierChar_of_mem_run rest identifier d member)

theorem ne_of_phrase {c d : Char} (phrase : isIdentifierChar c = true ∨ c = ' ')
    (separator : isIdentifierChar d = false) (notSpace : d ≠ ' ') : c ≠ d := by
  intro equality
  rcases phrase with identifier | space
  · rw [equality, separator] at identifier
    exact absurd identifier (by decide)
  · exact notSpace (equality.symm.trans space)

theorem isQuote_of_phrase {c : Char} (phrase : isIdentifierChar c = true ∨ c = ' ') :
    isQuote c = false := by
  rcases phrase with identifier | space
  · exact isQuote_eq_false_of_identifier identifier
  · rw [space]
    decide

theorem IsPhrase.isFiller {text : Text} (phrase : text.IsPhrase) : text.IsFiller := by
  refine ⟨phrase.nonempty, ?_⟩
  intro c member
  have isPhraseChar := phrase.chars c member
  exact ⟨ne_of_phrase isPhraseChar (by decide) (by decide), isQuote_of_phrase isPhraseChar⟩

/-- One phrase for another leaves the same quotes open and closed. -/
theorem Quieter.replace_phrase {left right : Text} (leftPhrase : left.IsPhrase)
    (rightPhrase : right.IsPhrase) {small large : Text} (quieter : Quieter small large) :
    Quieter (left ++ small) (right ++ large) :=
  .replace leftPhrase.isFiller rightPhrase.isFiller.settles fun quote => quieter quote .inside

theorem closeComment?_append_of_eq_some {text body after : Text}
    (closed : closeComment? text = some (body, after)) (other : Text) :
    closeComment? (body ++ other) = some (body, other) := by
  fun_induction closeComment? text generalizing body with
  | case1 => simp at closed
  | case2 =>
      obtain ⟨rfl, rfl⟩ := Prod.mk.inj (Option.some.inj closed)
      rfl
  | case3 c rest notClosing inductionHypothesis =>
      obtain ⟨⟨inner, tail⟩, innerClosed, equality⟩ := Option.map_eq_some_iff.mp closed
      obtain ⟨rfl, rfl⟩ := Prod.mk.inj equality
      have later := inductionHypothesis innerClosed
      obtain ⟨joined, innerNonempty⟩ := closeComment?_append innerClosed
      have stillOpen : ∀ others, c = '*' → inner ++ other = '/' :: others → False := by
        intro others isStar startsWithSlash
        obtain ⟨d, more, rfl⟩ := List.exists_cons_of_ne_nil innerNonempty
        obtain rfl : d = '/' := (List.cons.inj startsWithSlash).1
        exact notClosing (more ++ tail) isStar joined.symm
      rw [List.cons_append, closeComment?, later, Option.map_some]
      exact stillOpen

end Text

namespace Lexeme

/-- Reading a phrase in front of a text that starts no word goes on with that text. -/
theorem readCode_phrase {phrase rest : Text}
    (chars : ∀ c ∈ phrase, isIdentifierChar c = true ∨ c = ' ')
    (separated : rest.head?.any isIdentifierChar = false) :
    readCode (phrase ++ rest) = (ofText phrase ++ (readCode rest).1, (readCode rest).2) := by
  induction phrase with
  | nil => rfl
  | cons c others inductionHypothesis =>
      have first := chars c List.mem_cons_self
      have code : startsComment (c :: (others ++ rest)) = false :=
        startsComment_of_ne_slash _ (Text.ne_of_phrase first (by decide) (by decide))
      have unclosed : Text.literal? (c :: (others ++ rest)) = none :=
        Text.literal?_cons_of_not_isQuote _ (Text.isQuote_of_phrase first)
      rw [List.cons_append, readCode_cons code unclosed,
        inductionHypothesis fun d member => chars d (List.mem_cons_of_mem c member),
        consChar_append _ (noWordFirst_readCode separated), ofText_cons]

theorem read_of_closed_comment {source body after : Text}
    (closed : Text.closeComment? source = some (body, after)) :
    read source true = (.comment body :: (readCode after).1, (readCode after).2) := by
  have nonempty : source ≠ [] := by
    intro empty
    simp [empty, Text.closeComment?] at closed
  simp [read, nonempty, closed]

theorem startsComment_cons_eq_true_iff {c : Char} {rest : Text} :
    startsComment (c :: rest) = true ↔
      c = '/' ∧ (rest.head? = some '/' ∨ rest.head? = some '*') := by
  constructor
  · intro starts
    rw [startsComment.eq_def] at starts
    split at starts
    next others equality =>
      obtain ⟨rfl, rfl⟩ := List.cons.inj equality
      exact ⟨rfl, Or.inl rfl⟩
    next others equality =>
      obtain ⟨rfl, rfl⟩ := List.cons.inj equality
      exact ⟨rfl, Or.inr rfl⟩
    next => simp at starts
  · intro facts
    obtain ⟨rfl, second⟩ := facts
    rcases second with isSlash | isStar
    · obtain ⟨others, rfl⟩ := List.head?_eq_some_iff.mp isSlash
      rfl
    · obtain ⟨others, rfl⟩ := List.head?_eq_some_iff.mp isStar
      rfl

/-- Whether a comment starts at a character is told by the next one. -/
theorem startsComment_of_head? {c : Char} {rest other : Text}
    (code : startsComment (c :: rest) = false)
    (next : other.head? = rest.head? ∨ ∀ d ∈ other.head?, d ≠ '/' ∧ d ≠ '*') :
    startsComment (c :: other) = false := by
  rw [← Bool.not_eq_true, startsComment_cons_eq_true_iff] at code ⊢
  rintro ⟨isFirst, second⟩
  rcases next with same | noMark
  · rw [same] at second
    exact code ⟨isFirst, second⟩
  · rcases second with isSlash | isStar
    · exact (noMark '/' isSlash).1 rfl
    · exact (noMark '*' isStar).2 rfl

end Lexeme

namespace Table

/-- Every equivalent is a phrase without keywords. -/
structure Settled (table : Table) : Prop where
  phrases : ∀ row ∈ table.rows, row.equivalent.IsPhrase
  foreign : ∀ row ∈ table.rows, ∀ word, .word word ∈ Lexeme.ofText row.equivalent →
    word ∉ table.keywords

/-- The lexemes that take the place of a lexeme. -/
def rewrittenLexemes (table : Table) : Lexeme → List Lexeme
  | .word content => Lexeme.ofText (table.equivalent content)
  | lexeme => [lexeme]

section Settled

variable {table : Table} (settled : table.Settled)

include settled

theorem isPhrase_equivalent {content : Text} (phrase : content.IsPhrase) :
    (table.equivalent content).IsPhrase := by
  rw [equivalent]
  cases found : table.row? content with
  | none => exact phrase
  | some row => exact settled.phrases row (List.mem_of_find?_eq_some found)

/-- A rewritten text starts with the same character, or both start with a phrase. -/
theorem head?_rewrittenText (source : Text) :
    (table.rewrittenText (Lexeme.readCode source).1).head? = source.head? ∨
      (source.head?.any isIdentifierChar = true ∧
        ∃ c, (table.rewrittenText (Lexeme.readCode source).1).head? = some c ∧
          (isIdentifierChar c = true ∨ c = ' ')) := by
  fun_cases Lexeme.readCode source with
  | case1 => exact Or.inl rfl
  | case2 rest => exact Or.inl rfl
  | case3 rest closed => exact Or.inl rfl
  | case4 rest body after closed lexemes isOpen equality => exact Or.inl rfl
  | case5 c rest _ _ quoted after found lexemes isOpen equality =>
      left
      obtain ⟨joined, nonempty⟩ := Text.literal?_append found
      obtain ⟨d, more, rfl⟩ := List.exists_cons_of_ne_nil nonempty
      rw [← joined]
      rfl
  | case6 c rest _ _ unclosed identifier lexemes isOpen equality =>
      right
      have phrase := isPhrase_equivalent settled (Text.isPhrase_run rest identifier)
      obtain ⟨d, more, split⟩ := List.exists_cons_of_ne_nil phrase.nonempty
      refine ⟨identifier, d, ?_, phrase.chars d (by rw [split]; exact List.mem_cons_self)⟩
      rw [rewrittenText_word, split]
      rfl
  | case7 c rest _ _ unclosed separator lexemes isOpen equality => exact Or.inl rfl

theorem head?_rewrittenText_of_separated {source : Text}
    (separated : source.head?.any isIdentifierChar = false) :
    (table.rewrittenText (Lexeme.readCode source).1).head? = source.head? := by
  rcases head?_rewrittenText settled source with same | ⟨identifier, _⟩
  · exact same
  · rw [separated] at identifier
    exact absurd identifier (by decide)

theorem startsComment_rewrittenText {c : Char} {source : Text}
    (code : Lexeme.startsComment (c :: source) = false) :
    Lexeme.startsComment (c :: table.rewrittenText (Lexeme.readCode source).1) = false := by
  apply Lexeme.startsComment_of_head? code
  rcases head?_rewrittenText settled source with same | ⟨_, d, isHead, phrase⟩
  · exact Or.inl same
  · right
    intro e isFirst
    rw [isHead, Option.mem_some] at isFirst
    rw [← isFirst]
    exact ⟨Text.ne_of_phrase phrase (by decide) (by decide),
      Text.ne_of_phrase phrase (by decide) (by decide)⟩

/-- Rewriting closes no quote that was open. -/
theorem quieter_rewrittenText (source : Text) :
    Text.Quieter (table.rewrittenText (Lexeme.readCode source).1) source := by
  fun_induction Lexeme.readCode source with
  | case1 => exact Text.Quieter.refl _
  | case2 rest => simpa using Text.Quieter.refl _
  | case3 rest closed => simpa using Text.Quieter.refl _
  | case4 rest body after closed lexemes isOpen equality inductionHypothesis =>
      rw [equality] at inductionHypothesis
      have joined := (Text.closeComment?_append closed).1
      rw [← joined, rewrittenText_comment]
      exact inductionHypothesis.append_left ('/' :: '*' :: body)
  | case5 c rest _ _ quoted after found lexemes isOpen equality inductionHypothesis =>
      rw [equality] at inductionHypothesis
      rw [← (Text.literal?_append found).1, rewrittenText_literal]
      exact inductionHypothesis.append_left quoted
  | case6 c rest _ _ unclosed identifier lexemes isOpen equality inductionHypothesis =>
      rw [equality] at inductionHypothesis
      have phrase := Text.isPhrase_run rest identifier
      rw [← Text.run_append c rest, rewrittenText_word]
      exact inductionHypothesis.replace_phrase (isPhrase_equivalent settled phrase) phrase
  | case7 c rest _ _ unclosed separator lexemes isOpen equality inductionHypothesis =>
      rw [equality] at inductionHypothesis
      rw [rewrittenText_other]
      exact inductionHypothesis.append_left [c]

/-- The lexemes of rewritten code. -/
theorem readCode_rewrittenText (source : Text) :
    Lexeme.readCode (table.rewrittenText (Lexeme.readCode source).1) =
      ((Lexeme.readCode source).1.flatMap table.rewrittenLexemes, (Lexeme.readCode source).2) := by
  fun_induction Lexeme.readCode source with
  | case1 => rw [rewrittenText_nil, Lexeme.readCode]; rfl
  | case2 rest =>
      rw [rewrittenText_comment, rewrittenText_nil, List.append_nil, Lexeme.readCode]
      rfl
  | case3 rest unclosed =>
      rw [rewrittenText_comment, rewrittenText_nil, List.append_nil,
        Lexeme.readCode_of_unclosed_comment unclosed]
      rfl
  | case4 rest body after closed lexemes isOpen equality inductionHypothesis =>
      rw [equality] at inductionHypothesis
      have closedAgain := Text.closeComment?_append_of_eq_some closed (table.rewrittenText lexemes)
      have again := Lexeme.readCode_of_closed_comment closedAgain
      rw [inductionHypothesis] at again
      rw [rewrittenText_comment, List.flatMap_cons]
      exact again
  | case5 c rest _ _ quoted after found lexemes isOpen equality inductionHypothesis =>
      rw [equality] at inductionHypothesis
      have foundAgain := Text.literal?_append_of_eq_some found (table.rewrittenText lexemes)
      obtain ⟨d, more, split⟩ := List.exists_cons_of_ne_nil (Text.literal?_append found).2
      rw [split, List.cons_append, ← split] at foundAgain
      have again := Lexeme.readCode_of_literal? foundAgain
      rw [inductionHypothesis, ← List.cons_append, ← split] at again
      rw [rewrittenText_literal, List.flatMap_cons]
      exact again
  | case6 c rest _ _ unclosed identifier lexemes isOpen equality inductionHypothesis =>
      -- The run was maximal, and rewriting what is behind it puts no identifier character there.
      have separated := Text.any_head?_dropWhile rest
      have head := head?_rewrittenText_of_separated settled separated
      rw [equality] at inductionHypothesis head
      rw [← head] at separated
      have phrase := isPhrase_equivalent settled (Text.isPhrase_run rest identifier)
      have again := Lexeme.readCode_phrase phrase.chars separated
      rw [inductionHypothesis] at again
      rw [rewrittenText_word, List.flatMap_cons]
      exact again
  | case7 c rest notLine notBlock unclosed separator lexemes isOpen equality inductionHypothesis =>
      -- The character started no comment and no literal; rewriting what follows does not change that.
      have quieter := quieter_rewrittenText settled rest
      have code := startsComment_rewrittenText settled (Lexeme.startsComment_eq_false notLine notBlock)
      rw [equality] at inductionHypothesis quieter code
      have again := Lexeme.readCode_of_separator code (quieter.literal?_eq_none unclosed)
        (by simpa using separator)
      rw [inductionHypothesis] at again
      rw [rewrittenText_other, List.flatMap_cons]
      exact again

/-- The lexemes of a rewritten line are the rewritten lexemes of the line, and the same comment is
open behind it. -/
theorem read_rewrittenText (source : Text) (openBefore : Bool) :
    Lexeme.read (table.rewrittenText (Lexeme.read source openBefore).1) openBefore =
      ((Lexeme.read source openBefore).1.flatMap table.rewrittenLexemes,
        (Lexeme.read source openBefore).2) := by
  cases openBefore with
  | false => exact readCode_rewrittenText settled source
  | true =>
      by_cases empty : source = []
      · rw [empty]
        rfl
      · cases closed : Text.closeComment? source with
        | none =>
            have reading : Lexeme.read source true = ([.comment source], true) := by
              simp [Lexeme.read, empty, closed]
            rw [reading, rewrittenText_comment, rewrittenText_nil, List.append_nil, reading]
            rfl
        | some split =>
            obtain ⟨body, after⟩ := split
            rw [Lexeme.read_of_closed_comment closed, rewrittenText_comment,
              Lexeme.read_of_closed_comment (Text.closeComment?_append_of_eq_some closed _),
              readCode_rewrittenText settled after]
            rfl

end Settled

end Table

end Dialect
