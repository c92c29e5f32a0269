import Dialect.Proofs.Unmasking

/-!
# Masking masked code

A quote that nothing closes stays in the masked text, and behind it stand placeholders where the code has
literals. They close it no more than the literals did: a reader that started at the quote is just inside
behind each literal, even if it took the first quote of the literal for an escaped character, and it is
just inside behind each placeholder. Main statement: masked code has no literals, so masking it once more
changes nothing (`Mask.text_ofCode_has_no_literals`).
-/

namespace Dialect

/-- Where all fragments are single characters, no literal starts at any place. -/
theorem Text.literal?_of_ofCode_plain {text before after : Text}
    (plain : Fragment.ofCode text = text.map .plain) (split : text = before ++ after) :
    literal? after = none := by
  have notHere {code : Text} (allPlain : Fragment.ofCode code = code.map .plain) :
      literal? code = none := by
    cases found : literal? code with
    | none => rfl
    | some cut =>
        rw [Fragment.ofCode_of_literal? found] at allPlain
        cases code with
        | nil => simp at allPlain
        | cons c rest => simp at allPlain
  induction before generalizing text with
  | nil =>
      rw [split, List.nil_append] at plain
      exact notHere plain
  | cons c others inductionHypothesis =>
      subst split
      have unclosed := notHere plain
      rw [List.cons_append] at plain unclosed
      rw [Fragment.ofCode_of_unclosed unclosed] at plain
      exact inductionHypothesis (List.cons.inj plain).2 rfl

namespace Mask

section Marker

variable {mask : Mask} (isMarker : IsMarker mask.marker)

include isMarker

theorem isFiller_placeholder (number : Nat) : (mask.placeholder number).IsFiller := by
  have marker : mask.marker ≠ '\\' ∧ isQuote mask.marker = false := by
    refine ⟨?_, isQuote_of_isMarker isMarker⟩
    intro isBackslash
    rw [isBackslash] at isMarker
    exact absurd isMarker (by decide)
  have digits : ∀ c ∈ Text.decimal number, c ≠ '\\' ∧ isQuote c = false := by
    intro c member
    have identifier := Text.isIdentifierChar_of_mem_decimal number c member
    refine ⟨?_, isQuote_eq_false_of_identifier identifier⟩
    intro isBackslash
    rw [isBackslash] at identifier
    exact absurd identifier (by decide)
  refine ⟨by simp [placeholder], ?_⟩
  intro c member
  rw [placeholder, List.cons_append, List.mem_cons, List.mem_append, List.mem_singleton] at member
  rcases member with rfl | inDigits | rfl
  · exact marker
  · exact digits c inDigits
  · exact marker

/-- The masked text closes a quote only where the code does. -/
theorem quieter_textFrom (number : Nat) (code : Text) :
    Text.Quieter (mask.textFrom number (Fragment.ofCode code)) code := by
  fun_induction Fragment.ofCode code generalizing number with
  | case1 => exact Text.Quieter.nil _
  | case2 c rest _ inductionHypothesis => exact (inductionHypothesis number).append_left [c]
  | case3 c rest quoted after found inductionHypothesis =>
      rw [← (Text.literal?_append found).1, textFrom]
      exact .replace (isFiller_placeholder isMarker number) (Text.settles_of_literal? found)
        fun quote => inductionHypothesis (number + 1) quote .inside

theorem ofCode_textFrom (number : Nat) (code : Text) :
    Fragment.ofCode (mask.textFrom number (Fragment.ofCode code)) =
      (mask.textFrom number (Fragment.ofCode code)).map .plain := by
  fun_induction Fragment.ofCode code generalizing number with
  | case1 => rw [textFrom, Fragment.ofCode, List.map_nil]
  | case2 c rest unclosed inductionHypothesis =>
      have quieter := quieter_textFrom isMarker number rest
      rw [textFrom, Fragment.ofCode_of_unclosed (quieter.literal?_eq_none unclosed),
        inductionHypothesis number, List.map_cons]
  | case3 c rest quoted after found inductionHypothesis =>
      have noQuotes : ∀ c ∈ mask.placeholder number, isQuote c = false :=
        fun c member => ((isFiller_placeholder isMarker number).ordinary c member).2
      rw [textFrom, Fragment.ofCode_plain_append noQuotes, inductionHypothesis (number + 1),
        List.map_append]

end Marker

/-- No literal starts anywhere in masked code, so masking it once more finds none and leaves it as it is. -/
theorem text_ofCode_has_no_literals (code : Text) :
    (∀ start, (ofCode code).text.literalEnd? start = none) ∧
      (ofCode (ofCode code).text).literals = [] ∧
      (ofCode (ofCode code).text).text = (ofCode code).text := by
  have plain : Fragment.ofCode (ofCode code).text = (ofCode code).text.map .plain :=
    ofCode_textFrom (isMarker_marker_ofCode code) 0 code
  generalize (ofCode code).text = masked at plain
  refine ⟨?_, ?_, ?_⟩
  · intro start
    rw [Text.literalEnd?]
    split
    next => rfl
    next before after cut =>
      have split := (Text.append_eq_of_splitAt? cut).1
      rw [Text.literal?_of_ofCode_plain plain split.symm, Option.map_none]
  · have none : countLiterals (masked.map .plain) = 0 := countLiterals_plains masked
    rw [literals, ofCode, plain]
    exact List.eq_nil_of_length_eq_zero none
  · rw [text, ofCode, plain, textFrom_plain]

end Mask

end Dialect
