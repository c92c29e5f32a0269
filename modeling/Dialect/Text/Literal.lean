import Dialect.Text.Basic

/-!
# Quoted literals

A literal is opened by a single or a double quote and closed by the next quote of the same kind that
no backslash escapes. A backslash escapes the one character after it, whatever that is. A quote that
nothing closes opens no literal.
-/

namespace Dialect

def isQuote (c : Char) : Bool := c == '"' || c == '\''

namespace Text

/-- What follows an opening quote, cut behind the quote that closes the literal. -/
def closeQuote? (quote : Char) : Text → Option (Text × Text)
  | [] => none
  | '\\' :: [] => none
  | '\\' :: c :: rest =>
      (closeQuote? quote rest).map fun (body, after) => ('\\' :: c :: body, after)
  | c :: rest =>
      if c = quote then some ([c], rest)
      else (closeQuote? quote rest).map fun (body, after) => (c :: body, after)

/-- The literal at the start of a text and what follows it. -/
def literal? : Text → Option (Text × Text)
  | [] => none
  | c :: rest =>
      if isQuote c then (closeQuote? c rest).map fun (body, after) => (c :: body, after)
      else none

/-- The byte offset behind the literal that starts at a byte offset. -/
def literalEnd? (text : Text) (start : Nat) : Option Nat :=
  match splitAt? text start with
  | none => none
  | some (_, rest) => (literal? rest).map fun (literal, _) => start + literal.bytes

theorem closeQuote?_append {quote : Char} {text body after : Text}
    (closed : closeQuote? quote text = some (body, after)) :
    body ++ after = text ∧ body ≠ [] := by
  fun_induction closeQuote? quote text generalizing body with
  | case1 => simp at closed
  | case2 => simp at closed
  | case3 c rest inductionHypothesis =>
      obtain ⟨⟨inner, tail⟩, innerClosed, equality⟩ := Option.map_eq_some_iff.mp closed
      simp only [Prod.mk.injEq] at equality
      obtain ⟨rfl, rfl⟩ := equality
      simp [(inductionHypothesis innerClosed).1]
  | case4 =>
      simp only [Option.some.injEq, Prod.mk.injEq] at closed
      obtain ⟨rfl, rfl⟩ := closed
      simp
  | case5 c rest _ _ _ inductionHypothesis =>
      obtain ⟨⟨inner, tail⟩, innerClosed, equality⟩ := Option.map_eq_some_iff.mp closed
      simp only [Prod.mk.injEq] at equality
      obtain ⟨rfl, rfl⟩ := equality
      simp [(inductionHypothesis innerClosed).1]

/-- A literal and what follows it are the text, and a literal is never empty. -/
theorem literal?_append {text literal after : Text}
    (found : literal? text = some (literal, after)) :
    literal ++ after = text ∧ literal ≠ [] := by
  cases text with
  | nil => simp [literal?] at found
  | cons c rest =>
      rw [literal?] at found
      split at found
      next =>
        obtain ⟨⟨body, tail⟩, closed, equality⟩ := Option.map_eq_some_iff.mp found
        simp only [Prod.mk.injEq] at equality
        obtain ⟨rfl, rfl⟩ := equality
        simp [(closeQuote?_append closed).1]
      next => simp at found

/-- What follows a literal is shorter than the text that it starts. -/
theorem length_after_literal?_lt {text literal after : Text}
    (found : literal? text = some (literal, after)) :
    after.length < text.length := by
  obtain ⟨joined, nonempty⟩ := literal?_append found
  have literalLength : 0 < literal.length := List.length_pos_iff.mpr nonempty
  rw [← joined, List.length_append]
  omega

end Text

end Dialect
