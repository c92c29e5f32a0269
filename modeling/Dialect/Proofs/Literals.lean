import Dialect.Proofs.Scanning

/-!
# The grammar of literals

What a literal is can be said without reading it: a quote, then items, then the same quote. An item is a
character other than the quote and the backslash, or a backslash and one character. Main statement: from
every byte offset the reader by characters and the pass over the bytes find the same end, and they find
one exactly if a literal of this grammar starts there (`Text.literalEndAt?_follows_grammar`).
-/

namespace Dialect

/-- What can stand between the quotes of a literal. -/
inductive QuotedItem (quote : Char) where
  | ordinary (c : Char) (notQuote : c ≠ quote) (notBackslash : c ≠ '\\')
  | escaped (c : Char)

/-- The characters of an item. -/
def QuotedItem.text {quote : Char} : QuotedItem quote → Text
  | .ordinary c _ _ => [c]
  | .escaped c => ['\\', c]

namespace Text

/-! ## The grammar -/

/-- A quote, items and the same quote. -/
def IsLiteral (text : Text) : Prop :=
  ∃ quote, (quote = '"' ∨ quote = '\'') ∧
    ∃ items : List (QuotedItem quote), text = quote :: (items.flatMap QuotedItem.text ++ [quote])

/-- A byte offset between two characters of a text, or at one of its ends. -/
def IsBoundary (text : Text) (offset : Nat) : Prop :=
  ∃ before after, text = before ++ after ∧ before.bytes = offset

/-- What lies between two byte offsets of a text is a literal. -/
def LiteralSpans (text : Text) (start stop : Nat) : Prop :=
  ∃ before literal after, text = before ++ literal ++ after ∧ start = before.bytes ∧
    stop = (before ++ literal).bytes ∧ literal.IsLiteral

/-! ## Reading by characters -/

theorem closeQuote?_items {quote : Char} (notBackslash : quote ≠ '\\') (items : List (QuotedItem quote))
    (after : Text) :
    closeQuote? quote (items.flatMap QuotedItem.text ++ quote :: after) =
      some (items.flatMap QuotedItem.text ++ [quote], after) := by
  induction items with
  | nil =>
      rw [List.flatMap_nil, List.nil_append, closeQuote?_cons_of_ne_backslash quote after notBackslash,
        if_pos rfl, List.nil_append]
  | cons item items inductionHypothesis =>
      cases item with
      | ordinary c notQuote notEscape =>
          show closeQuote? quote (c :: (items.flatMap QuotedItem.text ++ quote :: after)) = _
          rw [closeQuote?_cons_of_ne_backslash quote _ notEscape, if_neg notQuote, inductionHypothesis]
          rfl
      | escaped c =>
          show closeQuote? quote ('\\' :: c :: (items.flatMap QuotedItem.text ++ quote :: after)) = _
          rw [closeQuote?, inductionHypothesis]
          rfl

theorem exists_items_of_closeQuote? {quote : Char} {text body after : Text}
    (closed : closeQuote? quote text = some (body, after)) :
    ∃ items : List (QuotedItem quote), body = items.flatMap QuotedItem.text ++ [quote] := by
  fun_induction closeQuote? quote text generalizing body with
  | case1 => simp at closed
  | case2 => simp at closed
  | case3 c rest inductionHypothesis =>
      obtain ⟨⟨inner, tail⟩, innerClosed, equality⟩ := Option.map_eq_some_iff.mp closed
      obtain ⟨rfl, rfl⟩ := Prod.mk.inj equality
      obtain ⟨items, rfl⟩ := inductionHypothesis innerClosed
      exact ⟨.escaped c :: items, rfl⟩
  | case4 rest =>
      obtain ⟨rfl, rfl⟩ := Prod.mk.inj (Option.some.inj closed)
      exact ⟨[], rfl⟩
  | case5 c rest alone paired notQuote inductionHypothesis =>
      obtain ⟨⟨inner, tail⟩, innerClosed, equality⟩ := Option.map_eq_some_iff.mp closed
      obtain ⟨rfl, rfl⟩ := Prod.mk.inj equality
      obtain ⟨items, rfl⟩ := inductionHypothesis innerClosed
      exact ⟨.ordinary c notQuote (ne_backslash_of_excluded alone paired) :: items, rfl⟩

theorem isLiteral_of_literal? {text literal after : Text}
    (found : literal? text = some (literal, after)) : literal.IsLiteral := by
  cases text with
  | nil => simp [literal?] at found
  | cons quote rest =>
      rw [literal?, Option.ite_none_right_eq_some] at found
      obtain ⟨isQuoteChar, mapped⟩ := found
      obtain ⟨⟨body, tail⟩, closed, equality⟩ := Option.map_eq_some_iff.mp mapped
      obtain ⟨rfl, rfl⟩ := Prod.mk.inj equality
      obtain ⟨items, rfl⟩ := exists_items_of_closeQuote? closed
      exact ⟨quote, (isQuote_iff quote).mp isQuoteChar, items, rfl⟩

theorem literal?_of_isLiteral {literal : Text} (isLiteral : literal.IsLiteral) (after : Text) :
    literal? (literal ++ after) = some (literal, after) := by
  obtain ⟨quote, isQuoteChar, items, rfl⟩ := isLiteral
  rw [← isQuote_iff] at isQuoteChar
  have notBackslash : quote ≠ '\\' := (ne_of_isQuote isQuoteChar (by decide)).symm
  rw [List.cons_append, List.append_assoc, literal?, if_pos isQuoteChar, List.singleton_append,
    closeQuote?_items notBackslash, Option.map_some]

/-- A text starts with a literal exactly if it starts with a text of the grammar. -/
theorem literal?_eq_some_iff {text literal after : Text} :
    literal? text = some (literal, after) ↔ text = literal ++ after ∧ literal.IsLiteral := by
  constructor
  · intro found
    exact ⟨(literal?_append found).1.symm, isLiteral_of_literal? found⟩
  · rintro ⟨rfl, isLiteral⟩
    exact literal?_of_isLiteral isLiteral after

theorem literalEnd?_eq_some_iff {text : Text} {start stop : Nat} :
    literalEnd? text start = some stop ↔ text.LiteralSpans start stop := by
  rw [literalEnd?]
  constructor
  · intro found
    split at found
    next => simp at found
    next before rest cut =>
      obtain ⟨rfl, rfl⟩ := append_eq_of_splitAt? cut
      obtain ⟨⟨literal, after⟩, isRead, rfl⟩ := Option.map_eq_some_iff.mp found
      obtain ⟨rfl, isLiteral⟩ := literal?_eq_some_iff.mp isRead
      exact ⟨before, literal, after, (List.append_assoc ..).symm, rfl, (bytes_append ..).symm, isLiteral⟩
  · rintro ⟨before, literal, after, rfl, rfl, rfl, isLiteral⟩
    rw [List.append_assoc, splitAt?_append]
    simp only [literal?_of_isLiteral isLiteral after, Option.map_some, bytes_append]

/-- A literal holds at least its two quotes, and behind it a character may start. -/
theorem LiteralSpans.bounds {text : Text} {start stop : Nat} (spans : text.LiteralSpans start stop) :
    text.IsBoundary stop ∧ start + 1 < stop := by
  obtain ⟨before, literal, after, rfl, rfl, rfl, quote, _, items, rfl⟩ := spans
  refine ⟨⟨_, after, rfl, rfl⟩, ?_⟩
  have positive := quote.utf8Size_pos
  simp only [bytes_append, bytes_cons, bytes_nil]
  omega

/-! ## Reading by bytes -/

/-- The pass over the bytes can start anywhere, also inside a character and beyond the end. -/
theorem literalEndAt?_eq_literalEnd? (text : Text) (start : Nat) :
    literalEndAt? text.utf8 start = literalEnd? text start := by
  rw [literalEnd?]
  cases cut : splitAt? text start with
  | some halves =>
      obtain ⟨before, rest⟩ := halves
      obtain ⟨rfl, rfl⟩ := append_eq_of_splitAt? cut
      exact literalEndAt?_eq before rest
  | none =>
      cases here : text.utf8[start]? with
      | none => rw [literalEndAt?, here, Option.bind_none]
      | some byte => exact literalEndAt?_of_wide here (wide_of_splitAt?_eq_none cut here)

/-- The pass over the bytes finds the end of a literal as reading by characters does, and it finds one
exactly if a literal of the grammar starts at the offset. There is at most one such literal. -/
theorem literalEndAt?_follows_grammar (text : Text) (start : Nat) :
    literalEndAt? text.utf8 start = literalEnd? text start ∧
    (∀ stop, literalEnd? text start = some stop ↔ text.LiteralSpans start stop) ∧
    (∀ stop other, text.LiteralSpans start stop → text.LiteralSpans start other → stop = other) ∧
    (∀ stop, text.LiteralSpans start stop → text.IsBoundary stop ∧ start + 1 < stop) ∧
    (literalEnd? text start = none ↔ ∀ stop, ¬text.LiteralSpans start stop) := by
  refine ⟨literalEndAt?_eq_literalEnd? text start, fun _ => literalEnd?_eq_some_iff, ?_,
    fun _ spans => spans.bounds, ?_⟩
  · intro stop other spans otherSpans
    rw [← literalEnd?_eq_some_iff] at spans otherSpans
    exact Option.some.inj (spans.symm.trans otherSpans)
  · rw [Option.eq_none_iff_forall_ne_some]
    exact forall_congr' fun stop => not_congr literalEnd?_eq_some_iff

example : literalEnd? "é'\\é\\'' x".toList 2 = some 9 ∧ literalEnd? "é'\\é\\'' x".toList 1 = none := by
  decide

end Text

end Dialect
