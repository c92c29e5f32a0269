import Dialect.Proofs.Acceptance
import Dialect.Proofs.Masking
import Dialect.Proofs.Steps

/-!
# Inserted texts and placeholders

Literals are put back after the keywords have been replaced, so what a keyword has given way to is read
once more. The marker of the placeholders does not occur in the code, but it can occur in the inserted
text. Main statement: replacing rewrites the lexemes of the code one by one exactly if no marker of an
inserted text starts a placeholder there (`Table.replaceInCode_eq_rewrittenText_iff`). This is so if the
code has no literals, or if no inserted text holds the marker.
-/

namespace Dialect

namespace Mask

/-! ## Markers that start no placeholder -/

/-- No marker in a text starts a placeholder when another text stands behind it. -/
def Inert (mask : Mask) (text behind : Text) : Prop :=
  ∀ left right, text = left ++ mask.marker :: right → mask.takeLiteral? (right ++ behind) = none

theorem inert_cons_iff {mask : Mask} {c : Char} {text behind : Text} :
    mask.Inert (c :: text) behind ↔
      (c = mask.marker → mask.takeLiteral? (text ++ behind) = none) ∧ mask.Inert text behind := by
  constructor
  · intro inert
    constructor
    · intro isMarker
      exact inert [] text (by rw [isMarker, List.nil_append])
    · intro left right split
      exact inert (c :: left) right (by rw [split, List.cons_append])
  · intro inert left right split
    cases left with
    | nil =>
        obtain ⟨isMarker, rfl⟩ := List.cons.inj split
        exact inert.1 isMarker
    | cons d others =>
        obtain ⟨_, othersSplit⟩ := List.cons.inj split
        exact inert.2 others right othersSplit

theorem inert_of_not_mem {mask : Mask} {text : Text} (absent : mask.marker ∉ text) (behind : Text) :
    mask.Inert text behind := by
  intro left right split
  rw [split] at absent
  simp at absent

theorem unmask_append_of_inert {mask : Mask} {text behind : Text} (inert : mask.Inert text behind) :
    mask.unmask (text ++ behind) = text ++ mask.unmask behind := by
  induction text with
  | nil => rfl
  | cons c rest inductionHypothesis =>
      obtain ⟨first, others⟩ := inert_cons_iff.mp inert
      rw [List.cons_append, List.cons_append, ← inductionHypothesis others, unmask]
      by_cases isMarker : c = mask.marker
      · rw [if_pos isMarker]
        split
        next => rfl
        next found => simp [first isMarker] at found
      · rw [if_neg isMarker]

/-- A marker that starts a placeholder is not kept, because no literal starts with a marker. -/
theorem inert_of_isPrefix_unmask {mask : Mask}
    (quoted : ∀ literal ∈ mask.literals, ∃ quote rest, literal = quote :: rest ∧ quote ≠ mask.marker)
    {text behind : Text} (kept : text <+: mask.unmask (text ++ behind)) : mask.Inert text behind := by
  induction text with
  | nil => exact inert_of_not_mem List.not_mem_nil behind
  | cons c rest inductionHypothesis =>
      rw [List.cons_append, unmask] at kept
      rw [inert_cons_iff]
      by_cases isMarker : c = mask.marker
      · rw [if_pos isMarker] at kept
        split at kept
        next notFound =>
          exact ⟨fun _ => notFound, inductionHypothesis (List.cons_prefix_cons.mp kept).2⟩
        next literal after found =>
          obtain ⟨quote, others, rfl, different⟩ := quoted literal (of_takeLiteral? found).1
          exact absurd ((List.cons_prefix_cons.mp kept).1.symm.trans isMarker) different
      · rw [if_neg isMarker] at kept
        exact ⟨fun equality => absurd equality isMarker,
          inductionHypothesis (List.cons_prefix_cons.mp kept).2⟩

end Mask

namespace Table

/-! ## Replacing -/

/-- No marker of an inserted text starts a placeholder. The first literal of the lexemes has the given
number, and what stands behind an inserted text are the other lexemes, masked and rewritten. -/
def InsertsInertly (table : Table) (mask : Mask) : Nat → List Lexeme → Prop
  | _, [] => True
  | number, .literal _ :: lexemes => InsertsInertly table mask (number + 1) lexemes
  | number, lexeme :: lexemes =>
      mask.Inert (table.rewriteLexeme lexeme) (table.rewrittenText (mask.maskedFrom number lexemes)) ∧
        InsertsInertly table mask number lexemes

theorem insertsInertly_cons_iff {table : Table} {mask : Mask} {number : Nat} {lexeme : Lexeme}
    {lexemes : List Lexeme} (plain : lexeme.literal? = none) :
    table.InsertsInertly mask number (lexeme :: lexemes) ↔
      mask.Inert (table.rewriteLexeme lexeme) (table.rewrittenText (mask.maskedFrom number lexemes)) ∧
        table.InsertsInertly mask number lexemes := by
  cases lexeme with
  | literal quoted => simp [Lexeme.literal?] at plain
  | comment content => rfl
  | word content => rfl
  | other c => rfl

theorem insertsInertly_of_inert {table : Table} {mask : Mask} {number : Nat} {lexemes : List Lexeme}
    (inert : ∀ lexeme ∈ lexemes, lexeme.literal? = none → ∀ behind,
      mask.Inert (table.rewriteLexeme lexeme) behind) : table.InsertsInertly mask number lexemes := by
  induction lexemes generalizing number with
  | nil => trivial
  | cons lexeme lexemes inductionHypothesis =>
      have others (later : Nat) : table.InsertsInertly mask later lexemes :=
        inductionHypothesis fun other member => inert other (List.mem_cons_of_mem lexeme member)
      by_cases plain : lexeme.literal? = none
      · exact (insertsInertly_cons_iff plain).mpr ⟨inert lexeme List.mem_cons_self plain _, others number⟩
      · cases lexeme with
        | literal quoted => exact others (number + 1)
        | comment content => exact absurd rfl plain
        | word content => exact absurd rfl plain
        | other c => exact absurd rfl plain

section Identifiers

variable {table : Table} (identifiers : ∀ word ∈ table.keywords, word.isIdentifier = true)

include identifiers

theorem unmask_eq_rewrittenText_iff {mask : Mask} (separator : isIdentifierChar mask.marker = false)
    (quoted : ∀ literal ∈ mask.literals, ∃ quote rest, literal = quote :: rest ∧ quote ≠ mask.marker)
    {number : Nat} {lexemes : List Lexeme}
    (numbered : mask.literals.drop number = lexemes.filterMap Lexeme.literal?) :
    mask.unmask (table.rewrittenText (mask.maskedFrom number lexemes)) = table.rewrittenText lexemes ↔
      table.InsertsInertly mask number lexemes := by
  induction lexemes generalizing number with
  | nil => simp [Mask.maskedFrom, rewrittenText, Mask.unmask, InsertsInertly]
  | cons lexeme others inductionHypothesis =>
      by_cases plain : lexeme.literal? = none
      · have othersNumbered : mask.literals.drop number = others.filterMap Lexeme.literal? := by
          rw [numbered, List.filterMap_cons, plain]
        rw [insertsInertly_cons_iff plain, ← inductionHypothesis othersNumbered,
          Mask.maskedFrom_of_ne_literal mask number others plain]
        show mask.unmask (table.rewriteLexeme lexeme ++ table.rewrittenText (mask.maskedFrom number others)) =
          table.rewriteLexeme lexeme ++ table.rewrittenText others ↔ _
        constructor
        · intro kept
          have inert := Mask.inert_of_isPrefix_unmask quoted (kept ▸ List.prefix_append ..)
          rw [Mask.unmask_append_of_inert inert] at kept
          exact ⟨inert, List.append_cancel_left kept⟩
        · intro inert
          rw [Mask.unmask_append_of_inert inert.1, inert.2]
      · obtain ⟨content, rfl⟩ : ∃ content, lexeme = .literal content := by
          cases lexeme <;> simp_all [Lexeme.literal?]
        have listed : mask.literals.drop number = content :: others.filterMap Lexeme.literal? := numbered
        have othersNumbered : mask.literals.drop (number + 1) = others.filterMap Lexeme.literal? := by
          rw [← List.drop_drop, listed]
          rfl
        rw [rewrittenText, Mask.unmask_flatMap_literal identifiers separator listed, rewrittenText_literal,
          List.append_cancel_left_eq]
        exact inductionHypothesis othersNumbered

end Identifiers

theorem exists_quote_of_mem_literals {code literal : Text} (member : literal ∈ (Mask.ofCode code).literals) :
    ∃ quote rest, literal = quote :: rest ∧ quote ≠ (Mask.ofCode code).marker := by
  obtain ⟨fragment, inFragments, isLiteral⟩ := List.mem_filterMap.mp member
  cases fragment with
  | plain c => simp [Fragment.literal?] at isLiteral
  | literal quoted =>
      obtain rfl := Option.some.inj isLiteral
      obtain ⟨quote, rest, rfl, isQuote⟩ := Fragment.isQuote_of_mem_ofCode inFragments
      refine ⟨quote, rest, rfl, ?_⟩
      intro isMarker
      have noMarker : ¬Mask.IsMarker quote := by
        obtain rfl | rfl := (isQuote_iff quote).mp isQuote
        · decide
        · decide
      exact noMarker (isMarker ▸ Mask.isMarker_marker_ofCode code)

theorem inert_rewriteLexeme {table : Table} {code : Text}
    (spare : ∃ marker, Mask.IsMarker marker ∧ marker ∉ code)
    (clean : ∀ word, .word word ∈ Lexeme.ofFragments (Fragment.ofCode code) →
      (Mask.ofCode code).marker ∉ table.equivalent word)
    {lexeme : Lexeme} (member : lexeme ∈ Lexeme.ofFragments (Fragment.ofCode code)) (behind : Text) :
    (Mask.ofCode code).Inert (table.rewriteLexeme lexeme) behind := by
  apply Mask.inert_of_not_mem
  have absent : (Mask.ofCode code).marker ∉ lexeme.text := by
    intro inText
    have inCode := List.mem_flatMap_of_mem member inText
    rw [Lexeme.flatMap_text_ofFragments, Fragment.flatMap_text_ofCode] at inCode
    exact Mask.marker_ofCode_not_mem spare inCode
  cases lexeme with
  | word content => exact clean content member
  | comment content => exact absent
  | literal quoted => exact absent
  | other c => exact absent

/-- Replacing rewrites the lexemes of the code one by one exactly if what it inserts is inert. That is
so if there are no placeholders, and if no inserted text holds their marker. -/
theorem replaceInCode_eq_rewrittenText_iff {read? : Text → Option Pattern} {rules : List Rule} {table : Table}
    (accepted : ofRules read? rules = .ok table) (code : Text) :
    (table.replaceInCode code = table.rewrittenText (Lexeme.ofFragments (Fragment.ofCode code)) ↔
      table.InsertsInertly (Mask.ofCode code) 0 (Lexeme.ofFragments (Fragment.ofCode code))) ∧
    ((Mask.ofCode code).literals = [] ∨
        ((∃ marker, Mask.IsMarker marker ∧ marker ∉ code) ∧
          ∀ word, .word word ∈ Lexeme.ofFragments (Fragment.ofCode code) →
            (Mask.ofCode code).marker ∉ table.equivalent word) →
      table.replaceInCode code = table.rewrittenText (Lexeme.ofFragments (Fragment.ofCode code))) := by
  have identifiers := (wellFormed_of_ofRules accepted).identifiers
  have numbered : (Mask.ofCode code).literals.drop 0 =
      (Lexeme.ofFragments (Fragment.ofCode code)).filterMap Lexeme.literal? := by
    rw [List.drop_zero, Lexeme.filterMap_literal?_ofFragments]
    rfl
  have exactly : table.replaceInCode code =
        table.rewrittenText (Lexeme.ofFragments (Fragment.ofCode code)) ↔
      table.InsertsInertly (Mask.ofCode code) 0 (Lexeme.ofFragments (Fragment.ofCode code)) := by
    rw [replaceInCode, replaceWords_eq identifiers, Mask.ofText_text_ofCode]
    exact unmask_eq_rewrittenText_iff identifiers (Mask.isIdentifierChar_marker_ofCode code)
      (fun _ member => exists_quote_of_mem_literals member) numbered
  refine ⟨exactly, ?_⟩
  intro harmless
  apply exactly.mpr
  apply insertsInertly_of_inert
  intro lexeme member _ behind
  obtain noLiterals | ⟨spare, clean⟩ := harmless
  · exact fun _ right _ => Mask.takeLiteral?_of_no_literals noLiterals (right ++ behind)
  · exact inert_rewriteLexeme spare clean member behind

/-- A rule whose equivalent looks like a placeholder. -/
def placeholderRule : Rule where
  keyword := "fun".toList
  equivalent := "\uE0000\uE000".toList
  role := .plain
  pattern := none

/-- The table of that rule. -/
def placeholderTable : Table where
  rows := [{ keyword := "fun".toList, equivalent := "\uE0000\uE000".toList, role := .plain, context := none }]

/-- The marker of code that holds the first private-use character is another one, so an equivalent with
that character in it is kept. -/
theorem placeholderTable_keeps_equivalent_beside_its_marker :
    ofRules Pattern.read? [placeholderRule] = .ok placeholderTable ∧
      placeholderTable.replaceInCode "\uE000 fun \"x\"".toList =
        "\uE000 \uE0000\uE000 \"x\"".toList := by
  have accepted : ofRules Pattern.read? [placeholderRule] = .ok placeholderTable :=
    eq_ok_of_toOption (by decide +kernel)
  have lexemes : Lexeme.ofFragments (Fragment.ofCode "\uE000 fun \"x\"".toList) =
      [.other '\uE000', .other ' ', .word "fun".toList, .other ' ', .literal "\"x\"".toList] := by
    decide +kernel
  have marker : (Mask.ofCode "\uE000 fun \"x\"".toList).marker = '\uE001' := by decide +kernel
  have clean : ∀ word, .word word ∈ Lexeme.ofFragments (Fragment.ofCode "\uE000 fun \"x\"".toList) →
      (Mask.ofCode "\uE000 fun \"x\"".toList).marker ∉ placeholderTable.equivalent word := by
    intro word member
    rw [lexemes] at member
    obtain rfl : word = "fun".toList := by simpa using member
    rw [marker]
    decide
  have kept := (replaceInCode_eq_rewrittenText_iff accepted "\uE000 fun \"x\"".toList).2
    (.inr ⟨⟨'\uE001', by decide, by decide⟩, clean⟩)
  refine ⟨accepted, ?_⟩
  rw [kept, lexemes]
  decide

/-- In other code the first literal takes the place of the equivalent. -/
theorem placeholderTable_takes_equivalent_for_placeholder :
    ofRules Pattern.read? [placeholderRule] = .ok placeholderTable ∧
      placeholderTable.replaceInCode "fun \"x\"".toList = "\"x\" \"x\"".toList ∧
      placeholderTable.rewrittenText (Lexeme.ofFragments (Fragment.ofCode "fun \"x\"".toList)) =
        "\uE0000\uE000 \"x\"".toList := by
  refine ⟨eq_ok_of_toOption ?_, ?_, ?_⟩
  · decide +kernel
  · decide +kernel
  · decide +kernel

end Table

end Dialect
