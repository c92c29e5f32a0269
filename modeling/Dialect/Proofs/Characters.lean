import Dialect.Text.Blank
import Dialect.Text.Literal
import Dialect.Text.Word

/-!
# Classes of characters

Word characters, identifier characters, digits and quotes by their code points, and what these classes
have to do with each other.
-/

namespace Dialect

theorem isDigit_iff_toNat (c : Char) : c.isDigit = true ↔ 48 ≤ c.toNat ∧ c.toNat ≤ 57 := by
  simp only [Char.isDigit, Bool.and_eq_true, decide_eq_true_eq, ge_iff_le, UInt32.le_iff_toNat_le]
  exact Iff.rfl

theorem isAlpha_iff_toNat (c : Char) :
    c.isAlpha = true ↔ (65 ≤ c.toNat ∧ c.toNat ≤ 90) ∨ (97 ≤ c.toNat ∧ c.toNat ≤ 122) := by
  have ranges : c.isAlpha = (decide (c.val ≥ 65 ∧ c.val ≤ 90) ||
      (decide (c.val ≥ 97) && decide (c.val ≤ 122))) := rfl
  simp only [ranges, Bool.or_eq_true, Bool.and_eq_true, decide_eq_true_eq, ge_iff_le,
    UInt32.le_iff_toNat_le]
  exact Iff.rfl

theorem eq_iff_toNat {c d : Char} : c = d ↔ c.toNat = d.toNat := Char.toNat_inj.symm

theorem isWordChar_iff_toNat (c : Char) :
    isWordChar c = true ↔
      (48 ≤ c.toNat ∧ c.toNat ≤ 57) ∨ (65 ≤ c.toNat ∧ c.toNat ≤ 90) ∨
        c.toNat = 95 ∨ (97 ≤ c.toNat ∧ c.toNat ≤ 122) := by
  have underscore : c = '_' ↔ c.toNat = 95 := eq_iff_toNat
  simp only [isWordChar, Char.isAlphanum, Bool.or_eq_true, beq_iff_eq, isAlpha_iff_toNat,
    isDigit_iff_toNat, underscore]
  omega

theorem isIdentifierChar_iff_toNat (c : Char) :
    isIdentifierChar c = true ↔
      c.toNat = 36 ∨ (48 ≤ c.toNat ∧ c.toNat ≤ 57) ∨ (65 ≤ c.toNat ∧ c.toNat ≤ 90) ∨
        c.toNat = 95 ∨ (97 ≤ c.toNat ∧ c.toNat ≤ 122) := by
  have dollar : c = '$' ↔ c.toNat = 36 := eq_iff_toNat
  simp only [isIdentifierChar, Bool.or_eq_true, beq_iff_eq, isWordChar_iff_toNat, dollar]
  omega

theorem isIdentifierChar_of_isWordChar {c : Char} (wordChar : isWordChar c = true) :
    isIdentifierChar c = true := by
  rw [isIdentifierChar, wordChar, Bool.true_or]

theorem isIdentifierChar_of_isDigit {c : Char} (digit : c.isDigit = true) :
    isIdentifierChar c = true := by
  rw [isDigit_iff_toNat] at digit
  rw [isIdentifierChar_iff_toNat]
  exact Or.inr (Or.inl digit)

theorem isQuote_iff (c : Char) : isQuote c = true ↔ c = '"' ∨ c = '\'' := by
  simp [isQuote]

theorem ne_of_isQuote {c quote : Char} (isQuoteChar : isQuote quote = true)
    (notQuote : isQuote c = false) : c ≠ quote := by
  intro equality
  rw [equality, isQuoteChar] at notQuote
  exact absurd notQuote (by decide)

theorem isQuote_eq_false_of_identifier {c : Char} (identifier : isIdentifierChar c = true) :
    isQuote c = false := by
  cases quote : isQuote c with
  | false => rfl
  | true =>
      rcases (isQuote_iff c).mp quote with equality | equality
      · exact absurd (equality ▸ identifier) (by decide)
      · exact absurd (equality ▸ identifier) (by decide)

theorem isBlank_of_isQuote {c : Char} (quote : isQuote c = true) : isBlank c = false := by
  rcases (isQuote_iff c).mp quote with equality | equality
  · rw [equality]
    decide
  · rw [equality]
    decide

/-- Where no identifier goes on, no word goes on either. -/
theorem any_isWordChar_eq_false {neighbour : Option Char}
    (separated : neighbour.any isIdentifierChar = false) : neighbour.any isWordChar = false := by
  cases neighbour with
  | none => rfl
  | some c =>
      rw [Option.any_some] at separated ⊢
      rw [isIdentifierChar, Bool.or_eq_false_iff] at separated
      exact separated.1

namespace Text

theorem standsBetween_iff (before after : Option Char) :
    standsBetween before after = true ↔
      before.any isIdentifierChar = false ∧ after.any isIdentifierChar = false := by
  simp [standsBetween]

/-! ## Identifiers -/

theorem ne_nil_of_isIdentifier {word : Text} (identifier : word.isIdentifier = true) :
    word ≠ [] := by
  intro equality
  rw [equality] at identifier
  simp [isIdentifier] at identifier

private theorem isIdentifier_head {first : Char} {rest : Text}
    (identifier : isIdentifier (first :: rest) = true) : first.isAlpha = true ∨ first = '_' := by
  have letter : (first.isAlpha || first == '_') = true := by
    rw [isIdentifier, Bool.and_eq_true] at identifier
    exact identifier.1
  simpa using letter

theorem isWordChar_of_isIdentifier {word : Text} (identifier : word.isIdentifier = true) :
    ∀ c ∈ word, isWordChar c = true := by
  cases word with
  | nil => simp [isIdentifier] at identifier
  | cons first rest =>
      intro c member
      rcases List.mem_cons.mp member with equality | inRest
      · rw [equality]
        rcases isIdentifier_head identifier with alpha | underscore
        · rw [isWordChar, Char.isAlphanum, alpha, Bool.true_or, Bool.true_or]
        · rw [underscore]
          decide
      · rw [isIdentifier, Bool.and_eq_true, List.all_eq_true] at identifier
        exact identifier.2 c inRest

theorem isIdentifierChar_of_isIdentifier {word : Text} (identifier : word.isIdentifier = true) :
    ∀ c ∈ word, isIdentifierChar c = true :=
  fun c member => isIdentifierChar_of_isWordChar (isWordChar_of_isIdentifier identifier c member)

/-- An identifier is no number. -/
theorem isDigit_head_of_isIdentifier {first : Char} {rest : Text}
    (identifier : isIdentifier (first :: rest) = true) : first.isDigit = false := by
  cases digit : first.isDigit with
  | false => rfl
  | true =>
      rw [isDigit_iff_toNat] at digit
      rcases isIdentifier_head identifier with alpha | underscore
      · rw [isAlpha_iff_toNat] at alpha
        omega
      · rw [underscore] at digit
        exact absurd digit (by decide)

/-! ## Blank characters -/

theorem toNat_of_isBlank {c : Char} (blank : isBlank c = true) :
    c.toNat ≤ 0x20 ∨ (0x80 ≤ c.toNat ∧ c.toNat ≤ 0x3000) := by
  rw [isBlank, List.any_eq_true] at blank
  obtain ⟨range, member, bounds⟩ := blank
  rw [Bool.and_eq_true, decide_eq_true_eq, decide_eq_true_eq] at bounds
  simp only [blankRanges, List.mem_cons, List.not_mem_nil, or_false] at member
  rcases member with rfl | rfl | rfl | rfl | rfl | rfl | rfl | rfl | rfl | rfl <;>
    simp only at bounds <;> omega

theorem isIdentifierChar_of_isBlank {c : Char} (blank : isBlank c = true) :
    isIdentifierChar c = false := by
  have bounds := toNat_of_isBlank blank
  cases identifier : isIdentifierChar c with
  | false => rfl
  | true =>
      rw [isIdentifierChar_iff_toNat] at identifier
      omega

theorem isBlank_of_identifier {c : Char} (identifier : isIdentifierChar c = true) :
    isBlank c = false := by
  cases blank : isBlank c with
  | false => rfl
  | true =>
      rw [isIdentifierChar_of_isBlank blank] at identifier
      exact absurd identifier (by decide)

theorem allBlank_of_mem {text : Text} {c : Char} (member : c ∈ text) (visible : isBlank c = false) :
    text.allBlank = false := by
  rw [allBlank, List.all_eq_false]
  exact ⟨c, member, by simp [visible]⟩

/-- Trimming drops blank characters only. -/
theorem mem_trim {text : Text} {c : Char} (member : c ∈ text) (visible : isBlank c = false) :
    c ∈ text.trim := by
  have kept {source : Text} (inSource : c ∈ source) : c ∈ source.dropWhile isBlank := by
    rw [← List.takeWhile_append_dropWhile (p := isBlank) (l := source)] at inSource
    rcases List.mem_append.mp inSource with dropped | inRest
    · have blank := List.all_eq_true.mp List.all_takeWhile c dropped
      rw [visible] at blank
      exact absurd blank (by decide)
    · exact inRest
  rw [trim, trimEnd, List.mem_reverse]
  exact kept (List.mem_reverse.mpr (kept member))

/-! ## Runs -/

theorem isIdentifierChar_of_mem_run {c : Char} (rest : Text)
    (identifier : isIdentifierChar c = true) :
    ∀ d ∈ c :: rest.takeWhile isIdentifierChar, isIdentifierChar d = true := by
  intro d member
  rcases List.mem_cons.mp member with equality | inRun
  · rw [equality]
    exact identifier
  · exact List.all_eq_true.mp List.all_takeWhile d inRun

theorem run_append (c : Char) (rest : Text) :
    (c :: rest.takeWhile isIdentifierChar) ++ rest.dropWhile isIdentifierChar = c :: rest := by
  rw [List.cons_append, List.takeWhile_append_dropWhile]

/-- Behind a maximal run the text goes on with something else. -/
theorem any_head?_dropWhile (text : Text) :
    (text.dropWhile isIdentifierChar).head?.any isIdentifierChar = false := by
  induction text with
  | nil => rfl
  | cons c rest inductionHypothesis =>
      rw [List.dropWhile_cons]
      split
      · exact inductionHypothesis
      · next separator => simpa using separator

theorem takeWhile_eq_nil {accepted : Char → Bool} {text : Text}
    (separated : text.head?.any accepted = false) : text.takeWhile accepted = [] := by
  cases text with
  | nil => rfl
  | cons c rest =>
      have rejected : accepted c = false := by simpa using separated
      rw [List.takeWhile_cons, rejected]
      rfl

theorem dropWhile_eq_self {accepted : Char → Bool} {text : Text}
    (separated : text.head?.any accepted = false) : text.dropWhile accepted = text := by
  cases text with
  | nil => rfl
  | cons c rest =>
      have rejected : accepted c = false := by simpa using separated
      rw [List.dropWhile_cons, rejected]
      rfl

theorem takeWhile_run {accepted : Char → Bool} {run rest : Text}
    (inside : ∀ c ∈ run, accepted c = true) (separated : rest.head?.any accepted = false) :
    (run ++ rest).takeWhile accepted = run := by
  rw [List.takeWhile_append_of_pos inside, takeWhile_eq_nil separated, List.append_nil]

end Text

end Dialect
