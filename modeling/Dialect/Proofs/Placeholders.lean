import Dialect.Proofs.MaskedBytes

/-!
# Placeholders in any arrangement

Literals are put back into any text, not only into the masked code. The placeholders may stand in any
order, more than once, side by side and next to digits. Main statement: each of them gives way to the
literal with its number, the texts between them stay as they are, and what has been put back is not looked
at again (`Mask.unmask_arranged`).
-/

namespace Dialect

/-- The numeral of a number is the list of its digits to the base ten. -/
theorem Text.decimal_eq_toDigits (n : Nat) : decimal n = Nat.toDigits 10 n := by
  have sameDigit : ∀ m < 10, digit m = Nat.digitChar m := by decide
  fun_induction decimal n with
  | case1 n small => rw [Nat.toDigits_of_lt_base small, sameDigit n small]
  | case2 n large inductionHypothesis =>
      rw [Nat.toDigits_of_base_le (by decide) (Nat.le_of_not_lt large), inductionHypothesis,
        sameDigit _ (Nat.mod_lt n (by decide))]

namespace Mask

/-- A text, and then placeholders with known numbers and a text behind each. -/
def arranged (mask : Mask) (first : Text) (parts : List (Fin mask.literals.length × Text)) : Text :=
  first ++ parts.flatMap fun (number, text) =>
    mask.marker :: (Nat.toDigits 10 number ++ mask.marker :: text)

/-- The same with the literals in the places of the placeholders. -/
def filledIn (mask : Mask) (first : Text) (parts : List (Fin mask.literals.length × Text)) : Text :=
  first ++ parts.flatMap fun (number, text) => mask.literals.get number ++ text

section Placeholders

variable {mask : Mask}

theorem arranged_cons (first text : Text) (number : Fin mask.literals.length)
    (parts : List (Fin mask.literals.length × Text)) :
    mask.arranged first ((number, text) :: parts) =
      first ++ mask.marker :: (Nat.toDigits 10 number ++ mask.marker :: mask.arranged text parts) := by
  simp [arranged]

theorem filledIn_cons (first text : Text) (number : Fin mask.literals.length)
    (parts : List (Fin mask.literals.length × Text)) :
    mask.filledIn first ((number, text) :: parts) =
      first ++ (mask.literals.get number ++ mask.filledIn text parts) := by
  simp [filledIn]

/-- The first placeholder gives way to its literal, and only what stands behind it is read on. -/
theorem unmask_known_placeholder (separator : isIdentifierChar mask.marker = false) {first : Text}
    (unmarked : mask.marker ∉ first) (number : Fin mask.literals.length) (rest : Text) :
    mask.unmask (first ++ mask.marker :: (Nat.toDigits 10 number ++ mask.marker :: rest)) =
      first ++ (mask.literals.get number ++ mask.unmask rest) := by
  have numbered : mask.literals[number.val]? = some (mask.literals.get number) :=
    List.getElem?_eq_getElem number.isLt
  rw [unmask_append_of_not_mem mask _ unmarked, ← Text.decimal_eq_toDigits,
    unmask_marker_of_eq_some (takeLiteral?_decimal separator numbered rest)]

/-- The induction is on the placeholders; the text behind one of them is the first text of the others. -/
theorem unmask_arranged_eq_filledIn (separator : isIdentifierChar mask.marker = false) {first : Text}
    {parts : List (Fin mask.literals.length × Text)} (unmarkedFirst : mask.marker ∉ first)
    (unmarked : ∀ part ∈ parts, mask.marker ∉ part.2) :
    mask.unmask (mask.arranged first parts) = mask.filledIn first parts := by
  induction parts generalizing first with
  | nil =>
      have kept := unmask_append_of_not_mem mask [] unmarkedFirst
      rwa [unmask] at kept
  | cons part parts inductionHypothesis =>
      obtain ⟨number, text⟩ := part
      obtain ⟨unmarkedText, unmarkedOthers⟩ := List.forall_mem_cons.mp unmarked
      rw [arranged_cons, unmask_known_placeholder separator unmarkedFirst,
        inductionHypothesis unmarkedText unmarkedOthers, filledIn_cons]

end Placeholders

/-- Whatever the code, its literals are put in the places of their placeholders in any arrangement, also
by slices. Behind a placeholder reading goes on with what follows it, so even a literal that holds markers
is left as it is. -/
theorem unmask_arranged (code first : Text)
    (parts : List (Fin (ofCode code).literals.length × Text))
    (unmarkedFirst : (ofCode code).marker ∉ first)
    (unmarked : ∀ part ∈ parts, (ofCode code).marker ∉ part.2) :
    (ofCode code).unmask ((ofCode code).arranged first parts) = (ofCode code).filledIn first parts ∧
    (ofCode code).masked.restore? ((ofCode code).arranged first parts) =
      some ((ofCode code).filledIn first parts) ∧
    ∀ (number : Fin (ofCode code).literals.length) (rest : Text),
      (ofCode code).unmask (first ++ (ofCode code).marker ::
          (Nat.toDigits 10 number ++ (ofCode code).marker :: rest)) =
        first ++ ((ofCode code).literals.get number ++ (ofCode code).unmask rest) := by
  have separator := isIdentifierChar_marker_ofCode code
  have restored := unmask_arranged_eq_filledIn separator unmarkedFirst unmarked
  refine ⟨restored, ?_, unmask_known_placeholder separator unmarkedFirst⟩
  rw [Masked.restore?_eq, restored]

/-- Code with eleven literals. -/
def elevenLiterals : Text := "'a''b''c''d''e''f''g''h''i''j''k'".toList

theorem literals_elevenLiterals : (ofCode elevenLiterals).literals =
    ["'a'", "'b'", "'c'", "'d'", "'e'", "'f'", "'g'", "'h'", "'i'", "'j'", "'k'"].map String.toList := by
  decide +kernel

/-- A number with two digits is read as one also beside other digits and beside the next placeholder. -/
theorem unmask_arranged_beside_digits :
    (ofCode elevenLiterals).marker = '\uE000' ∧
      (∀ text ∈ ["1".toList, "0".toList, [], "2".toList], '\uE000' ∉ text) ∧
      (ofCode elevenLiterals).unmask "1\uE00010\uE0000\uE0000\uE000\uE00010\uE0002".toList =
        "1'k'0'a''k'2".toList := by
  have marker : (ofCode elevenLiterals).marker = '\uE000' := by decide +kernel
  have count : (ofCode elevenLiterals).literals.length = 11 := congrArg List.length literals_elevenLiterals
  let last : Fin (ofCode elevenLiterals).literals.length := ⟨10, by omega⟩
  let zero : Fin (ofCode elevenLiterals).literals.length := ⟨0, by omega⟩
  have restored := (unmask_arranged elevenLiterals "1".toList
    [(last, "0".toList), (zero, []), (last, "2".toList)] (by rw [marker]; decide)
    (by rw [marker]; simp)).1
  have ten : Nat.toDigits 10 10 = ['1', '0'] := by decide
  refine ⟨marker, by decide, ?_⟩
  simpa [arranged, filledIn, marker, ten, last, zero, literals_elevenLiterals] using restored

end Mask

end Dialect
