import Dialect.Proofs.Keywords

/-!
# Masks

The marker of a mask belongs to no word, so a masked text has the lexemes of the code with each literal
replaced by the three lexemes of a placeholder. Main statements: putting the literals back after the
keywords have been replaced gives the code with its lexemes rewritten (`Table.replaceInCode_eq`), and
the keywords of a masked text stand at the places of the keywords of the code
(`Mask.keywordPlaces_text`).
-/

namespace Dialect

namespace Text

/-! ## Decimal numerals -/

theorem toNat_digit {n : Nat} (small : n < 10) : (digit n).toNat = 48 + n := by
  have all : ∀ m < 10, (digit m).toNat = 48 + m := by decide
  exact all n small

theorem isDigit_digit {n : Nat} (small : n < 10) : (digit n).isDigit = true := by
  rw [isDigit_iff_toNat, toNat_digit small]
  omega

theorem isDigit_of_mem_decimal (n : Nat) : ∀ c ∈ decimal n, c.isDigit = true := by
  intro c member
  fun_induction decimal n with
  | case1 n small =>
      rw [List.mem_singleton.mp member]
      exact isDigit_digit small
  | case2 n large inductionHypothesis =>
      rcases List.mem_append.mp member with inFront | last
      · exact inductionHypothesis inFront
      · rw [List.mem_singleton.mp last]
        exact isDigit_digit (Nat.mod_lt n (by decide))

theorem decimal_ne_nil (n : Nat) : decimal n ≠ [] := by
  rw [decimal]
  split <;> simp

theorem decimalValue_append_digit (front : Text) {n : Nat} (small : n < 10) :
    decimalValue (front ++ [digit n]) = 10 * decimalValue front + n := by
  rw [decimalValue, List.foldl_append]
  have value : (digit n).toNat - '0'.toNat = n := by
    rw [toNat_digit small]
    exact Nat.add_sub_cancel_left 48 n
  simp only [List.foldl_cons, List.foldl_nil, value]
  rfl

theorem decimalValue_decimal (n : Nat) : decimalValue (decimal n) = n := by
  fun_induction decimal n with
  | case1 n small =>
      have value := decimalValue_append_digit [] small
      simpa [decimalValue] using value
  | case2 n large inductionHypothesis =>
      rw [decimalValue_append_digit _ (Nat.mod_lt n (by decide)), inductionHypothesis]
      exact Nat.div_add_mod n 10

theorem readDecimal?_decimal (n : Nat) : readDecimal? (decimal n) = some n := by
  have digits : (decimal n).all Char.isDigit = true :=
    List.all_eq_true.mpr (isDigit_of_mem_decimal n)
  rw [readDecimal?, if_pos ⟨decimal_ne_nil n, digits⟩, decimalValue_decimal]

theorem isIdentifierChar_of_mem_decimal (n : Nat) : ∀ c ∈ decimal n, isIdentifierChar c = true :=
  fun c member => isIdentifierChar_of_isDigit (isDigit_of_mem_decimal n c member)

/-- No numeral is an identifier. -/
theorem isIdentifier_decimal (n : Nat) : (decimal n).isIdentifier = false := by
  cases identifier : (decimal n).isIdentifier with
  | false => rfl
  | true =>
      obtain ⟨c, rest, equality⟩ := List.exists_cons_of_ne_nil (decimal_ne_nil n)
      have digit := isDigit_of_mem_decimal n c (by rw [equality]; exact List.mem_cons_self)
      rw [equality] at identifier
      rw [isDigit_head_of_isIdentifier identifier] at digit
      exact absurd digit (by decide)

end Text

namespace Mask

/-! ## Markers -/

/-- The characters that can mark placeholders: the private-use area of the basic plane and the marker
of last resort. -/
def IsMarker (c : Char) : Prop := (0xE000 ≤ c.toNat ∧ c.toNat ≤ 0xF8FF) ∨ c.toNat = 0xFFFD

instance (c : Char) : Decidable (IsMarker c) := inferInstanceAs (Decidable (_ ∨ _))

private theorem toNat_ofNat {n : Nat} (least : 0xE000 ≤ n) (greatest : n ≤ 0xFFFD) :
    (Char.ofNat n).toNat = n := by
  have valid : n.isValidChar := Or.inr ⟨by omega, by omega⟩
  rw [Char.ofNat, dif_pos valid]
  rfl

theorem mem_markers_iff (c : Char) : c ∈ markers ↔ 0xE000 ≤ c.toNat ∧ c.toNat ≤ 0xF8FF := by
  rw [markers, List.mem_map]
  constructor
  · intro listed
    obtain ⟨index, inRange, rfl⟩ := listed
    have bound : index < 0xF8FF - 0xE000 + 1 := List.mem_range.mp inRange
    rw [toNat_ofNat (by omega) (by omega)]
    omega
  · intro bounds
    refine ⟨c.toNat - 0xE000, List.mem_range.mpr (by omega), ?_⟩
    rw [Nat.add_sub_cancel' bounds.1, Char.ofNat_toNat]

theorem toNat_fallbackMarker : fallbackMarker.toNat = 0xFFFD := by decide

theorem isMarker_markerFor (code : Text) : IsMarker (markerFor code) := by
  rw [markerFor]
  cases found : markers.find? fun marker => !code.contains marker with
  | none => exact Or.inr toNat_fallbackMarker
  | some marker => exact Or.inl ((mem_markers_iff marker).mp (List.mem_of_find?_eq_some found))

/-- The marker does not occur in code that leaves any marker unused. -/
theorem markerFor_not_mem {code : Text} (spare : ∃ marker, IsMarker marker ∧ marker ∉ code) :
    markerFor code ∉ code := by
  rw [markerFor]
  cases found : markers.find? fun marker => !code.contains marker with
  | some marker => simpa using List.find?_some found
  | none =>
      obtain ⟨marker, isMarker, absent⟩ := spare
      have allUsed : ∀ other ∈ markers, other ∈ code := by simpa using List.find?_eq_none.mp found
      rcases isMarker with bounds | last
      · exact absurd (allUsed marker ((mem_markers_iff marker).mpr bounds)) absent
      · have same : fallbackMarker = marker := eq_iff_toNat.mpr (toNat_fallbackMarker.trans last.symm)
        rw [Option.getD_none, same]
        exact absent

theorem isIdentifierChar_of_isMarker {c : Char} (isMarker : IsMarker c) :
    isIdentifierChar c = false := by
  cases identifier : isIdentifierChar c with
  | false => rfl
  | true =>
      rw [isIdentifierChar_iff_toNat] at identifier
      rcases isMarker with bounds | last
      · omega
      · omega

/-! ## The lexemes of a masked text -/

/-- The lexemes with a placeholder for each literal, the first of which has the given number. -/
def maskedFrom (mask : Mask) : Nat → List Lexeme → List Lexeme
  | _, [] => []
  | number, .literal _ :: lexemes =>
      .other mask.marker :: .word (Text.decimal number) :: .other mask.marker ::
        maskedFrom mask (number + 1) lexemes
  | number, lexeme :: lexemes => lexeme :: maskedFrom mask number lexemes

theorem maskedFrom_of_ne_literal (mask : Mask) (number : Nat) {lexeme : Lexeme}
    (lexemes : List Lexeme) (plain : lexeme.literal? = none) :
    mask.maskedFrom number (lexeme :: lexemes) = lexeme :: mask.maskedFrom number lexemes := by
  cases lexeme <;> simp_all [maskedFrom, Lexeme.literal?]

theorem maskedFrom_consChar (mask : Mask) (number : Nat) (c : Char) (lexemes : List Lexeme) :
    mask.maskedFrom number (Lexeme.consChar c lexemes) =
      Lexeme.consChar c (mask.maskedFrom number lexemes) := by
  cases identifier : isIdentifierChar c with
  | false =>
      rw [Lexeme.consChar_of_not_identifier _ identifier,
        Lexeme.consChar_of_not_identifier _ identifier, maskedFrom]
      simp
  | true =>
      cases lexemes with
      | nil => simp [Lexeme.consChar, maskedFrom, identifier]
      | cons first others => cases first <;> simp [Lexeme.consChar, maskedFrom, identifier]

theorem placeholder_append (mask : Mask) (number : Nat) (rest : Text) :
    mask.placeholder number ++ rest =
      mask.marker :: (Text.decimal number ++ mask.marker :: rest) := by
  simp [placeholder]

theorem ofText_textFrom {mask : Mask} (separator : isIdentifierChar mask.marker = false)
    (number : Nat) (fragments : List Fragment) :
    Lexeme.ofText (mask.textFrom number fragments) =
      mask.maskedFrom number (Lexeme.ofFragments fragments) := by
  induction fragments generalizing number with
  | nil => rfl
  | cons fragment others inductionHypothesis =>
      cases fragment with
      | plain c =>
          rw [textFrom, Lexeme.ofText_cons, inductionHypothesis, Lexeme.ofFragments,
            maskedFrom_consChar]
      | literal quoted =>
          have numeral : Lexeme.ofText (Text.decimal number ++
              mask.marker :: mask.textFrom (number + 1) others) =
              .word (Text.decimal number) ::
                Lexeme.ofText (mask.marker :: mask.textFrom (number + 1) others) :=
            Lexeme.ofText_run (Text.decimal_ne_nil number)
              (Text.isIdentifierChar_of_mem_decimal number) (by simpa using separator)
          rw [textFrom, placeholder_append, Lexeme.ofText_cons_separator _ separator, numeral,
            Lexeme.ofText_cons_separator _ separator, inductionHypothesis, Lexeme.ofFragments,
            maskedFrom]

theorem isMarker_marker_ofCode (code : Text) : IsMarker (ofCode code).marker := by
  simp only [ofCode, isMarker_markerFor code]

theorem marker_ofCode_not_mem {code : Text} (spare : ∃ marker, IsMarker marker ∧ marker ∉ code) :
    (ofCode code).marker ∉ code := by
  simp only [ofCode, markerFor_not_mem spare, not_false_eq_true]

theorem isIdentifierChar_marker_ofCode (code : Text) :
    isIdentifierChar (ofCode code).marker = false :=
  isIdentifierChar_of_isMarker (isMarker_marker_ofCode code)

theorem ofText_text_ofCode (code : Text) :
    Lexeme.ofText (ofCode code).text =
      (ofCode code).maskedFrom 0 (Lexeme.ofFragments (Fragment.ofCode code)) :=
  ofText_textFrom (isIdentifierChar_marker_ofCode code) 0 (Fragment.ofCode code)

/-! ## Putting the literals back -/

theorem unmask_append_of_not_mem (mask : Mask) {left : Text} (right : Text)
    (absent : mask.marker ∉ left) : mask.unmask (left ++ right) = left ++ mask.unmask right := by
  induction left with
  | nil => rfl
  | cons c rest inductionHypothesis =>
      have different : c ≠ mask.marker := fun equality => absent (equality ▸ List.mem_cons_self)
      have restAbsent : mask.marker ∉ rest := fun member => absent (List.mem_cons_of_mem c member)
      rw [List.cons_append, unmask, if_neg different, inductionHypothesis restAbsent,
        List.cons_append]

theorem readNumber?_decimal (number : Nat) : readNumber? (Text.decimal number) = some number := by
  rw [readNumber?.eq_def]
  split
  next digits equality =>
    have plus := Text.isDigit_of_mem_decimal number '+' (by rw [equality]; exact List.mem_cons_self)
    exact absurd plus (by decide)
  next => exact Text.readDecimal?_decimal number

theorem takeLiteral?_of_not_mem {mask : Mask} {text : Text} (absent : mask.marker ∉ text) :
    mask.takeLiteral? text = none := by
  have others : ∀ c ∈ text, (c != mask.marker) = true := by
    intro c member
    rw [bne_iff_ne]
    exact fun equality => absent (equality ▸ member)
  have nothing : text.dropWhile (· != mask.marker) = [] := by
    rw [← List.append_nil text, List.dropWhile_append_of_pos others, List.dropWhile_nil]
  rw [takeLiteral?, nothing]

/-- The number in a placeholder stands before the next marker. -/
theorem takeLiteral?_append_marker {mask : Mask} {front : Text} (absent : mask.marker ∉ front)
    (rest : Text) :
    mask.takeLiteral? (front ++ mask.marker :: rest) =
      ((readNumber? front).bind fun number => mask.literals[number]?).map fun literal =>
        (literal, rest) := by
  have others : ∀ c ∈ front, (c != mask.marker) = true := by
    intro c member
    rw [bne_iff_ne]
    exact fun equality => absent (equality ▸ member)
  have stops : (mask.marker != mask.marker) = false := bne_self_eq_false _
  have taken : (front ++ mask.marker :: rest).takeWhile (· != mask.marker) = front := by
    rw [List.takeWhile_append_of_pos others, List.takeWhile_cons, stops, if_neg (by decide),
      List.append_nil]
  have dropped : (front ++ mask.marker :: rest).dropWhile (· != mask.marker) =
      mask.marker :: rest := by
    rw [List.dropWhile_append_of_pos others, List.dropWhile_cons, stops, if_neg (by decide)]
  rw [takeLiteral?, dropped, taken]
  cases readNumber? front with
  | none => rfl
  | some number => rfl

theorem of_takeLiteral? {mask : Mask} {text literal after : Text}
    (found : mask.takeLiteral? text = some (literal, after)) :
    literal ∈ mask.literals ∧ ∀ c ∈ after, c ∈ text := by
  by_cases inText : mask.marker ∈ text
  · obtain ⟨front, rest, rfl, notBefore⟩ := List.eq_append_cons_of_mem inText
    rw [takeLiteral?_append_marker notBefore] at found
    obtain ⟨quoted, numbered, equality⟩ := Option.map_eq_some_iff.mp found
    obtain ⟨rfl, rfl⟩ := Prod.mk.inj equality
    obtain ⟨number, _, isLiteral⟩ := Option.bind_eq_some_iff.mp numbered
    exact ⟨List.mem_of_getElem? isLiteral, fun c member => by simp [member]⟩
  · simp [takeLiteral?_of_not_mem inText] at found

theorem takeLiteral?_of_no_literals {mask : Mask} (noLiterals : mask.literals = []) (text : Text) :
    mask.takeLiteral? text = none := by
  cases found : mask.takeLiteral? text with
  | none => rfl
  | some taken =>
      have isLiteral := (of_takeLiteral? found).1
      rw [noLiterals] at isLiteral
      exact absurd isLiteral List.not_mem_nil

theorem takeLiteral?_decimal {mask : Mask} (separator : isIdentifierChar mask.marker = false)
    {number : Nat} {literal : Text} (numbered : mask.literals[number]? = some literal)
    (rest : Text) :
    mask.takeLiteral? (Text.decimal number ++ mask.marker :: rest) = some (literal, rest) := by
  have absent : mask.marker ∉ Text.decimal number := by
    intro member
    rw [Text.isIdentifierChar_of_mem_decimal number _ member] at separator
    exact absurd separator (by decide)
  rw [takeLiteral?_append_marker absent, readNumber?_decimal, Option.bind_some, numbered,
    Option.map_some]

theorem unmask_marker_of_eq_none {mask : Mask} {text : Text} (notFound : mask.takeLiteral? text = none) :
    mask.unmask (mask.marker :: text) = mask.marker :: mask.unmask text := by
  rw [unmask, if_pos rfl]
  split
  next => rfl
  next found => simp [notFound] at found

theorem unmask_marker_of_eq_some {mask : Mask} {text literal after : Text}
    (found : mask.takeLiteral? text = some (literal, after)) :
    mask.unmask (mask.marker :: text) = literal ++ mask.unmask after := by
  rw [unmask, if_pos rfl]
  split
  next nothing => simp [found] at nothing
  next other others equality =>
    rw [found] at equality
    obtain ⟨rfl, rfl⟩ := Prod.mk.inj (Option.some.inj equality)
    rfl

theorem unmask_of_no_literals {mask : Mask} (noLiterals : mask.literals = []) (text : Text) :
    mask.unmask text = text := by
  fun_induction unmask mask text with
  | case1 => rfl
  | case2 rest notFound inductionHypothesis => rw [inductionHypothesis]
  | case3 rest literal after found inductionHypothesis =>
      simp [takeLiteral?_of_no_literals noLiterals] at found
  | case4 c rest different inductionHypothesis => rw [inductionHypothesis]

theorem unmask_placeholder {mask : Mask} (separator : isIdentifierChar mask.marker = false)
    {number : Nat} {literal : Text} (numbered : mask.literals[number]? = some literal)
    (rest : Text) :
    mask.unmask (mask.placeholder number ++ rest) = literal ++ mask.unmask rest := by
  rw [placeholder_append, unmask_marker_of_eq_some (takeLiteral?_decimal separator numbered rest)]

section Rewriting

variable {table : Table} (identifiers : ∀ word ∈ table.keywords, word.isIdentifier = true)

include identifiers

theorem decimal_not_mem_keywords (number : Nat) : Text.decimal number ∉ table.keywords := by
  intro member
  have identifier := identifiers _ member
  rw [Text.isIdentifier_decimal] at identifier
  exact absurd identifier (by decide)

theorem unmask_flatMap_literal {mask : Mask} (separator : isIdentifierChar mask.marker = false)
    {number : Nat} {quoted : Text} {more : List Text}
    (numbered : mask.literals.drop number = quoted :: more) (others : List Lexeme) :
    mask.unmask ((mask.maskedFrom number (.literal quoted :: others)).flatMap table.rewriteLexeme) =
      quoted ++ mask.unmask ((mask.maskedFrom (number + 1) others).flatMap table.rewriteLexeme) := by
  have here : mask.literals[number]? = some quoted := by
    have first : (mask.literals.drop number)[0]? = some quoted := by rw [numbered]; rfl
    rwa [List.getElem?_drop, Nat.add_zero] at first
  -- The number of a placeholder is a word to the search, but no identifier, so no keyword.
  have kept : table.equivalent (Text.decimal number) = Text.decimal number :=
    Table.equivalent_of_not_mem (decimal_not_mem_keywords identifiers number)
  have rewritten : (mask.maskedFrom number (.literal quoted :: others)).flatMap
        table.rewriteLexeme =
      mask.placeholder number ++
        (mask.maskedFrom (number + 1) others).flatMap table.rewriteLexeme := by
    simp [maskedFrom, Table.rewriteLexeme, kept, placeholder]
  rw [rewritten, unmask_placeholder separator here]

/-- Placeholders are rewritten to themselves, and then to their literals. -/
theorem unmask_flatMap_rewriteLexeme {mask : Mask} (separator : isIdentifierChar mask.marker = false)
    {number : Nat} {lexemes : List Lexeme}
    (numbered : mask.literals.drop number = lexemes.filterMap Lexeme.literal?)
    (clean : ∀ lexeme ∈ lexemes, lexeme.literal? = none →
      mask.marker ∉ table.rewriteLexeme lexeme) :
    mask.unmask ((mask.maskedFrom number lexemes).flatMap table.rewriteLexeme) =
      lexemes.flatMap table.rewriteLexeme := by
  induction lexemes generalizing number with
  | nil => simp [maskedFrom, unmask]
  | cons lexeme others inductionHypothesis =>
      have othersClean : ∀ other ∈ others, other.literal? = none →
          mask.marker ∉ table.rewriteLexeme other :=
        fun other member => clean other (List.mem_cons_of_mem lexeme member)
      by_cases plain : lexeme.literal? = none
      · have othersNumbered : mask.literals.drop number = others.filterMap Lexeme.literal? := by
          rw [numbered, List.filterMap_cons, plain]
        rw [maskedFrom_of_ne_literal mask number others plain, List.flatMap_cons, List.flatMap_cons,
          mask.unmask_append_of_not_mem _ (clean lexeme List.mem_cons_self plain),
          inductionHypothesis othersNumbered othersClean]
      · obtain ⟨quoted, rfl⟩ : ∃ quoted, lexeme = .literal quoted := by
          cases lexeme <;> simp_all [Lexeme.literal?]
        have listed : mask.literals.drop number = quoted :: others.filterMap Lexeme.literal? := numbered
        have othersNumbered : mask.literals.drop (number + 1) = others.filterMap Lexeme.literal? := by
          rw [← List.drop_drop, listed]
          rfl
        rw [unmask_flatMap_literal identifiers separator listed,
          inductionHypothesis othersNumbered othersClean]
        rfl

end Rewriting

end Mask

namespace Table

/-- No equivalent holds a character that could be taken for a marker. -/
def MarkerFree (table : Table) : Prop :=
  ∀ row ∈ table.rows, ∀ c ∈ row.equivalent, ¬Mask.IsMarker c

/-- Replacing keywords in masked code rewrites the lexemes of the code one by one. -/
theorem replaceInCode_eq {table : Table}
    (identifiers : ∀ word ∈ table.keywords, word.isIdentifier = true)
    (markerFree : table.MarkerFree) {code : Text}
    (spare : ∃ marker, Mask.IsMarker marker ∧ marker ∉ code) :
    table.replaceInCode code =
      (Lexeme.ofFragments (Fragment.ofCode code)).flatMap table.rewriteLexeme := by
  have separator := Mask.isIdentifierChar_marker_ofCode code
  have isMarker := Mask.isMarker_marker_ofCode code
  have absent := Mask.marker_ofCode_not_mem spare
  have joined : (Lexeme.ofFragments (Fragment.ofCode code)).flatMap Lexeme.text = code := by
    rw [Lexeme.flatMap_text_ofFragments, Fragment.flatMap_text_ofCode]
  rw [replaceInCode, replaceWords_eq identifiers, Mask.ofText_text_ofCode]
  apply Mask.unmask_flatMap_rewriteLexeme identifiers separator
  · rw [List.drop_zero, Lexeme.filterMap_literal?_ofFragments]
    rfl
  · intro lexeme member _
    apply not_mem_rewriteLexeme fun row inRows inEquivalent =>
      markerFree row inRows _ inEquivalent isMarker
    intro inText
    have inCode := List.mem_flatMap_of_mem member inText
    rw [joined] at inCode
    exact absent inCode

end Table

namespace Mask

/-! ## Positions -/

/-- The number of literals among fragments. -/
def countLiterals (fragments : List Fragment) : Nat := (fragments.filterMap Fragment.literal?).length

@[simp]
theorem countLiterals_plain (c : Char) (fragments : List Fragment) :
    countLiterals (.plain c :: fragments) = countLiterals fragments := rfl

@[simp]
theorem countLiterals_literal (quoted : Text) (fragments : List Fragment) :
    countLiterals (.literal quoted :: fragments) = countLiterals fragments + 1 := rfl

theorem textFrom_append (mask : Mask) (number : Nat) (left right : List Fragment) :
    mask.textFrom number (left ++ right) =
      mask.textFrom number left ++ mask.textFrom (number + countLiterals left) right := by
  induction left generalizing number with
  | nil => rfl
  | cons fragment others inductionHypothesis =>
      cases fragment with
      | plain c => simp [textFrom, inductionHypothesis]
      | literal quoted =>
          simp [textFrom, inductionHypothesis, Nat.add_assoc, Nat.add_comm 1]

theorem endsFrom_append (mask : Mask) (number inText inCode : Nat) (left right : List Fragment) :
    mask.endsFrom number inText inCode (left ++ right) =
      mask.endsFrom number inText inCode left ++
        mask.endsFrom (number + countLiterals left)
          (inText + Text.bytes (mask.textFrom number left))
          (inCode + Text.bytes (left.flatMap Fragment.text)) right := by
  induction left generalizing number inText inCode with
  | nil => rfl
  | cons fragment others inductionHypothesis =>
      cases fragment with
      | plain c =>
          simp [endsFrom, inductionHypothesis, textFrom, Fragment.text, Nat.add_assoc]
      | literal quoted =>
          simp [endsFrom, inductionHypothesis, textFrom, Fragment.text, Nat.add_assoc, Nat.add_comm 1]

theorem bytes_placeholder_pos (mask : Mask) (number : Nat) :
    0 < Text.bytes (mask.placeholder number) := by
  rw [placeholder, List.cons_append, Text.bytes_cons]
  exact Nat.add_pos_left mask.marker.utf8Size_pos _

theorem lt_of_mem_endsFrom {mask : Mask} {number inText inCode : Nat} {fragments : List Fragment}
    {textEnd codeEnd : Nat}
    (member : (textEnd, codeEnd) ∈ mask.endsFrom number inText inCode fragments) :
    inText < textEnd := by
  induction fragments generalizing number inText inCode with
  | nil => simp [endsFrom] at member
  | cons fragment others inductionHypothesis =>
      cases fragment with
      | plain c =>
          have later := inductionHypothesis member
          omega
      | literal quoted =>
          have size := mask.bytes_placeholder_pos number
          rcases List.mem_cons.mp member with first | inOthers
          · obtain ⟨rfl, rfl⟩ := Prod.mk.inj first
            omega
          · have later := inductionHypothesis inOthers
            omega

theorem le_of_mem_endsFrom {mask : Mask} {number inText inCode : Nat} {fragments : List Fragment}
    {textEnd codeEnd : Nat}
    (member : (textEnd, codeEnd) ∈ mask.endsFrom number inText inCode fragments) :
    textEnd ≤ inText + Text.bytes (mask.textFrom number fragments) := by
  induction fragments generalizing number inText inCode with
  | nil => simp [endsFrom] at member
  | cons fragment others inductionHypothesis =>
      cases fragment with
      | plain c =>
          have later := inductionHypothesis member
          rw [textFrom, Text.bytes_cons]
          omega
      | literal quoted =>
          rw [textFrom, Text.bytes_append]
          rcases List.mem_cons.mp member with first | inOthers
          · obtain ⟨rfl, rfl⟩ := Prod.mk.inj first
            omega
          · have later := inductionHypothesis inOthers
            omega

/-- The two offsets keep their distance behind the last placeholder. The induction carries along the
last end before the fragments. -/
theorem distance_of_last_end (mask : Mask) (number inText inCode : Nat) (fragments : List Fragment)
    (previous : Nat × Nat) (even : inText + previous.2 = inCode + previous.1) :
    let last := (mask.endsFrom number inText inCode fragments).getLast?.getD previous
    inText + Text.bytes (mask.textFrom number fragments) + last.2 =
      inCode + Text.bytes (fragments.flatMap Fragment.text) + last.1 := by
  induction fragments generalizing number inText inCode previous with
  | nil => simpa [endsFrom, textFrom] using even
  | cons fragment others inductionHypothesis =>
      cases fragment with
      | plain c =>
          have later := inductionHypothesis number (inText + c.utf8Size) (inCode + c.utf8Size)
            previous (by omega)
          simp only [endsFrom, textFrom, List.flatMap_cons, Fragment.text, Text.bytes_cons,
            Text.bytes_append, Text.bytes_nil] at later ⊢
          omega
      | literal quoted =>
          have later := inductionHypothesis (number + 1)
            (inText + Text.bytes (mask.placeholder number)) (inCode + quoted.bytes)
            (inText + Text.bytes (mask.placeholder number), inCode + quoted.bytes) (Nat.add_comm _ _)
          simp only [endsFrom, textFrom, List.flatMap_cons, Fragment.text, Text.bytes_append,
            List.getLast?_cons, Option.getD_some] at later ⊢
          omega

/-- Up to the next end of a placeholder, offsets behind some first fragments of the masked text are mapped
to offsets as far behind them in the code. -/
theorem offsetInCode_add_of_append {mask : Mask} {left right : List Fragment} {index : Nat}
    (split : mask.fragments = left ++ right)
    (before : ∀ place ∈ mask.endsFrom (countLiterals left) (Text.bytes (mask.textFrom 0 left))
      (Text.bytes (left.flatMap Fragment.text)) right,
        Text.bytes (mask.textFrom 0 left) + index < place.1) :
    mask.offsetInCode (Text.bytes (mask.textFrom 0 left) + index) =
      Text.bytes (left.flatMap Fragment.text) + index := by
  have distance := mask.distance_of_last_end 0 0 0 left (0, 0) rfl
  have reached : ∀ place ∈ mask.endsFrom 0 0 0 left,
      place.1 ≤ Text.bytes (mask.textFrom 0 left) + index := by
    intro place member
    have bound := le_of_mem_endsFrom member
    omega
  have beyond : ∀ place ∈ (mask.endsFrom (0 + countLiterals left)
      (0 + Text.bytes (mask.textFrom 0 left)) (0 + Text.bytes (left.flatMap Fragment.text))
        right).reverse, ¬decide (place.1 ≤ Text.bytes (mask.textFrom 0 left) + index) = true := by
    intro place member
    rw [Nat.zero_add, Nat.zero_add, Nat.zero_add, List.mem_reverse] at member
    rw [decide_eq_true_eq]
    exact Nat.not_le_of_lt (before place member)
  rw [offsetInCode, ends, split, endsFrom_append, List.reverse_append, List.find?_append,
    List.find?_eq_none.mpr beyond, Option.none_or]
  cases last : (mask.endsFrom 0 0 0 left).getLast? with
  | none =>
      have noEnds : mask.endsFrom 0 0 0 left = [] := List.getLast?_eq_none_iff.mp last
      simp only [noEnds, List.reverse_nil, List.find?_nil, List.getLast?_nil, Option.getD_none]
        at distance ⊢
      omega
  | some place =>
      have member : place ∈ mask.endsFrom 0 0 0 left := List.mem_of_getLast? last
      have first : (mask.endsFrom 0 0 0 left).reverse.find?
          (fun place => decide (place.1 ≤ Text.bytes (mask.textFrom 0 left) + index)) = some place := by
        obtain ⟨others, equality⟩ := List.getLast?_eq_some_iff.mp last
        rw [equality, List.reverse_append, List.reverse_singleton, List.singleton_append,
          List.find?_cons, decide_eq_true (reached place member)]
      have bound := le_of_mem_endsFrom member
      simp only [first, last, Option.getD_some] at distance ⊢
      omega

/-- The offset in the masked text at which some first fragments end is mapped to the offset in the
code at which they end. -/
theorem offsetInCode_of_append {mask : Mask} {left right : List Fragment}
    (split : mask.fragments = left ++ right) :
    mask.offsetInCode (Text.bytes (mask.textFrom 0 left)) =
      Text.bytes (left.flatMap Fragment.text) :=
  @offsetInCode_add_of_append mask left right 0 split fun _ => lt_of_mem_endsFrom

/-- The bytes of a character outside literals are mapped to its bytes in the code. -/
theorem offsetInCode_of_plain {mask : Mask} {left right : List Fragment} {c : Char} {index : Nat}
    (split : mask.fragments = left ++ .plain c :: right) (inside : index < c.utf8Size) :
    mask.offsetInCode (Text.bytes (mask.textFrom 0 left) + index) =
      Text.bytes (left.flatMap Fragment.text) + index := by
  apply offsetInCode_add_of_append split
  intro place member
  have behind : place ∈ mask.endsFrom (countLiterals left)
      (Text.bytes (mask.textFrom 0 left) + c.utf8Size)
      (Text.bytes (left.flatMap Fragment.text) + c.utf8Size) right := member
  have bound := lt_of_mem_endsFrom behind
  omega

theorem textFrom_plain (mask : Mask) (number : Nat) (text : Text) :
    mask.textFrom number (text.map .plain) = text := by
  induction text with
  | nil => rfl
  | cons c rest inductionHypothesis => rw [List.map_cons, textFrom, inductionHypothesis]

theorem countLiterals_append (left right : List Fragment) :
    countLiterals (left ++ right) = countLiterals left + countLiterals right := by
  rw [countLiterals, List.filterMap_append, List.length_append]
  rfl

theorem countLiterals_plains (text : Text) : countLiterals (text.map .plain) = 0 := by
  induction text with
  | nil => rfl
  | cons c rest inductionHypothesis => rw [List.map_cons, countLiterals_plain, inductionHypothesis]

theorem flatMap_text_plains (text : Text) : (text.map Fragment.plain).flatMap Fragment.text = text := by
  rw [List.flatMap_map]
  exact List.flatMap_singleton' text

theorem fragments_of_ne_literal {lexeme : Lexeme} (plain : lexeme.literal? = none) :
    lexeme.fragments = lexeme.text.map .plain := by
  cases lexeme <;> simp_all [Lexeme.fragments, Lexeme.literal?]

section Places

variable {table : Table} (identifiers : ∀ word ∈ table.keywords, word.isIdentifier = true)

include identifiers

/-- The keywords behind some first fragments of a masked text. -/
private theorem keywordPlaces_maskedFrom {mask : Mask} (left : List Fragment)
    (lexemes : List Lexeme) (split : mask.fragments = left ++ lexemes.flatMap Lexeme.fragments) :
    (table.keywordPlaces (Lexeme.located (Text.bytes (mask.textFrom 0 left))
        (mask.maskedFrom (countLiterals left) lexemes))).map (Prod.map mask.offsetInCode id) =
      table.keywordPlaces
        (Lexeme.located (Text.bytes (left.flatMap Fragment.text)) lexemes) := by
  induction lexemes generalizing left with
  | nil => rfl
  | cons lexeme others inductionHypothesis =>
      -- The offset of a lexeme is known from the fragments before it, so they move along.
      have place := offsetInCode_of_append split
      have regrouped : mask.fragments =
          (left ++ lexeme.fragments) ++ others.flatMap Lexeme.fragments := by
        rw [split, List.flatMap_cons, List.append_assoc]
      have later := inductionHypothesis (left ++ lexeme.fragments) regrouped
      rw [textFrom_append, Nat.zero_add, Text.bytes_append, List.flatMap_append,
        Text.bytes_append, countLiterals_append] at later
      by_cases plain : lexeme.literal? = none
      · rw [fragments_of_ne_literal plain, textFrom_plain, countLiterals_plains,
          flatMap_text_plains, Nat.add_zero] at later
        rw [maskedFrom_of_ne_literal mask _ others plain, Lexeme.located, Lexeme.located]
        cases isKeyword : table.keyword? lexeme with
        | none =>
            rw [Table.keywordPlaces_cons_of_none _ _ isKeyword,
              Table.keywordPlaces_cons_of_none _ _ isKeyword, later]
        | some word =>
            rw [Table.keywordPlaces_cons_of_some _ _ isKeyword,
              Table.keywordPlaces_cons_of_some _ _ isKeyword, List.map_cons, later, Prod.map_apply,
              place]
            rfl
      · obtain ⟨quoted, rfl⟩ : ∃ quoted, lexeme = .literal quoted := by
          cases lexeme <;> simp_all [Lexeme.literal?]
        have numeral : table.keyword? (.word (Text.decimal (countLiterals left))) = none :=
          table.keyword?_word_of_not_mem (decimal_not_mem_keywords identifiers _)
        have size : Text.bytes (mask.textFrom (countLiterals left) [.literal quoted]) =
            mask.marker.utf8Size + (Text.decimal (countLiterals left)).bytes +
              mask.marker.utf8Size := by
          simp [textFrom, placeholder, Nat.add_assoc]
        rw [maskedFrom, Lexeme.located, Lexeme.located, Lexeme.located, Lexeme.located,
          Table.keywordPlaces_cons_of_none _ _ rfl, Table.keywordPlaces_cons_of_none _ _ numeral,
          Table.keywordPlaces_cons_of_none _ _ rfl, Table.keywordPlaces_cons_of_none _ _ rfl]
        simp only [Lexeme.fragments, size, countLiterals_literal, List.flatMap_cons,
          List.flatMap_nil, List.append_nil, Fragment.text] at later
        simpa [Nat.add_assoc, countLiterals] using later

/-- The keywords of a masked text stand at the places of the keywords of the code. -/
theorem keywordPlaces_text_ofCode (code : Text) :
    (table.keywordPlaces (Lexeme.located 0 (Lexeme.ofText (ofCode code).text))).map
        (Prod.map (ofCode code).offsetInCode id) =
      table.keywordPlaces
        (Lexeme.located 0 (Lexeme.ofFragments (Fragment.ofCode code))) := by
  rw [ofText_text_ofCode]
  exact keywordPlaces_maskedFrom identifiers []
    (Lexeme.ofFragments (Fragment.ofCode code)) (Lexeme.flatMap_fragments_ofFragments _).symm

end Places

end Mask

/-! ## Blanks in code and in masked text -/

theorem Fragment.isQuote_of_mem_ofCode {code quoted : Text}
    (member : literal quoted ∈ ofCode code) : ∃ c rest, quoted = c :: rest ∧ isQuote c = true := by
  fun_induction ofCode code with
  | case1 => simp at member
  | case2 c rest _ inductionHypothesis => exact inductionHypothesis (by simpa using member)
  | case3 c rest other after found inductionHypothesis =>
      rcases List.mem_cons.mp member with first | later
      · obtain rfl := Fragment.literal.inj first
        obtain ⟨joined, nonempty⟩ := Text.literal?_append found
        obtain ⟨d, body, rfl⟩ := List.exists_cons_of_ne_nil nonempty
        obtain rfl : d = c := (List.cons.inj joined).1
        exact ⟨d, body, rfl, Lexeme.isQuote_of_literal? found⟩
      · exact inductionHypothesis later

namespace Mask

theorem isBlank_of_isMarker {c : Char} (isMarker : IsMarker c) : isBlank c = false := by
  cases blank : isBlank c with
  | false => rfl
  | true =>
      have bounds := Text.toNat_of_isBlank blank
      rcases isMarker with inRange | last
      · omega
      · omega

theorem textFrom_cases (mask : Mask) (number : Nat) (fragments : List Fragment) :
    mask.textFrom number fragments = fragments.flatMap Fragment.text ∨
      (∃ quoted, .literal quoted ∈ fragments) ∧ mask.marker ∈ mask.textFrom number fragments := by
  induction fragments with
  | nil => exact Or.inl rfl
  | cons fragment others inductionHypothesis =>
      cases fragment with
      | literal quoted =>
          refine Or.inr ⟨⟨quoted, List.mem_cons_self⟩, ?_⟩
          rw [textFrom, placeholder_append]
          exact List.mem_cons_self
      | plain c =>
          rcases inductionHypothesis with same | ⟨⟨quoted, inOthers⟩, marked⟩
          · exact Or.inl (congrArg (c :: ·) same)
          · exact Or.inr ⟨⟨quoted, List.mem_cons_of_mem _ inOthers⟩, List.mem_cons_of_mem c marked⟩

/-- Masking changes nothing unless there is a literal, and then there are quotes in the code and
markers in the masked text. -/
theorem text_ofCode_cases (code : Text) :
    (ofCode code).text = code ∨
      (∃ c ∈ code, isQuote c = true) ∧ (ofCode code).marker ∈ (ofCode code).text := by
  have joined := Fragment.flatMap_text_ofCode code
  rcases (ofCode code).textFrom_cases 0 (Fragment.ofCode code) with same | ⟨⟨quoted, member⟩, marked⟩
  · rw [joined] at same
    exact Or.inl same
  · refine Or.inr ⟨?_, marked⟩
    obtain ⟨c, rest, rfl, isQuoteChar⟩ := Fragment.isQuote_of_mem_ofCode member
    have inCode := List.mem_flatMap_of_mem (f := Fragment.text) member List.mem_cons_self
    rw [joined] at inCode
    exact ⟨c, inCode, isQuoteChar⟩

theorem allBlank_text_ofCode (code : Text) : (ofCode code).text.allBlank = code.allBlank := by
  rcases text_ofCode_cases code with same | ⟨⟨c, inCode, isQuoteChar⟩, marked⟩
  · rw [same]
  · rw [Text.allBlank_of_mem inCode (isBlank_of_isQuote isQuoteChar),
      Text.allBlank_of_mem marked (isBlank_of_isMarker (isMarker_marker_ofCode code))]

/-- A closing brace stands alone in the code exactly if it does in the masked text. -/
theorem trim_text_ofCode_eq_brace_iff (code : Text) :
    (ofCode code).text.trim = ['\x7d'] ↔ code.trim = ['\x7d'] := by
  rcases text_ofCode_cases code with same | ⟨⟨c, inCode, isQuoteChar⟩, marked⟩
  · rw [same]
  · have isMarker := isMarker_marker_ofCode code
    constructor
    · intro trimmed
      have inTrimmed := Text.mem_trim marked (isBlank_of_isMarker isMarker)
      rw [trimmed, List.mem_singleton] at inTrimmed
      rw [inTrimmed] at isMarker
      exact absurd isMarker (by decide)
    · intro trimmed
      have inTrimmed := Text.mem_trim inCode (isBlank_of_isQuote isQuoteChar)
      rw [trimmed, List.mem_singleton] at inTrimmed
      rw [inTrimmed] at isQuoteChar
      exact absurd isQuoteChar (by decide)

end Mask

end Dialect
