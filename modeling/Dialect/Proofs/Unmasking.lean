import Dialect.Proofs.Insertion
import Dialect.Proofs.Segmentation

/-!
# Putting literals back into masked code

The marker of the placeholders does not occur in the code, unless the code holds every private-use
character of the basic plane and the marker of last resort as well. Then a marker of the code can be
taken for the start of a placeholder. Main statement: the literals are put back in their places exactly
if there is no such false placeholder (`Mask.unmask_text_ofCode_eq_iff`).
-/

namespace Dialect

namespace Fragment

/-- The masked text of a fragment starts with the marker. -/
def OpensWith (marker : Char) : Fragment → Prop
  | .plain c => c = marker
  | .literal _ => True

theorem ofCode_plain_append {plain : Text} (noQuotes : ∀ c ∈ plain, isQuote c = false)
    (rest : Text) : ofCode (plain ++ rest) = plain.map .plain ++ ofCode rest := by
  induction plain with
  | nil => rfl
  | cons c others inductionHypothesis =>
      have notQuote := noQuotes c List.mem_cons_self
      rw [List.cons_append, ofCode_of_unclosed (Text.literal?_cons_of_not_isQuote _ notQuote),
        inductionHypothesis fun d member => noQuotes d (List.mem_cons_of_mem c member)]
      rfl

end Fragment

namespace Mask

/-! ## False placeholders -/

/-- Fragments that read like a placeholder without its first marker: they start with the number of a
literal, and then comes a marker or a literal, whose own placeholder starts with one. -/
def EndsPlaceholder (mask : Mask) (fragments : List Fragment) : Prop :=
  ∃ numeral number next others, fragments = numeral.map .plain ++ next :: others ∧
    readNumber? numeral = some number ∧ number < mask.literals.length ∧ next.OpensWith mask.marker

/-- No marker outside of literals has the rest of a placeholder behind it. -/
def NoFalsePlaceholder (mask : Mask) (fragments : List Fragment) : Prop :=
  ∀ left right, fragments = left ++ .plain mask.marker :: right → ¬mask.EndsPlaceholder right

theorem not_mem_of_readNumber? {marker : Char} (isMarker : IsMarker marker) {numeral : Text}
    {number : Nat} (read : readNumber? numeral = some number) : marker ∉ numeral := by
  have notDigit : marker.isDigit = false := by
    cases digit : marker.isDigit with
    | false => rfl
    | true =>
        have identifier := isIdentifierChar_of_isDigit digit
        rw [isIdentifierChar_of_isMarker isMarker] at identifier
        exact absurd identifier (by decide)
  have notInDigits {digits : Text} {value : Nat} (readDigits : Text.readDecimal? digits = some value) :
      marker ∉ digits := by
    intro member
    rw [Text.readDecimal?, Option.ite_none_right_eq_some] at readDigits
    have digit := List.all_eq_true.mp readDigits.1.2 marker member
    rw [notDigit] at digit
    exact absurd digit (by decide)
  rw [readNumber?.eq_def] at read
  split at read
  next digits =>
    intro member
    rcases List.mem_cons.mp member with isPlus | inDigits
    · rw [isPlus] at isMarker
      exact absurd isMarker (by decide)
    · exact notInDigits read inDigits
  next => exact notInDigits read

theorem takeLiteral?_ne_none_iff (mask : Mask) (text : Text) :
    mask.takeLiteral? text ≠ none ↔
      ∃ front number rest, text = front ++ mask.marker :: rest ∧ mask.marker ∉ front ∧
        readNumber? front = some number ∧ number < mask.literals.length := by
  constructor
  · intro found
    have inText : mask.marker ∈ text :=
      Decidable.byContradiction fun absent => found (takeLiteral?_of_not_mem absent)
    obtain ⟨front, rest, rfl, absent⟩ := List.eq_append_cons_of_mem inText
    rw [takeLiteral?_append_marker absent, ne_eq, Option.map_eq_none_iff, ← ne_eq,
      Option.ne_none_iff_exists'] at found
    obtain ⟨literal, numbered⟩ := found
    obtain ⟨number, read, isLiteral⟩ := Option.bind_eq_some_iff.mp numbered
    obtain ⟨bound, _⟩ := List.getElem?_eq_some_iff.mp isLiteral
    exact ⟨front, number, rest, rfl, absent, read, bound⟩
  · rintro ⟨front, number, rest, rfl, absent, read, bound⟩
    rw [takeLiteral?_append_marker absent, read, Option.bind_some, List.getElem?_eq_getElem bound]
    simp

/-- The first marker of a masked text comes from the first fragment that opens with it. -/
theorem textFrom_eq_append_marker_iff {mask : Mask} {front : Text} (absent : mask.marker ∉ front)
    (number : Nat) (fragments : List Fragment) :
    (∃ rest, mask.textFrom number fragments = front ++ mask.marker :: rest) ↔
      ∃ next others, fragments = front.map .plain ++ next :: others ∧
        next.OpensWith mask.marker := by
  constructor
  · rintro ⟨rest, masked⟩
    induction front generalizing fragments with
    | nil =>
        cases fragments with
        | nil => simp [textFrom] at masked
        | cons next others =>
            refine ⟨next, others, rfl, ?_⟩
            cases next with
            | plain c => exact (List.cons.inj masked).1
            | literal quoted => trivial
    | cons c front inductionHypothesis =>
        have different : mask.marker ≠ c := fun equality => absent (equality ▸ List.mem_cons_self)
        cases fragments with
        | nil => simp [textFrom] at masked
        | cons first fragments =>
            cases first with
            | literal quoted => exact absurd (List.cons.inj masked).1 different
            | plain d =>
                obtain ⟨rfl, maskedBehind⟩ := List.cons.inj masked
                obtain ⟨next, others, rfl, opens⟩ := inductionHypothesis
                  (fun member => absent (List.mem_cons_of_mem d member)) fragments maskedBehind
                exact ⟨next, others, rfl, opens⟩
  · rintro ⟨next, others, rfl, opens⟩
    rw [textFrom_append, textFrom_plain, countLiterals_plains, Nat.add_zero]
    cases next with
    | plain c => exact ⟨_, by rw [textFrom, show c = mask.marker from opens]⟩
    | literal quoted => exact ⟨_, by rw [textFrom, placeholder, List.cons_append, List.cons_append]⟩

/-- A marker starts a placeholder exactly if the fragments behind it end one. -/
theorem takeLiteral?_textFrom_ne_none_iff {mask : Mask} (isMarker : IsMarker mask.marker) (number : Nat)
    (fragments : List Fragment) :
    mask.takeLiteral? (mask.textFrom number fragments) ≠ none ↔ mask.EndsPlaceholder fragments := by
  rw [takeLiteral?_ne_none_iff]
  constructor
  · rintro ⟨front, read, rest, masked, absent, isRead, bound⟩
    obtain ⟨next, others, split, opens⟩ :=
      (textFrom_eq_append_marker_iff absent number fragments).mp ⟨rest, masked⟩
    exact ⟨front, read, next, others, split, isRead, bound, opens⟩
  · rintro ⟨numeral, read, next, others, split, isRead, bound, opens⟩
    have absent := not_mem_of_readNumber? isMarker isRead
    obtain ⟨rest, masked⟩ :=
      (textFrom_eq_append_marker_iff absent number fragments).mpr ⟨next, others, split, opens⟩
    exact ⟨numeral, read, rest, masked, absent, isRead, bound⟩

/-! ## Unmasking -/

theorem noFalsePlaceholder_plain_iff {mask : Mask} {c : Char} {fragments : List Fragment} :
    mask.NoFalsePlaceholder (.plain c :: fragments) ↔
      (c = mask.marker → ¬mask.EndsPlaceholder fragments) ∧ mask.NoFalsePlaceholder fragments := by
  constructor
  · intro honest
    constructor
    · rintro rfl
      exact honest [] fragments rfl
    · intro left right split
      exact honest (.plain c :: left) right (by rw [split, List.cons_append])
  · rintro ⟨first, others⟩ left right split
    cases left with
    | nil =>
        obtain ⟨isMarker, rfl⟩ := List.cons.inj split
        exact first (Fragment.plain.inj isMarker)
    | cons _ left => exact others left right (List.cons.inj split).2

theorem noFalsePlaceholder_literal_iff {mask : Mask} {quoted : Text} {fragments : List Fragment} :
    mask.NoFalsePlaceholder (.literal quoted :: fragments) ↔ mask.NoFalsePlaceholder fragments := by
  constructor
  · intro honest left right split
    exact honest (.literal quoted :: left) right (by rw [split, List.cons_append])
  · intro honest left right split
    cases left with
    | nil => simp at split
    | cons _ left => exact honest left right (List.cons.inj split).2

/-- The induction is on the fragments; what it carries along is which literals are still to come. -/
theorem unmask_textFrom_eq_iff {mask : Mask} (isMarker : IsMarker mask.marker)
    (quoted : ∀ literal ∈ mask.literals, ∃ quote rest, literal = quote :: rest ∧ quote ≠ mask.marker)
    {number : Nat} {fragments : List Fragment}
    (numbered : mask.literals.drop number = fragments.filterMap Fragment.literal?) :
    mask.unmask (mask.textFrom number fragments) = fragments.flatMap Fragment.text ↔
      mask.NoFalsePlaceholder fragments := by
  induction fragments generalizing number with
  | nil => simp [textFrom, unmask, NoFalsePlaceholder]
  | cons fragment others inductionHypothesis =>
      cases fragment with
      | plain c =>
          have inert_iff : mask.Inert [c] (mask.textFrom number others) ↔
              (c = mask.marker → ¬mask.EndsPlaceholder others) := by
            rw [← takeLiteral?_textFrom_ne_none_iff isMarker number, Classical.not_not, inert_cons_iff]
            exact and_iff_left (inert_of_not_mem List.not_mem_nil _)
          rw [noFalsePlaceholder_plain_iff, ← inert_iff, ← inductionHypothesis numbered]
          show mask.unmask ([c] ++ mask.textFrom number others) =
            [c] ++ others.flatMap Fragment.text ↔ _
          constructor
          · intro kept
            have inert := inert_of_isPrefix_unmask quoted (kept ▸ List.prefix_append ..)
            rw [unmask_append_of_inert inert] at kept
            exact ⟨inert, List.append_cancel_left kept⟩
          · rintro ⟨inert, restored⟩
            rw [unmask_append_of_inert inert, restored]
      | literal content =>
          have listed : mask.literals.drop number = content :: others.filterMap Fragment.literal? := numbered
          have isLiteral : mask.literals[number]? = some content := by
            rw [← List.head?_drop, listed, List.head?_cons]
          have othersNumbered : mask.literals.drop (number + 1) = others.filterMap Fragment.literal? := by
            rw [← List.drop_drop, listed]
            rfl
          rw [noFalsePlaceholder_literal_iff, ← inductionHypothesis othersNumbered, textFrom,
            unmask_placeholder (isIdentifierChar_of_isMarker isMarker) isLiteral, List.flatMap_cons]
          exact List.append_right_inj content

/-- Unmasking the masked text gives the code back exactly if no marker of the code is taken for the start of
a placeholder. That is so if the code leaves any marker unused, and if it has no literals. -/
theorem unmask_text_ofCode_eq_iff (code : Text) :
    ((ofCode code).unmask (ofCode code).text = code ↔
      (ofCode code).NoFalsePlaceholder (Fragment.ofCode code)) ∧
    ((∃ marker, IsMarker marker ∧ marker ∉ code) ∨ (ofCode code).literals = [] →
      (ofCode code).unmask (ofCode code).text = code) := by
  have restored_iff := @unmask_textFrom_eq_iff (ofCode code) (isMarker_marker_ofCode code)
    (fun _ member => Table.exists_quote_of_mem_literals member) 0 (Fragment.ofCode code) rfl
  rw [Fragment.flatMap_text_ofCode] at restored_iff
  refine ⟨restored_iff, ?_⟩
  intro harmless
  apply restored_iff.mpr
  intro left right split
  obtain spare | noLiterals := harmless
  · have isFragment : .plain (ofCode code).marker ∈ Fragment.ofCode code := by
      rw [split]
      exact List.mem_append_right left List.mem_cons_self
    have inCode := List.mem_flatMap_of_mem (f := Fragment.text) isFragment List.mem_cons_self
    rw [Fragment.flatMap_text_ofCode] at inCode
    exact absurd inCode (marker_ofCode_not_mem spare)
  · rintro ⟨_, _, _, _, _, _, bound, _⟩
    rw [noLiterals] at bound
    exact absurd bound (Nat.not_lt_zero _)

/-- A marker and a number before a literal change nothing while another marker is left. -/
theorem unmask_text_ofCode_beside_spare_marker :
    '\uE001' ∉ "\uE000\uFFFD0\"a\"".toList ∧
      (ofCode "\uE000\uFFFD0\"a\"".toList).unmask (ofCode "\uE000\uFFFD0\"a\"".toList).text =
        "\uE000\uFFFD0\"a\"".toList :=
  ⟨by decide, (unmask_text_ofCode_eq_iff "\uE000\uFFFD0\"a\"".toList).2
    (.inl ⟨'\uE001', by decide, by decide⟩)⟩

/-! ## Code that leaves no marker unused -/

/-- The literal takes the place of the marker and the number before it, and what is left of its own
placeholder stays. -/
theorem unmask_text_of_false_placeholder {mask : Mask} (isMarker : IsMarker mask.marker)
    {plain quoted : Text} (absent : mask.marker ∉ plain)
    (fragments : mask.fragments =
      plain.map .plain ++ [.plain mask.marker, .plain '0', .literal quoted]) :
    mask.unmask mask.text = plain ++ (quoted ++ ['0', mask.marker]) := by
  have zero : Text.decimal 0 = ['0'] := by
    rw [Text.decimal]
    rfl
  have masked : mask.text =
      plain ++ mask.marker :: (Text.decimal 0 ++ mask.marker :: (['0'] ++ [mask.marker])) := by
    rw [text, fragments, textFrom_append, textFrom_plain, countLiterals_plains]
    simp [textFrom, placeholder, zero]
  have isLiteral : mask.literals[0]? = some quoted := by
    have noLiterals : (plain.map Fragment.plain).filterMap Fragment.literal? = [] :=
      List.eq_nil_of_length_eq_zero (countLiterals_plains plain)
    rw [literals, fragments, List.filterMap_append, noLiterals]
    rfl
  have separator := isIdentifierChar_of_isMarker isMarker
  have markerIsNotZero : mask.marker ∉ ['0'] := zero ▸ not_mem_of_readNumber? isMarker (readNumber?_decimal 0)
  rw [masked, unmask_append_of_not_mem mask _ absent,
    unmask_marker_of_eq_some (takeLiteral?_decimal separator isLiteral _),
    unmask_append_of_not_mem mask _ markerIsNotZero,
    unmask_marker_of_eq_none (takeLiteral?_of_not_mem List.not_mem_nil), unmask]
  rfl

/-- Code with every marker, and behind the last one the number of its literal. -/
def crowdedCode : Text := markers ++ [fallbackMarker, '0', '"', '"']

theorem marker_ofCode_crowdedCode : (ofCode crowdedCode).marker = fallbackMarker := by
  have allUsed : markers.find? (fun marker => !crowdedCode.contains marker) = none := by
    rw [List.find?_eq_none]
    intro marker member
    have used : marker ∈ crowdedCode := List.mem_append_left _ member
    simp [used]
  rw [ofCode, markerFor, allUsed]
  rfl

theorem isQuote_of_isMarker {c : Char} (isMarker : IsMarker c) : isQuote c = false := by
  cases quote : isQuote c with
  | false => rfl
  | true =>
      rcases (isQuote_iff c).mp quote with rfl | rfl
      · exact absurd isMarker (by decide)
      · exact absurd isMarker (by decide)

theorem fragments_ofCode_crowdedCode :
    (ofCode crowdedCode).fragments =
      markers.map .plain ++ [.plain fallbackMarker, .plain '0', .literal ['"', '"']] := by
  have noQuotes : ∀ c ∈ markers, isQuote c = false := fun c member =>
    isQuote_of_isMarker (.inl ((mem_markers_iff c).mp member))
  have behind : Fragment.ofCode [fallbackMarker, '0', '"', '"'] =
      [.plain fallbackMarker, .plain '0', .literal ['"', '"']] := by decide +kernel
  rw [ofCode, crowdedCode, Fragment.ofCode_plain_append noQuotes, behind]

theorem crowdedCode_not_restored :
    (ofCode crowdedCode).unmask (ofCode crowdedCode).text =
        markers ++ ['"', '"', '0', fallbackMarker] ∧
      (ofCode crowdedCode).unmask (ofCode crowdedCode).text ≠ crowdedCode := by
  have isMarker := isMarker_marker_ofCode crowdedCode
  have fragments := fragments_ofCode_crowdedCode
  have absent : fallbackMarker ∉ markers := by
    intro member
    have bounds := (mem_markers_iff fallbackMarker).mp member
    rw [toNat_fallbackMarker] at bounds
    omega
  rw [← marker_ofCode_crowdedCode] at fragments absent ⊢
  have restored := unmask_text_of_false_placeholder isMarker absent fragments
  refine ⟨restored, ?_⟩
  rw [restored, crowdedCode]
  intro same
  have quoteFirst : '"' = fallbackMarker := (List.cons.inj (List.append_cancel_left same)).1
  exact absurd quoteFirst (by decide)

end Mask

end Dialect
