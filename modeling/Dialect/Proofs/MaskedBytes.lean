import Dialect.Proofs.Masking
import Dialect.Proofs.Scanning

/-!
# Masking by bytes

Code can be masked by one pass over its bytes, with the offset up to which it has been copied, and the
literals can be put back by looking for the marker and cutting around it. Main statements: every slice
that is taken on the way exists, the pass finds the text, the literals and the ends of the mask
(`Masked.ofCode?_eq`), and what is put back is what the mask puts back (`Masked.restore?_eq`).
-/

namespace Dialect

/-- What masking leaves: the masked text, the literals by number, and where each placeholder ends in the
text and in the code. -/
structure Masked where
  marker : Char
  text : Text
  literals : List Text
  ends : List (Nat × Nat)

namespace Mask

/-- What a mask leaves. -/
def masked (mask : Mask) : Masked where
  marker := mask.marker
  text := mask.text
  literals := mask.literals
  ends := mask.ends

@[simp]
theorem masked_marker (mask : Mask) : mask.masked.marker = mask.marker := rfl

@[simp]
theorem masked_text (mask : Mask) : mask.masked.text = mask.text := rfl

@[simp]
theorem masked_literals (mask : Mask) : mask.masked.literals = mask.literals := rfl

end Mask

namespace Masked

/-! ## Masking -/

/-- The next literal is masked: the code before it is copied and a placeholder added. -/
def addLiteral (masked : Masked) (copied literal : Text) (stop : Nat) : Masked :=
  let text := masked.text ++ copied ++
    (masked.marker :: Text.decimal masked.literals.length ++ [masked.marker])
  { marker := masked.marker
    text
    literals := masked.literals ++ [literal]
    ends := masked.ends ++ [(text.bytes, stop)] }

/-- The rest of the code is copied. -/
def addCode (masked : Masked) (copied : Text) : Masked := { masked with text := masked.text ++ copied }

/-- Masks code from an offset on, given the offset up to which it has been copied. -/
def scanFrom? (code : Text) (copied index : Nat) (masked : Masked) : Option Masked :=
  match _here : code.utf8[index]? with
  | none => (code.sliceFrom? copied).map masked.addCode
  | some _ =>
      match _closed : Text.literalEndAt? code.utf8 index with
      | none => scanFrom? code copied (index + 1) masked
      | some stop => do
          let part ← code.slice? copied index
          let literal ← code.slice? index stop
          scanFrom? code stop stop (masked.addLiteral part literal stop)
termination_by code.utf8.length - index
decreasing_by
  all_goals
    have inside := (List.getElem?_eq_some_iff.mp _here).1
  · omega
  · have := Text.lt_of_literalEndAt? _closed
    omega

/-- Before any code has been masked. -/
def start (marker : Char) : Masked where
  marker := marker
  text := []
  literals := []
  ends := []

/-- Masks the literals of code by its bytes. -/
def ofCode? (code : Text) : Option Masked := scanFrom? code 0 0 (start (Mask.markerFor code))

theorem scanFrom?_of_end {code : Text} {index : Nat} (atEnd : code.utf8[index]? = none) (copied : Nat)
    (masked : Masked) :
    scanFrom? code copied index masked = (code.sliceFrom? copied).map masked.addCode := by
  rw [scanFrom?]
  split
  next => rfl
  next here => simp [atEnd] at here

theorem scanFrom?_of_none {code : Text} {index : Nat} {byte : UInt8} (here : code.utf8[index]? = some byte)
    (unclosed : Text.literalEndAt? code.utf8 index = none) (copied : Nat) (masked : Masked) :
    scanFrom? code copied index masked = scanFrom? code copied (index + 1) masked := by
  rw [scanFrom?]
  split
  next atEnd => simp [here] at atEnd
  next =>
    split
    next => rfl
    next closed => simp [unclosed] at closed

theorem scanFrom?_of_some {code : Text} {index stop : Nat}
    (closed : Text.literalEndAt? code.utf8 index = some stop) (copied : Nat) (masked : Masked) :
    scanFrom? code copied index masked =
      (code.slice? copied index).bind fun part => (code.slice? index stop).bind fun literal =>
        scanFrom? code stop stop (masked.addLiteral part literal stop) := by
  rw [scanFrom?]
  split
  next atEnd => simp [Text.literalEndAt?, atEnd] at closed
  next =>
    split
    next unclosed => simp [closed] at unclosed
    next other isOther =>
      rw [closed] at isOther
      obtain rfl := Option.some.inj isOther
      rfl

/-- Masking passes over a character that starts no literal. -/
theorem scanFrom?_of_unclosed (before : Text) {c : Char} {rest : Text}
    (unclosed : Text.literal? (c :: rest) = none) (copied : Nat) (masked : Masked) :
    scanFrom? (before ++ c :: rest) copied before.bytes masked =
      scanFrom? (before ++ c :: rest) copied (before ++ [c]).bytes masked := by
  rw [Text.bytes_append, Text.bytes_singleton]
  by_cases ascii : c.toNat < 128
  · have notClosed := Text.literalEndAt?_eq before (c :: rest)
    rw [unclosed, Option.map_none] at notClosed
    rw [scanFrom?_of_none (Text.getElem?_utf8_ascii before rest ascii) notClosed,
      Text.utf8Size_of_ascii ascii]
  · have passes (index : Nat) (byte : UInt8) (here : (before ++ c :: rest).utf8[index]? = some byte)
        (wide : 128 ≤ byte.toNat) :
        scanFrom? (before ++ c :: rest) copied index masked =
          scanFrom? (before ++ c :: rest) copied (index + 1) masked :=
      scanFrom?_of_none here (Text.literalEndAt?_of_wide here wide) copied masked
    exact Text.passes_wide passes rfl (Nat.le_of_not_lt ascii)

/-- What has been masked, followed by code that has been passed and by fragments behind it. -/
def addFragments (mask : Mask) (masked : Masked) (passed : Text) (inCode : Nat) (fragments : List Fragment) :
    Masked where
  marker := masked.marker
  text := masked.text ++ passed ++ mask.textFrom masked.literals.length fragments
  literals := masked.literals ++ fragments.filterMap Fragment.literal?
  ends := masked.ends ++
    mask.endsFrom masked.literals.length (masked.text ++ passed).bytes inCode fragments

section Scan

variable (mask : Mask)

theorem addFragments_nil (masked : Masked) (passed : Text) (inCode : Nat) :
    addFragments mask masked passed inCode [] = masked.addCode passed := by
  simp [addFragments, addCode, Mask.textFrom, Mask.endsFrom]

theorem addFragments_plain (masked : Masked) (passed : Text) (inCode : Nat) (c : Char)
    (fragments : List Fragment) :
    addFragments mask masked passed inCode (.plain c :: fragments) =
      addFragments mask masked (passed ++ [c]) (inCode + c.utf8Size) fragments := by
  rw [addFragments, List.filterMap_cons_none rfl]
  simp [addFragments, Mask.textFrom, Mask.endsFrom, Nat.add_assoc]

variable {mask}

theorem addFragments_literal {masked : Masked} (sameMarker : masked.marker = mask.marker) (passed : Text)
    (inCode : Nat) (quoted : Text) (fragments : List Fragment) :
    addFragments mask masked passed inCode (.literal quoted :: fragments) =
      addFragments mask (masked.addLiteral passed quoted (inCode + quoted.bytes)) []
        (inCode + quoted.bytes) fragments := by
  simp [addFragments, addLiteral, Mask.textFrom, Mask.endsFrom, Fragment.literal?, Mask.placeholder,
    sameMarker, Nat.add_assoc]

theorem scanFrom?_eq {masked : Masked} (sameMarker : masked.marker = mask.marker) (before passed rest : Text) :
    scanFrom? (before ++ passed ++ rest) before.bytes (before ++ passed).bytes masked =
      some (addFragments mask masked passed (before ++ passed).bytes (Fragment.ofCode rest)) := by
  fun_induction Fragment.ofCode rest generalizing before passed masked with
  | case1 =>
      rw [List.append_nil, scanFrom?_of_end (Text.getElem?_utf8_end _), Text.sliceFrom?_append, Option.map_some,
        addFragments_nil]
  | case2 c rest unclosed inductionHypothesis =>
      have behind := inductionHypothesis sameMarker before (passed ++ [c])
      rw [← List.append_assoc, List.append_assoc _ [c], List.singleton_append] at behind
      rw [scanFrom?_of_unclosed (before ++ passed) unclosed, behind, addFragments_plain,
        Text.bytes_append (before ++ passed), Text.bytes_singleton]
  | case3 c rest quoted after found inductionHypothesis =>
      obtain ⟨whole, _⟩ := Text.literal?_append found
      have closed := Text.literalEndAt?_eq (before ++ passed) (c :: rest)
      rw [found, Option.map_some] at closed
      have part : (before ++ passed ++ c :: rest).slice? before.bytes (before ++ passed).bytes = some passed :=
        Text.slice?_eq_some_iff.mpr ⟨before, c :: rest, rfl, rfl, Text.bytes_append before passed⟩
      have literal : (before ++ passed ++ c :: rest).slice? (before ++ passed).bytes
          ((before ++ passed).bytes + quoted.bytes) = some quoted := by
        rw [← whole, ← List.append_assoc, Text.slice?_append]
      have sameMarkerBehind :
          (masked.addLiteral passed quoted ((before ++ passed).bytes + quoted.bytes)).marker = mask.marker :=
        sameMarker
      have behind := inductionHypothesis sameMarkerBehind (before ++ passed ++ quoted) []
      rw [List.append_nil, List.append_assoc _ quoted, whole, Text.bytes_append (before ++ passed)] at behind
      rw [scanFrom?_of_some closed, part, Option.bind_some, literal, Option.bind_some, behind,
        addFragments_literal sameMarker]

end Scan

/-- Every slice that masking takes exists, and it leaves what the mask of the code leaves. -/
theorem ofCode?_eq (code : Text) : ofCode? code = some (Mask.ofCode code).masked := by
  have marker : (start (Mask.markerFor code)).marker = (Mask.ofCode code).marker := by rw [Mask.ofCode, start]
  have scanned := scanFrom?_eq marker [] [] code
  rw [ofCode?]
  refine scanned.trans ?_
  simp only [Mask.ofCode, addFragments, start, Mask.masked, Mask.text, Mask.literals, Mask.ends,
    List.nil_append, Text.bytes_nil, List.length_nil]

/-! ## Putting the literals back -/

/-- The literal of the placeholder whose opening marker stands just before a text, and the offset of the
closing marker. -/
def placeholderAt? (masked : Masked) (text : Text) : Option (Option (Nat × Text)) :=
  match text.seek? [masked.marker] with
  | none => some none
  | some stop => do
      let digits ← text.sliceTo? stop
      return ((Mask.readNumber? digits).bind fun number => masked.literals[number]?).map fun literal =>
        (stop, literal)

/-- Puts the literals back from the next marker on. -/
def restoreFrom? (masked : Masked) (text : Text) : Option Text :=
  match text.seek? [masked.marker] with
  | none => some text
  | some start => do
      let front ← text.sliceTo? start
      match _opened : text.sliceFrom? (start + masked.marker.utf8Size) with
      | none => none
      | some after =>
          match ← masked.placeholderAt? after with
          | none => do
              let restored ← restoreFrom? masked after
              return front ++ masked.marker :: restored
          | some (stop, literal) =>
              match _closed : after.sliceFrom? (stop + masked.marker.utf8Size) with
              | none => none
              | some rest => do
                  let restored ← restoreFrom? masked rest
                  return front ++ literal ++ restored
termination_by text.length
decreasing_by
  · exact Text.length_lt_of_sliceFrom? _opened (Nat.add_pos_right _ masked.marker.utf8Size_pos)
  · have opened := Text.length_lt_of_sliceFrom? _opened (Nat.add_pos_right _ masked.marker.utf8Size_pos)
    have closed := Text.length_lt_of_sliceFrom? _closed (Nat.add_pos_right _ masked.marker.utf8Size_pos)
    omega

/-- Puts the literals back by cutting around the markers. Without literals nothing is looked for. -/
def restore? (masked : Masked) (text : Text) : Option Text :=
  if masked.literals = [] then some text else masked.restoreFrom? text

theorem sliceFrom?_behind_marker (front : Text) (marker : Char) (rest : Text) :
    (front ++ marker :: rest).sliceFrom? (front.bytes + marker.utf8Size) = some rest := by
  have sliced := Text.sliceFrom?_append (front ++ [marker]) rest
  rwa [Text.bytes_append, Text.bytes_singleton, List.append_assoc] at sliced

/-- The placeholder that is found behind a marker is the one that the mask takes there. -/
theorem placeholderAt?_cases (mask : Mask) (text : Text) :
    mask.masked.placeholderAt? text = some none ∧ mask.takeLiteral? text = none ∨
      ∃ stop literal rest, mask.masked.placeholderAt? text = some (some (stop, literal)) ∧
        text.sliceFrom? (stop + mask.marker.utf8Size) = some rest ∧
          mask.takeLiteral? text = some (literal, rest) := by
  by_cases member : mask.marker ∈ text
  · obtain ⟨digits, rest, rfl, absent⟩ := List.eq_append_cons_of_mem member
    have found : mask.masked.placeholderAt? (digits ++ mask.marker :: rest) =
        some (((Mask.readNumber? digits).bind fun number => mask.literals[number]?).map fun literal =>
          (Text.bytes digits, literal)) := by
      rw [placeholderAt?, Mask.masked_marker, Text.seek?_append_cons absent]
      simp only [Text.sliceTo?_append]
      rfl
    rw [found, Mask.takeLiteral?_append_marker absent]
    cases (Mask.readNumber? digits).bind fun number => mask.literals[number]? with
    | none => exact Or.inl ⟨rfl, rfl⟩
    | some literal =>
        have sliced := sliceFrom?_behind_marker digits mask.marker rest
        exact Or.inr ⟨Text.bytes digits, literal, rest, rfl, sliced, rfl⟩
  · refine Or.inl ⟨?_, Mask.takeLiteral?_of_not_mem member⟩
    rw [placeholderAt?, Mask.masked_marker, Text.seek?_of_not_mem member]

theorem restoreFrom?_append_marker {masked : Masked} {front : Text} (absent : masked.marker ∉ front)
    (after : Text) :
    masked.restoreFrom? (front ++ masked.marker :: after) =
      (masked.placeholderAt? after).bind fun
        | none => (masked.restoreFrom? after).map fun restored => front ++ masked.marker :: restored
        | some (stop, literal) =>
            (after.sliceFrom? (stop + masked.marker.utf8Size)).bind fun rest =>
              (masked.restoreFrom? rest).map fun restored => front ++ literal ++ restored := by
  rw [restoreFrom?, Text.seek?_append_cons absent]
  simp only [Text.sliceTo?_append, Option.bind_eq_bind, Option.bind_some]
  split
  next notOpened => simp [sliceFrom?_behind_marker] at notOpened
  next other opened =>
    rw [sliceFrom?_behind_marker] at opened
    obtain rfl := Option.some.inj opened
    cases masked.placeholderAt? after with
    | none => rfl
    | some found =>
        cases found with
        | none => rw [Option.map_eq_bind]; rfl
        | some placeholder =>
            simp only [Option.bind_some]
            split
            next notClosed => rw [notClosed]; rfl
            next rest closed => rw [closed, Option.bind_some, Option.map_eq_bind]; rfl

theorem restoreFrom?_eq (mask : Mask) (text : Text) :
    mask.masked.restoreFrom? text = some (mask.unmask text) := by
  by_cases member : mask.marker ∈ text
  · obtain ⟨front, after, split, absent⟩ := List.eq_append_cons_of_mem member
    have size : text.length = front.length + (after.length + 1) := by
      rw [split, List.length_append, List.length_cons]
    have step : mask.masked.restoreFrom? (front ++ mask.marker :: after) = _ :=
      restoreFrom?_append_marker absent after
    rw [split, step, Mask.unmask_append_of_not_mem mask _ absent]
    obtain ⟨notFound, notTaken⟩ | ⟨stop, literal, rest, found, sliced, taken⟩ :=
      placeholderAt?_cases mask after
    · have restored := restoreFrom?_eq mask after
      simp only [notFound, Option.bind_some, restored, Option.map_some, Mask.masked_marker,
        Mask.unmask_marker_of_eq_none notTaken]
    · have shorter := Mask.length_after_takeLiteral?_lt taken
      have restored := restoreFrom?_eq mask rest
      simp only [found, Option.bind_some, Mask.masked_marker, sliced, restored, Option.map_some,
        List.append_assoc, Mask.unmask_marker_of_eq_some taken]
  · have whole := Mask.unmask_append_of_not_mem mask [] member
    rw [List.append_nil, Mask.unmask, List.append_nil] at whole
    rw [restoreFrom?, Mask.masked_marker, Text.seek?_of_not_mem member, whole]
termination_by text.length

/-- Every slice that is taken to put the literals back exists, and the mask puts back the same. -/
theorem restore?_eq (mask : Mask) (text : Text) : mask.masked.restore? text = some (mask.unmask text) := by
  rw [restore?, Mask.masked_literals]
  by_cases noLiterals : mask.literals = []
  · rw [if_pos noLiterals, Mask.unmask_of_no_literals noLiterals]
  · rw [if_neg noLiterals, restoreFrom?_eq]

end Masked

end Dialect
