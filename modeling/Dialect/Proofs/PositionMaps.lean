import Dialect.Proofs.Agreement
import Dialect.Proofs.Slices

/-!
# Exact position maps

Masked text and code consist of the same fragments, and the code of a line and the line of the same
pieces, but an item can take up more room in one text than in the other. A byte that is in both texts is
known by its item and by the distance from where the item begins; a map of positions is exact if it keeps
both. Main statements: offsets outside placeholders are mapped to the offsets outside literals
(`Mask.offsetInCode_exact`), and offsets of the code of a line, but for the joining spaces, to the offsets
in code pieces (`Line.offsetInLine?_exact`): each to an equal byte, in order, and none is missed.
-/

namespace Dialect

/-! ## Items laid out one after the other -/

/-- Says how far the first items of a list reach in a text. What an item takes up begins with the bytes that
it has in every text. -/
structure Ruler {α : Type} (room : α → Nat) where
  reach : List α → Nat
  reach_nil : reach [] = 0
  room_le : ∀ left item, reach left + room item ≤ reach (left ++ [item])

/-- A byte in the room of an item of a list. -/
structure Spot {α : Type} (room : α → Nat) (items : List α) where
  left : List α
  item : α
  right : List α
  index : Nat
  split : items = left ++ item :: right
  inside : index < room item

namespace Ruler

variable {α : Type} {room : α → Nat} {ruler : Ruler room}

/-- An offset is taken up by an item between those to its left and those to its right. -/
structure Covers (ruler : Ruler room) (items : List α) (offset : Nat) (left : List α) (item : α)
    (right : List α) : Prop where
  split : items = left ++ item :: right
  lower : ruler.reach left ≤ offset
  upper : offset < ruler.reach (left ++ [item])

/-- An offset is taken up by an item of some kind. -/
def TakenBy (ruler : Ruler room) (kind : α → Bool) (items : List α) (offset : Nat) : Prop :=
  ∃ left item right, ruler.Covers items offset left item right ∧ kind item = true

/-- The offset of a byte. -/
def offset (ruler : Ruler room) {items : List α} (spot : Spot room items) : Nat :=
  ruler.reach spot.left + spot.index

theorem reach_le_append (ruler : Ruler room) (left right : List α) :
    ruler.reach left ≤ ruler.reach (left ++ right) := by
  induction right generalizing left with
  | nil => exact Nat.le_of_eq (congrArg ruler.reach (List.append_nil left).symm)
  | cons item rest inductionHypothesis =>
      have later := inductionHypothesis (left ++ [item])
      have here := ruler.room_le left item
      rw [List.append_cons left item rest]
      omega

theorem reach_le_of_before (ruler : Ruler room) (left : List α) (item : α) (between : List α) :
    ruler.reach (left ++ [item]) ≤ ruler.reach (left ++ item :: between) := by
  rw [List.append_cons left item between]
  exact ruler.reach_le_append _ between

/-- Of two items of a list, either they are the same or one comes before the other. -/
theorem split_cases {items left right otherLeft otherRight : List α} {item other : α}
    (split : items = left ++ item :: right) (otherSplit : items = otherLeft ++ other :: otherRight) :
    (left = otherLeft ∧ item = other) ∨ (∃ between, otherLeft = left ++ item :: between) ∨
      ∃ between, left = otherLeft ++ other :: between := by
  rcases List.append_eq_append_iff.mp (split.symm.trans otherSplit) with
    ⟨middle, isOtherLeft, isRight⟩ | ⟨middle, isLeft, isOtherRight⟩
  · cases middle with
    | nil => exact Or.inl ⟨by rw [isOtherLeft, List.append_nil], (List.cons.inj isRight).1⟩
    | cons first between =>
        obtain ⟨rfl, _⟩ := List.cons.inj isRight
        exact Or.inr (Or.inl ⟨between, isOtherLeft⟩)
  · cases middle with
    | nil => exact Or.inl ⟨by rw [isLeft, List.append_nil], (List.cons.inj isOtherRight).1.symm⟩
    | cons first between =>
        obtain ⟨rfl, _⟩ := List.cons.inj isOtherRight
        exact Or.inr (Or.inr ⟨between, isLeft⟩)

/-- The first items of a list reach up to an item of the list at most, or past it. -/
theorem reach_cases (ruler : Ruler room) {items left right before after : List α} {item : α}
    (split : items = left ++ item :: right) (parted : items = before ++ after) :
    ruler.reach before ≤ ruler.reach left ∨ ruler.reach (left ++ [item]) ≤ ruler.reach before := by
  rcases List.append_eq_append_iff.mp (split.symm.trans parted) with
    ⟨middle, isBefore, isRest⟩ | ⟨middle, isLeft, _⟩
  · cases middle with
    | nil =>
        rw [isBefore, List.append_nil]
        exact Or.inl (Nat.le_refl _)
    | cons first between =>
        obtain ⟨rfl, _⟩ := List.cons.inj isRest
        rw [isBefore]
        exact Or.inr (ruler.reach_le_of_before left item between)
  · rw [isLeft]
    exact Or.inl (ruler.reach_le_append before middle)

section Covers

variable {items left right otherLeft otherRight : List α} {item other : α} {offset : Nat}

theorem Covers.lt_reach (covers : ruler.Covers items offset left item right) :
    offset < ruler.reach items := by
  rw [covers.split]
  exact Nat.lt_of_lt_of_le covers.upper (ruler.reach_le_of_before left item right)

/-- An item takes up smaller offsets than the items behind it. -/
theorem Covers.lt_of_before {otherOffset : Nat} {between : List α}
    (covers : ruler.Covers items offset left item right)
    (otherCovers : ruler.Covers items otherOffset otherLeft other otherRight)
    (before : otherLeft = left ++ item :: between) : offset < otherOffset := by
  have lower := otherCovers.lower
  rw [before] at lower
  exact Nat.lt_of_lt_of_le covers.upper
    (Nat.le_trans (ruler.reach_le_of_before left item between) lower)

/-- An offset is taken up by one item only. -/
theorem Covers.takenBy_iff (covers : ruler.Covers items offset left item right) (kind : α → Bool) :
    ruler.TakenBy kind items offset ↔ kind item = true := by
  constructor
  · rintro ⟨otherLeft, other, otherRight, otherCovers, isKind⟩
    rcases split_cases covers.split otherCovers.split with ⟨_, rfl⟩ | ⟨_, before⟩ | ⟨_, behind⟩
    · exact isKind
    · exact absurd (covers.lt_of_before otherCovers before) (Nat.lt_irrefl offset)
    · exact absurd (otherCovers.lt_of_before covers behind) (Nat.lt_irrefl offset)
  · intro isKind
    exact ⟨left, item, right, covers, isKind⟩

end Covers

/-- Every offset that the items reach is taken up by one of them. The induction is on the items that are
still ahead. -/
theorem exists_covers_append {passed : List α} {offset : Nat} (lower : ruler.reach passed ≤ offset)
    {rest : List α} (upper : offset < ruler.reach (passed ++ rest)) :
    ∃ left item right, ruler.Covers (passed ++ rest) offset left item right := by
  induction rest generalizing passed with
  | nil =>
      rw [List.append_nil] at upper
      exact absurd upper (Nat.not_lt_of_le lower)
  | cons item rest inductionHypothesis =>
      by_cases here : offset < ruler.reach (passed ++ [item])
      · exact ⟨passed, item, rest, rfl, lower, here⟩
      · rw [List.append_cons passed item rest] at upper ⊢
        exact inductionHypothesis (Nat.le_of_not_lt here) upper

theorem exists_covers {items : List α} {offset : Nat} (inside : offset < ruler.reach items) :
    ∃ left item right, ruler.Covers items offset left item right := by
  have start : ruler.reach [] ≤ offset := by
    rw [ruler.reach_nil]
    exact Nat.zero_le offset
  exact exists_covers_append start inside

theorem takenBy_iff_exists_index {kind : α → Bool} {items : List α} {offset : Nat} :
    ruler.TakenBy kind items offset ↔
      ((List.range items.length).any fun index =>
        ruler.reach (items.take index) ≤ offset && offset < ruler.reach (items.take (index + 1)) &&
          items[index]?.any kind) = true := by
  simp only [List.any_eq_true, List.mem_range, Bool.and_eq_true, decide_eq_true_eq]
  constructor
  · rintro ⟨left, item, right, ⟨split, lower, upper⟩, isKind⟩
    refine ⟨left.length, ?_, ⟨?_, ?_⟩, ?_⟩
    · simp [split]
    · simpa [split] using lower
    · simpa [split, List.take_append, List.take_of_length_le] using upper
    · simpa [split] using isKind
  · rintro ⟨index, bound, ⟨lower, upper⟩, isKind⟩
    rw [List.take_succ_eq_append_getElem bound] at upper
    rw [List.getElem?_eq_getElem bound, Option.any_some] at isKind
    have split : items = items.take index ++ items[index] :: items.drop (index + 1) := by
      rw [List.getElem_cons_drop, List.take_append_drop]
    exact ⟨_, _, _, ⟨split, lower, upper⟩, isKind⟩

instance (ruler : Ruler room) (kind : α → Bool) (items : List α) (offset : Nat) :
    Decidable (ruler.TakenBy kind items offset) :=
  decidable_of_iff _ takenBy_iff_exists_index.symm

/-- What is taken up, but not by an item of some kind, is taken up by one of another kind. -/
theorem not_takenBy_iff {kind : α → Bool} {items : List α} {offset : Nat} :
    offset < ruler.reach items ∧ ¬ruler.TakenBy kind items offset ↔
      ruler.TakenBy (fun item => !kind item) items offset := by
  constructor
  · rintro ⟨inside, notTaken⟩
    obtain ⟨left, item, right, covers⟩ := exists_covers inside
    rw [covers.takenBy_iff] at notTaken ⊢
    rw [Bool.not_eq_true', ← Bool.not_eq_true]
    exact notTaken
  · rintro ⟨left, item, right, covers, isOther⟩
    refine ⟨covers.lt_reach, ?_⟩
    rw [covers.takenBy_iff, Bool.not_eq_true, ← Bool.not_eq_true']
    exact isOther

section Spots

variable {items : List α}

theorem covers_offset (ruler : Ruler room) (spot : Spot room items) :
    ruler.Covers items (ruler.offset spot) spot.left spot.item spot.right where
  split := spot.split
  lower := Nat.le_add_right ..
  upper := by
    have inside := spot.inside
    have roomy := ruler.room_le spot.left spot.item
    rw [offset]
    omega

/-- Two rulers find the bytes of a list in the same order. -/
theorem offset_lt_offset (second : Ruler room) {spot other : Spot room items}
    (increasing : ruler.offset spot < ruler.offset other) : second.offset spot < second.offset other := by
  rcases split_cases spot.split other.split with ⟨sameLeft, _⟩ | ⟨_, before⟩ | ⟨_, behind⟩
  · rw [offset, offset, sameLeft] at increasing ⊢
    omega
  · exact (second.covers_offset spot).lt_of_before (second.covers_offset other) before
  · have decreasing := (ruler.covers_offset other).lt_of_before (ruler.covers_offset spot) behind
    exact absurd increasing (Nat.lt_asymm decreasing)

theorem offset_eq_offset (second : Ruler room) {spot other : Spot room items}
    (same : ruler.offset spot = ruler.offset other) : second.offset spot = second.offset other := by
  rcases Nat.lt_trichotomy (second.offset spot) (second.offset other) with before | equal | behind
  · exact absurd same (Nat.ne_of_lt (offset_lt_offset ruler before))
  · exact equal
  · exact absurd same (Nat.ne_of_gt (offset_lt_offset ruler behind))

/-- Where the items of some kind take up their room and nothing else, and the other items have no room,
the offsets that these items take up are those of the bytes. -/
theorem takenBy_iff_exists_spot {kind : α → Bool} {offset : Nat}
    (exactly : ∀ left item, kind item = true →
      ruler.reach (left ++ [item]) = ruler.reach left + room item)
    (noRoom : ∀ item, kind item = false → room item = 0) :
    ruler.TakenBy kind items offset ↔ ∃ spot : Spot room items, ruler.offset spot = offset := by
  constructor
  · rintro ⟨left, item, right, ⟨split, lower, upper⟩, isKind⟩
    rw [exactly left item isKind] at upper
    refine ⟨⟨left, item, right, offset - ruler.reach left, split, by omega⟩, ?_⟩
    exact Nat.add_sub_cancel' lower
  · rintro ⟨spot, rfl⟩
    rw [(ruler.covers_offset spot).takenBy_iff]
    cases isKind : kind spot.item with
    | true => rfl
    | false =>
        have inside := spot.inside
        rw [noRoom spot.item isKind] at inside
        exact absurd inside (Nat.not_lt_zero _)

end Spots

end Ruler

/-! ## From masked text to code -/

namespace Fragment

/-- Whether a fragment is a literal. -/
def isLiteral (fragment : Fragment) : Bool := fragment.literal?.isSome

/-- The bytes of a fragment that are both in the code and in the masked text: those of a character outside
literals. -/
def room : Fragment → Nat
  | .plain c => c.utf8Size
  | .literal _ => 0

/-- An offset that some fragment takes up, but no literal. -/
def Outside (ruler : Ruler room) (fragments : List Fragment) (offset : Nat) : Prop :=
  offset < ruler.reach fragments ∧ ¬ruler.TakenBy isLiteral fragments offset

instance (ruler : Ruler room) (fragments : List Fragment) (offset : Nat) :
    Decidable (Outside ruler fragments offset) :=
  inferInstanceAs (Decidable (_ ∧ _))

theorem outside_iff {ruler : Ruler room}
    (plainly : ∀ left c, ruler.reach (left ++ [.plain c]) = ruler.reach left + c.utf8Size)
    {fragments : List Fragment} {offset : Nat} :
    Outside ruler fragments offset ↔ ∃ spot : Spot room fragments, ruler.offset spot = offset := by
  refine Ruler.not_takenBy_iff.trans (Ruler.takenBy_iff_exists_spot ?_ ?_)
  · intro left fragment isPlain
    cases fragment with
    | plain c => exact plainly left c
    | literal quoted => simp [isLiteral, literal?] at isPlain
  · intro fragment isLiteral
    cases fragment with
    | plain c => simp [Fragment.isLiteral, literal?] at isLiteral
    | literal quoted => rfl

/-- How far fragments reach in the code. -/
def codeRuler : Ruler room where
  reach fragments := Text.bytes (fragments.flatMap text)
  reach_nil := rfl
  room_le := by
    intro left fragment
    cases fragment <;> simp [room, text]

theorem reach_codeRuler_plain (left : List Fragment) (c : Char) :
    codeRuler.reach (left ++ [.plain c]) = codeRuler.reach left + c.utf8Size := by
  simp [codeRuler, text]

end Fragment

namespace Mask

open Fragment (codeRuler)

/-- How far fragments reach in the masked text. -/
def textRuler (mask : Mask) : Ruler Fragment.room where
  reach fragments := Text.bytes (mask.textFrom 0 fragments)
  reach_nil := rfl
  room_le := by
    intro left fragment
    rw [textFrom_append, Text.bytes_append]
    cases fragment <;> simp [Fragment.room, textFrom]

theorem reach_textRuler_plain (mask : Mask) (left : List Fragment) (c : Char) :
    mask.textRuler.reach (left ++ [.plain c]) = mask.textRuler.reach left + c.utf8Size := by
  simp [textRuler, textFrom_append, textFrom]

/-- An offset of the masked text that no placeholder takes up. -/
def OutsidePlaceholders (mask : Mask) (offset : Nat) : Prop :=
  Fragment.Outside mask.textRuler mask.fragments offset

/-- An offset of the code that no literal takes up. -/
def OutsideLiterals (mask : Mask) (place : Nat) : Prop :=
  Fragment.Outside codeRuler mask.fragments place

instance (mask : Mask) (offset : Nat) : Decidable (mask.OutsidePlaceholders offset) :=
  inferInstanceAs (Decidable (Fragment.Outside ..))

instance (mask : Mask) (place : Nat) : Decidable (mask.OutsideLiterals place) :=
  inferInstanceAs (Decidable (Fragment.Outside ..))

theorem outsidePlaceholders_iff {mask : Mask} {offset : Nat} :
    mask.OutsidePlaceholders offset ↔
      ∃ spot : Spot Fragment.room mask.fragments, mask.textRuler.offset spot = offset :=
  Fragment.outside_iff mask.reach_textRuler_plain

theorem outsideLiterals_iff {mask : Mask} {place : Nat} :
    mask.OutsideLiterals place ↔
      ∃ spot : Spot Fragment.room mask.fragments, codeRuler.offset spot = place :=
  Fragment.outside_iff Fragment.reach_codeRuler_plain

theorem exists_plain {mask : Mask} (spot : Spot Fragment.room mask.fragments) :
    ∃ c, spot.item = .plain c ∧ spot.index < c.utf8Size := by
  have inside := spot.inside
  cases isItem : spot.item with
  | plain c =>
      rw [isItem] at inside
      exact ⟨c, rfl, inside⟩
  | literal quoted =>
      rw [isItem] at inside
      exact absurd inside (Nat.not_lt_zero _)

theorem offsetInCode_offset {mask : Mask} (spot : Spot Fragment.room mask.fragments) :
    mask.offsetInCode (mask.textRuler.offset spot) = codeRuler.offset spot := by
  obtain ⟨c, isPlain, inside⟩ := exists_plain spot
  have split := spot.split
  rw [isPlain] at split
  exact offsetInCode_of_plain split inside

/-- A byte outside literals is the same in the masked text and in the code. -/
theorem getElem?_utf8_offset {mask : Mask} (spot : Spot Fragment.room mask.fragments) :
    (Text.utf8 (mask.fragments.flatMap Fragment.text))[codeRuler.offset spot]? =
      mask.text.utf8[mask.textRuler.offset spot]? := by
  obtain ⟨c, isPlain, inside⟩ := exists_plain spot
  obtain ⟨left, fragment, right, index, split, _⟩ := spot
  obtain rfl : fragment = .plain c := isPlain
  have inCode : mask.fragments.flatMap Fragment.text =
      left.flatMap Fragment.text ++ c :: right.flatMap Fragment.text := by
    rw [split, List.flatMap_append, List.flatMap_cons, Fragment.text, List.singleton_append]
  have inText : mask.text =
      mask.textFrom 0 left ++ c :: mask.textFrom (0 + countLiterals left) right := by
    rw [text, split, textFrom_append, textFrom]
  rw [inCode, inText]
  exact (Text.getElem?_utf8 _ c _ inside).trans (Text.getElem?_utf8 _ c _ inside).symm

/-- The offsets of masked code outside placeholders are mapped to the offsets of the code outside literals:
each to one with the same byte, in the same order, and each of these is the image of exactly one. The end
of the masked text is mapped to the end of the code. -/
theorem offsetInCode_exact (code : Text) :
    let mask := ofCode code
    (∀ offset, mask.OutsidePlaceholders offset →
      mask.OutsideLiterals (mask.offsetInCode offset) ∧
        code.utf8[mask.offsetInCode offset]? = mask.text.utf8[offset]?) ∧
    (∀ offset other, mask.OutsidePlaceholders offset → mask.OutsidePlaceholders other →
      offset < other → mask.offsetInCode offset < mask.offsetInCode other) ∧
    (∀ place, mask.OutsideLiterals place →
      ∃ offset, mask.OutsidePlaceholders offset ∧ mask.offsetInCode offset = place ∧
        ∀ other, mask.OutsidePlaceholders other → mask.offsetInCode other = place → other = offset) ∧
    mask.offsetInCode mask.text.bytes = code.bytes := by
  have whole : (ofCode code).fragments.flatMap Fragment.text = code := Fragment.flatMap_text_ofCode code
  refine ⟨?_, ?_, ?_, ?_⟩
  · intro offset outside
    obtain ⟨spot, rfl⟩ := outsidePlaceholders_iff.mp outside
    have sameByte := getElem?_utf8_offset spot
    rw [whole] at sameByte
    rw [offsetInCode_offset]
    exact ⟨outsideLiterals_iff.mpr ⟨spot, rfl⟩, sameByte⟩
  · intro offset other outside otherOutside increasing
    obtain ⟨spot, rfl⟩ := outsidePlaceholders_iff.mp outside
    obtain ⟨otherSpot, rfl⟩ := outsidePlaceholders_iff.mp otherOutside
    rw [offsetInCode_offset, offsetInCode_offset]
    exact Ruler.offset_lt_offset codeRuler increasing
  · intro place outside
    obtain ⟨spot, rfl⟩ := outsideLiterals_iff.mp outside
    refine ⟨_, outsidePlaceholders_iff.mpr ⟨spot, rfl⟩, offsetInCode_offset spot, ?_⟩
    intro other otherOutside isPlace
    obtain ⟨otherSpot, rfl⟩ := outsidePlaceholders_iff.mp otherOutside
    rw [offsetInCode_offset] at isPlace
    exact Ruler.offset_eq_offset _ isPlace
  · have atEnd := offsetInCode_of_append (List.append_nil (ofCode code).fragments).symm
    rw [whole] at atEnd
    exact atEnd

/-- A literal with a two-byte character is shorter than its placeholder, and the quote behind it opens
nothing. -/
theorem offsetInCode_exact_around_placeholder :
    let code : Text := "a\"é\"'b".toList
    let mask := ofCode code
    mask.offsetInCode 9 = 6 ∧ mask.OutsideLiterals 6 ∧ code.utf8[6]? = mask.text.utf8[9]? ∧
      mask.offsetInCode 0 < mask.offsetInCode 8 ∧
      (∃ offset, mask.OutsidePlaceholders offset ∧ mask.offsetInCode offset = 5) ∧
      ¬mask.OutsidePlaceholders 7 ∧ ¬mask.OutsideLiterals 2 := by
  intro code mask
  have mapped : mask.offsetInCode 9 = 6 := by decide +kernel
  obtain ⟨keeps, increasing, onto, _⟩ := offsetInCode_exact code
  obtain ⟨outside, sameByte⟩ := keeps 9 (by decide +kernel)
  obtain ⟨offset, isOutside, isPlace, _⟩ := onto 5 (by decide +kernel)
  exact ⟨mapped, mapped ▸ outside, mapped ▸ sameByte,
    increasing 0 8 (by decide +kernel) (by decide +kernel) (by decide), ⟨offset, isOutside, isPlace⟩,
    by decide +kernel, by decide +kernel⟩

end Mask

/-! ## From the code of a line to the line -/

theorem Text.flatMap_append_separator (separator : Text) {parts : List Text} (nonempty : parts ≠ []) :
    (parts.flatMap fun part => part ++ separator) = joinWith separator parts ++ separator := by
  induction parts with
  | nil => exact absurd rfl nonempty
  | cons part others inductionHypothesis =>
      cases others with
      | nil => simp [joinWith]
      | cons next more => simp [inductionHypothesis (by simp), joinWith]

namespace Piece

/-- The bytes of a piece that are both in the line and in its code. -/
def room : Piece → Nat
  | .code content => content.bytes
  | .comment _ => 0

/-- The code pieces with a space behind each, also behind the last one. -/
def spaced (pieces : List Piece) : Text :=
  (pieces.filterMap code?).flatMap fun content => content ++ [' ']

theorem spaced_nil : spaced [] = [] := rfl

theorem spaced_comment (content : Text) (pieces : List Piece) :
    spaced (.comment content :: pieces) = spaced pieces := rfl

theorem spaced_code (content : Text) (pieces : List Piece) :
    spaced (.code content :: pieces) = content ++ ' ' :: spaced pieces := by
  simp [spaced, code?]

theorem spaced_append (left right : List Piece) : spaced (left ++ right) = spaced left ++ spaced right := by
  rw [spaced, List.filterMap_append, List.flatMap_append, ← spaced, ← spaced]

theorem spaced_eq {pieces : List Piece} (nonempty : pieces.filterMap code? ≠ []) :
    spaced pieces = Text.joinWith [' '] (pieces.filterMap code?) ++ [' '] :=
  Text.flatMap_append_separator [' '] nonempty

/-- How far pieces reach in the code of a line. A code piece takes up the space behind it too. -/
def codeRuler : Ruler room where
  reach pieces := (spaced pieces).bytes
  reach_nil := rfl
  room_le := by
    intro left piece
    rw [spaced_append, Text.bytes_append]
    cases piece <;> simp [room, spaced_code]

/-- How far pieces reach in the line. -/
def lineRuler : Ruler room where
  reach pieces := Text.bytes (pieces.flatMap text)
  reach_nil := rfl
  room_le := by
    intro left piece
    cases piece <;> simp [room, text]

theorem reach_codeRuler_comment (left : List Piece) (content : Text) :
    codeRuler.reach (left ++ [.comment content]) = codeRuler.reach left := by
  simp [codeRuler, spaced_append, spaced_comment, spaced_nil]

theorem reach_codeRuler_code (left : List Piece) (content : Text) :
    codeRuler.reach (left ++ [.code content]) = codeRuler.reach left + content.bytes + 1 := by
  have space : ' '.utf8Size = 1 := rfl
  simp [codeRuler, spaced_append, spaced_code, spaced_nil, space, Nat.add_assoc]

/-- The pieces reach one byte further than their code, if there is any. -/
theorem reach_codeRuler {pieces : List Piece} (nonempty : pieces.filterMap code? ≠ []) :
    codeRuler.reach pieces = (Text.joinWith [' '] (pieces.filterMap code?)).bytes + 1 :=
  (congrArg Text.bytes (spaced_eq nonempty)).trans (Text.bytes_append _ [' '])

theorem exists_code {pieces : List Piece} (spot : Spot room pieces) :
    ∃ content, spot.item = .code content ∧ spot.index < content.bytes := by
  have inside := spot.inside
  cases isItem : spot.item with
  | code content =>
      rw [isItem] at inside
      exact ⟨content, rfl, inside⟩
  | comment content =>
      rw [isItem] at inside
      exact absurd inside (Nat.not_lt_zero _)

theorem filterMap_code?_ne_nil {pieces : List Piece} (spot : Spot room pieces) :
    pieces.filterMap code? ≠ [] := by
  obtain ⟨content, isCode, _⟩ := exists_code spot
  have split := spot.split
  rw [isCode] at split
  simp [split, code?]

/-- An offset in the spaced code is in a code piece or at the space behind it. -/
theorem offset_cases {pieces : List Piece} {offset : Nat} (inside : offset < codeRuler.reach pieces) :
    (∃ spot : Spot room pieces, codeRuler.offset spot = offset) ∨
      ∃ left content right, pieces = left ++ .code content :: right ∧
        offset = codeRuler.reach left + content.bytes := by
  obtain ⟨left, piece, right, split, lower, upper⟩ := Ruler.exists_covers inside
  cases piece with
  | comment content =>
      rw [reach_codeRuler_comment] at upper
      omega
  | code content =>
      rw [reach_codeRuler_code] at upper
      by_cases inPiece : offset < codeRuler.reach left + content.bytes
      · have inRoom : offset - codeRuler.reach left < room (.code content) := by
          rw [room]
          omega
        exact Or.inl ⟨⟨left, _, right, _, split, inRoom⟩, Nat.add_sub_cancel' lower⟩
      · exact Or.inr ⟨left, content, right, split, by omega⟩

end Piece

namespace Line

open Piece (codeRuler lineRuler)

/-- An offset of the code of a line at which a space joins two code pieces. -/
def IsJoint (line : Line) (offset : Nat) : Prop :=
  ∃ left right, line.pieces.filterMap Piece.code? = left ++ right ∧ left ≠ [] ∧ right ≠ [] ∧
    offset = (Text.joinWith [' '] left).bytes

/-- An offset of a line that a code piece takes up. -/
def InCodePiece (line : Line) (place : Nat) : Prop :=
  lineRuler.TakenBy Piece.isCode line.pieces place

instance (line : Line) (place : Nat) : Decidable (line.InCodePiece place) :=
  inferInstanceAs (Decidable (Ruler.TakenBy ..))

theorem inCodePiece_iff {line : Line} {place : Nat} :
    line.InCodePiece place ↔ ∃ spot : Spot Piece.room line.pieces, lineRuler.offset spot = place := by
  refine Ruler.takenBy_iff_exists_spot ?_ ?_
  · intro left piece isCode
    cases piece with
    | code content => simp [lineRuler, Piece.text, Piece.room]
    | comment content => simp [Piece.isCode, Piece.code?] at isCode
  · intro piece notCode
    cases piece with
    | code content => simp [Piece.isCode, Piece.code?] at notCode
    | comment content => rfl

theorem offset_lt_bytes_code {line : Line} (spot : Spot Piece.room line.pieces) :
    codeRuler.offset spot < line.code.bytes := by
  obtain ⟨content, isCode, inside⟩ := Piece.exists_code spot
  have behind := codeRuler.reach_le_of_before spot.left spot.item spot.right
  rw [← spot.split, Piece.reach_codeRuler (Piece.filterMap_code?_ne_nil spot), isCode,
    Piece.reach_codeRuler_code, ← code] at behind
  rw [Ruler.offset]
  omega

/-- At a joint some pieces have just ended, so no piece is there. -/
theorem not_isJoint_offset {line : Line} (spot : Spot Piece.room line.pieces) :
    ¬line.IsJoint (codeRuler.offset spot) := by
  obtain ⟨content, isCode, inside⟩ := Piece.exists_code spot
  rintro ⟨left, right, parted, nonempty, _, isJoint⟩
  obtain ⟨before, after, piecesParted, rfl, _⟩ := List.filterMap_eq_append_iff.mp parted
  have ends := codeRuler.reach_cases spot.split piecesParted
  rw [Piece.reach_codeRuler nonempty, ← isJoint, isCode, Piece.reach_codeRuler_code,
    Ruler.offset] at ends
  omega

/-- The space behind a code piece is a joint if the code goes on there. -/
theorem isJoint_of_lt {line : Line} {left right : List Piece} {content : Text}
    (split : line.pieces = left ++ .code content :: right)
    (inside : codeRuler.reach left + content.bytes < line.code.bytes) :
    line.IsJoint (codeRuler.reach left + content.bytes) := by
  rw [List.append_cons] at split
  have nonempty : (left ++ [Piece.code content]).filterMap Piece.code? ≠ [] := by
    simp [Piece.code?]
  have reached := Piece.reach_codeRuler nonempty
  rw [Piece.reach_codeRuler_code] at reached
  refine ⟨_, right.filterMap Piece.code?, ?_, nonempty, ?_, Nat.succ.inj reached⟩
  · rw [split, List.filterMap_append]
  · intro empty
    rw [code, split, List.filterMap_append, empty, List.append_nil] at inside
    omega

/-- The offsets of the code that are in a code piece are all but the joints. -/
theorem exists_spot_iff {line : Line} {offset : Nat} :
    (∃ spot : Spot Piece.room line.pieces, codeRuler.offset spot = offset) ↔
      offset < line.code.bytes ∧ ¬line.IsJoint offset := by
  constructor
  · rintro ⟨spot, rfl⟩
    exact ⟨offset_lt_bytes_code spot, not_isJoint_offset spot⟩
  · rintro ⟨inside, notJoint⟩
    have nonempty : line.pieces.filterMap Piece.code? ≠ [] := by
      intro empty
      rw [code, empty] at inside
      exact absurd inside (Nat.not_lt_zero offset)
    have inSpaced : offset < codeRuler.reach line.pieces := by
      rw [Piece.reach_codeRuler nonempty]
      exact Nat.lt_succ_of_lt inside
    rcases Piece.offset_cases inSpaced with inPiece | ⟨left, content, right, split, rfl⟩
    · exact inPiece
    · exact absurd (isJoint_of_lt split inside) notJoint

/-- Pieces that are passed count in the code and in the line. -/
theorem offsetInPieces?_append (start offset : Nat) (passed pieces : List Piece) :
    offsetInPieces? start (codeRuler.reach passed + offset) (passed ++ pieces) =
      offsetInPieces? (start + lineRuler.reach passed) offset pieces := by
  induction passed generalizing start with
  | nil => simp [codeRuler.reach_nil, lineRuler.reach_nil]
  | cons piece others inductionHypothesis =>
      have inLine : lineRuler.reach (piece :: others) = piece.text.bytes + lineRuler.reach others := by
        simp [lineRuler]
      rw [List.cons_append, inLine, ← Nat.add_assoc, ← inductionHypothesis]
      cases piece with
      | comment content => rfl
      | code content =>
          have inCode : codeRuler.reach (.code content :: others) =
              content.bytes + 1 + codeRuler.reach others := by
            have space : ' '.utf8Size = 1 := rfl
            simp [codeRuler, Piece.spaced_code, space, Nat.add_assoc]
          rw [inCode, Nat.add_assoc, offsetInPieces?_behind]
          rfl

theorem offsetInLine?_offset {line : Line} (spot : Spot Piece.room line.pieces) :
    line.offsetInLine? (codeRuler.offset spot) = some (lineRuler.offset spot) := by
  obtain ⟨content, isCode, inside⟩ := Piece.exists_code spot
  have passed := offsetInPieces?_append 0 spot.index spot.left (.code content :: spot.right)
  rw [← isCode, ← spot.split, isCode, offsetInPieces?_of_lt _ inside, Nat.zero_add] at passed
  exact passed

/-- The map finds the bytes of the code pieces and nothing else. -/
theorem offsetInLine?_eq_some_iff {line : Line} {offset place : Nat} :
    line.offsetInLine? offset = some place ↔
      ∃ spot : Spot Piece.room line.pieces,
        codeRuler.offset spot = offset ∧ lineRuler.offset spot = place := by
  constructor
  · intro found
    by_cases inside : offset < codeRuler.reach line.pieces
    · rcases Piece.offset_cases inside with ⟨spot, rfl⟩ | ⟨left, content, right, split, isEnd⟩
      · rw [offsetInLine?_offset] at found
        exact ⟨spot, rfl, Option.some.inj found⟩
      · rw [offsetInLine?, split, isEnd, offsetInPieces?_append, offsetInPieces?_joint] at found
        cases found
    · obtain ⟨further, rfl⟩ := Nat.le.dest (Nat.le_of_not_lt inside)
      have passed := offsetInPieces?_append 0 further line.pieces []
      rw [List.append_nil, ← offsetInLine?, found] at passed
      cases passed
  · rintro ⟨spot, rfl, rfl⟩
    exact offsetInLine?_offset spot

/-- A byte of a code piece is the same in the code and in the line. -/
theorem getElem?_utf8_offset {line : Line} (spot : Spot Piece.room line.pieces) :
    (Text.utf8 (line.pieces.flatMap Piece.text))[lineRuler.offset spot]? =
      line.code.utf8[codeRuler.offset spot]? := by
  have inside := offset_lt_bytes_code spot
  have withSpace : (line.code ++ [' ']).utf8[codeRuler.offset spot]? =
      line.code.utf8[codeRuler.offset spot]? := by
    rw [Text.utf8_append, List.getElem?_append_left (by rwa [Text.length_utf8])]
  rw [← withSpace]
  have nonempty := Piece.filterMap_code?_ne_nil spot
  obtain ⟨content, isCode, inPiece⟩ := Piece.exists_code spot
  obtain ⟨left, piece, right, index, split, _⟩ := spot
  obtain rfl : piece = .code content := isCode
  have inLine : line.pieces.flatMap Piece.text =
      left.flatMap Piece.text ++ (content ++ right.flatMap Piece.text) := by
    rw [split, List.flatMap_append, List.flatMap_cons, Piece.text]
  have inCode : line.code ++ [' '] = Piece.spaced left ++ (content ++ ' ' :: Piece.spaced right) := by
    rw [code, ← Piece.spaced_eq nonempty, split, Piece.spaced_append, Piece.spaced_code]
  rw [inLine, inCode]
  exact (Text.getElem?_utf8_append _ content _ inPiece).trans
    (Text.getElem?_utf8_append _ content _ inPiece).symm

/-- The offsets of the code of a line are mapped to offsets of the line, but for the joints. Each is mapped
to an offset in a code piece with the same byte, in the same order, and each of these is the image of
exactly one. -/
theorem offsetInLine?_exact (text : Text) (openBefore : Bool) :
    let line := read text openBefore
    (∀ offset, (∃ place, line.offsetInLine? offset = some place) ↔
      offset < line.code.bytes ∧ ¬line.IsJoint offset) ∧
    (∀ offset place, line.offsetInLine? offset = some place →
      line.InCodePiece place ∧ text.utf8[place]? = line.code.utf8[offset]?) ∧
    (∀ offset other place otherPlace, line.offsetInLine? offset = some place →
      line.offsetInLine? other = some otherPlace → offset < other → place < otherPlace) ∧
    ∀ place, line.InCodePiece place →
      ∃ offset, line.offsetInLine? offset = some place ∧
        ∀ other, line.offsetInLine? other = some place → other = offset := by
  refine ⟨?_, ?_, ?_, ?_⟩
  · intro offset
    rw [← exists_spot_iff]
    constructor
    · rintro ⟨place, found⟩
      obtain ⟨spot, isOffset, _⟩ := offsetInLine?_eq_some_iff.mp found
      exact ⟨spot, isOffset⟩
    · rintro ⟨spot, rfl⟩
      exact ⟨_, offsetInLine?_offset spot⟩
  · intro offset place found
    obtain ⟨spot, rfl, rfl⟩ := offsetInLine?_eq_some_iff.mp found
    have sameByte := getElem?_utf8_offset spot
    rw [flatMap_text_read] at sameByte
    exact ⟨inCodePiece_iff.mpr ⟨spot, rfl⟩, sameByte⟩
  · intro offset other place otherPlace found otherFound increasing
    obtain ⟨spot, rfl, rfl⟩ := offsetInLine?_eq_some_iff.mp found
    obtain ⟨otherSpot, rfl, rfl⟩ := offsetInLine?_eq_some_iff.mp otherFound
    exact Ruler.offset_lt_offset lineRuler increasing
  · intro place inPiece
    obtain ⟨spot, rfl⟩ := inCodePiece_iff.mp inPiece
    refine ⟨_, offsetInLine?_offset spot, ?_⟩
    intro other otherFound
    obtain ⟨otherSpot, rfl, samePlace⟩ := offsetInLine?_eq_some_iff.mp otherFound
    exact Ruler.offset_eq_offset _ samePlace

/-- The line starts in a comment, and two comments stand between its two code pieces. -/
theorem offsetInLine?_exact_around_comments :
    let text : Text := "x */ é /* y *//* z */b".toList
    let line := read text true
    line.code = " é  b".toList ∧ line.offsetInLine? 5 = some 22 ∧ ¬line.IsJoint 5 ∧
      line.InCodePiece 22 ∧ text.utf8[22]? = line.code.utf8[5]? ∧
      line.offsetInLine? 4 = none ∧ ∃ offset, line.offsetInLine? offset = some 6 := by
  intro text line
  have found : line.offsetInLine? 5 = some 22 := by decide +kernel
  obtain ⟨defined, keeps, _, onto⟩ := offsetInLine?_exact text true
  obtain ⟨_, notJoint⟩ := (defined 5).mp ⟨22, found⟩
  obtain ⟨inPiece, sameByte⟩ := keeps 5 22 found
  obtain ⟨offset, isPlace, _⟩ := onto 6 (by decide +kernel)
  exact ⟨by decide +kernel, found, notJoint, inPiece, sameByte, by decide +kernel, offset, isPlace⟩

end Line

end Dialect
