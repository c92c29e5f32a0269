import Dialect.Text.Literal

/-!
# Bytes and slices

A text is searched through the bytes of its UTF-8 form and cut at byte offsets. A slice between two
offsets exists only if they are in order, not beyond the end of the text and not inside a character
(`Text.slice?_eq_some_iff`). The bytes of a character that is not ASCII are all above the ASCII range, so
a search for ASCII bytes passes over it (`Text.passes_wide`), and a search that has skipped the first byte
of any character passes over the others (`Text.passes_others`).
-/

namespace Dialect

namespace Text

/-! ## Slices -/

/-- The part of a text between two byte offsets. -/
def slice? (text : Text) (start stop : Nat) : Option Text :=
  if start ≤ stop then
    (text.splitAt? start).bind fun (_, rest) => (rest.splitAt? (stop - start)).map Prod.fst
  else none

/-- The part of a text behind a byte offset. -/
def sliceFrom? (text : Text) (start : Nat) : Option Text := (text.splitAt? start).map Prod.snd

/-- The part of a text before a byte offset. -/
def sliceTo? (text : Text) (stop : Nat) : Option Text := (text.splitAt? stop).map Prod.fst

theorem slice?_eq_some_iff {text part : Text} {start stop : Nat} :
    text.slice? start stop = some part ↔
      ∃ before after, text = before ++ part ++ after ∧ start = before.bytes ∧
        stop = before.bytes + part.bytes := by
  constructor
  · intro sliced
    rw [slice?] at sliced
    split at sliced
    next ordered =>
      obtain ⟨⟨before, rest⟩, cut, inner⟩ := Option.bind_eq_some_iff.mp sliced
      obtain ⟨⟨middle, after⟩, restCut, rfl⟩ := Option.map_eq_some_iff.mp inner
      obtain ⟨rfl, size⟩ := append_eq_of_splitAt? cut
      obtain ⟨rfl, partSize⟩ := append_eq_of_splitAt? restCut
      exact ⟨before, after, (List.append_assoc ..).symm, size.symm, by simp only; omega⟩
    next => simp at sliced
  · intro split
    obtain ⟨before, after, rfl, rfl, rfl⟩ := split
    rw [slice?, if_pos (Nat.le_add_right ..), List.append_assoc, splitAt?_append, Option.bind_some,
      Nat.add_sub_cancel_left]
    simp only [splitAt?_append, Option.map_some]

theorem slice?_append (before part after : Text) :
    (before ++ part ++ after).slice? before.bytes (before.bytes + part.bytes) = some part :=
  slice?_eq_some_iff.mpr ⟨before, after, rfl, rfl, rfl⟩

theorem sliceFrom?_append (before after : Text) :
    (before ++ after).sliceFrom? before.bytes = some after := by
  rw [sliceFrom?, splitAt?_append, Option.map_some]

theorem sliceTo?_append (before after : Text) :
    (before ++ after).sliceTo? before.bytes = some before := by
  rw [sliceTo?, splitAt?_append, Option.map_some]

/-- What is behind a slice that is not empty is shorter than the text. -/
theorem length_lt_of_sliceFrom? {text rest : Text} {start : Nat} (sliced : text.sliceFrom? start = some rest)
    (positive : 0 < start) : rest.length < text.length := by
  obtain ⟨⟨before, after⟩, cut, rfl⟩ := Option.map_eq_some_iff.mp sliced
  obtain ⟨rfl, size⟩ := append_eq_of_splitAt? cut
  cases before with
  | nil =>
      rw [← size, bytes_nil] at positive
      exact absurd positive (Nat.lt_irrefl 0)
  | cons c others =>
      rw [List.cons_append, List.length_cons, List.length_append]
      exact Nat.lt_succ_of_le (Nat.le_add_left ..)

/-! ## Looking for a text -/

/-- The byte offset of the first place where another text occurs. -/
def seek? (text needle : Text) : Option Nat :=
  match text with
  | [] => if needle = [] then some 0 else none
  | c :: rest =>
      if needle.isPrefixOf (c :: rest) then some 0
      else (seek? rest needle).map fun offset => c.utf8Size + offset

theorem seek?_of_not_mem {text : Text} {c : Char} (absent : c ∉ text) : text.seek? [c] = none := by
  induction text with
  | nil => rfl
  | cons d rest inductionHypothesis =>
      rw [List.mem_cons, not_or] at absent
      obtain ⟨different, absentBehind⟩ := absent
      rw [seek?, if_neg (by simpa using different), inductionHypothesis absentBehind, Option.map_none]

theorem seek?_append_cons {front : Text} {c : Char} (absent : c ∉ front) (rest : Text) :
    (front ++ c :: rest).seek? [c] = some front.bytes := by
  induction front with
  | nil => simp [seek?]
  | cons d others inductionHypothesis =>
      rw [List.mem_cons, not_or] at absent
      obtain ⟨different, absentBehind⟩ := absent
      rw [List.cons_append, seek?, if_neg (by simpa using different), inductionHypothesis absentBehind]
      rfl

/-! ## Bytes -/

/-- The bytes of the UTF-8 form of a text. -/
def utf8 (text : Text) : List UInt8 := text.flatMap String.utf8EncodeChar

theorem utf8_append (left right : Text) : (left ++ right).utf8 = left.utf8 ++ right.utf8 :=
  List.flatMap_append

theorem utf8_cons (c : Char) (rest : Text) : utf8 (c :: rest) = String.utf8EncodeChar c ++ utf8 rest :=
  List.flatMap_cons ..

theorem length_utf8 (text : Text) : text.utf8.length = text.bytes := by
  induction text with
  | nil => rfl
  | cons c rest inductionHypothesis =>
      rw [utf8_cons, List.length_append, String.length_utf8EncodeChar, bytes_cons, inductionHypothesis]

/-- The byte of an ASCII character. -/
def asciiByte (c : Char) : UInt8 := UInt8.ofNat c.toNat

theorem toNat_asciiByte {c : Char} (ascii : c.toNat < 128) : (asciiByte c).toNat = c.toNat :=
  UInt8.toNat_ofNat_of_lt (Nat.lt_trans ascii (by decide))

theorem asciiByte_eq_iff {c d : Char} (ascii : c.toNat < 128) (otherAscii : d.toNat < 128) :
    asciiByte c = asciiByte d ↔ c = d := by
  constructor
  · intro same
    have sameNumber := congrArg UInt8.toNat same
    rw [toNat_asciiByte ascii, toNat_asciiByte otherAscii] at sameNumber
    exact Char.toNat_inj.mp sameNumber
  · exact congrArg asciiByte

theorem ne_asciiByte_of_wide {byte : UInt8} {c : Char} (wide : 128 ≤ byte.toNat) (ascii : c.toNat < 128) :
    byte ≠ asciiByte c := by
  intro same
  rw [same, toNat_asciiByte ascii] at wide
  omega

theorem utf8EncodeChar_of_ascii {c : Char} (ascii : c.toNat < 128) :
    String.utf8EncodeChar c = [asciiByte c] :=
  if_pos (Nat.le_of_lt_succ ascii)

theorem utf8Size_of_ascii {c : Char} (ascii : c.toNat < 128) : c.utf8Size = 1 := by
  rw [← String.length_utf8EncodeChar, utf8EncodeChar_of_ascii ascii]
  rfl

private theorem le_toNat_ofNat {n : Nat} (least : 128 ≤ n) (greatest : n < 256) :
    128 ≤ (UInt8.ofNat n).toNat := by
  have same : (UInt8.ofNat n).toNat = n := UInt8.toNat_ofNat_of_lt greatest
  rwa [same]

theorem wide_of_mem_utf8EncodeChar {c : Char} (wide : 128 ≤ c.toNat) {byte : UInt8}
    (member : byte ∈ String.utf8EncodeChar c) : 128 ≤ byte.toNat := by
  have notAscii : ¬c.val.toNat ≤ 127 := Nat.not_le_of_lt wide
  rw [String.utf8EncodeChar, if_neg notAscii] at member
  split at member
  next =>
    simp only [List.mem_cons, List.not_mem_nil, or_false] at member
    obtain rfl | rfl := member <;> exact le_toNat_ofNat (by omega) (by omega)
  next =>
    split at member
    next =>
      simp only [List.mem_cons, List.not_mem_nil, or_false] at member
      obtain rfl | rfl | rfl := member <;> exact le_toNat_ofNat (by omega) (by omega)
    next =>
      simp only [List.mem_cons, List.not_mem_nil, or_false] at member
      obtain rfl | rfl | rfl | rfl := member <;> exact le_toNat_ofNat (by omega) (by omega)

/-- A byte at an offset where no character starts is inside a character, and so it is not ASCII. -/
theorem wide_of_splitAt?_eq_none {text : Text} {offset : Nat} {byte : UInt8}
    (uncut : splitAt? text offset = none) (here : text.utf8[offset]? = some byte) :
    128 ≤ byte.toNat := by
  induction text generalizing offset with
  | nil => simp [utf8] at here
  | cons c rest inductionHypothesis =>
      cases offset with
      | zero => simp at uncut
      | succ n =>
          rw [splitAt?] at uncut
          have size := String.length_utf8EncodeChar c
          rw [utf8_cons] at here
          split at uncut
          next fits =>
            rw [List.getElem?_append_right (by omega), size] at here
            exact inductionHypothesis (Option.map_eq_none_iff.mp uncut) here
          next inside =>
            rw [List.getElem?_append_left (by omega)] at here
            by_cases ascii : c.toNat < 128
            · rw [utf8Size_of_ascii ascii] at inside
              omega
            · exact wide_of_mem_utf8EncodeChar (Nat.le_of_not_lt ascii) (List.mem_of_getElem? here)

/-- The bytes of a part stand where the part starts. -/
theorem getElem?_utf8_append (before part after : Text) {index : Nat} (inside : index < part.bytes) :
    (before ++ (part ++ after)).utf8[before.bytes + index]? = part.utf8[index]? := by
  rw [utf8_append, ← length_utf8 before, List.getElem?_append_right (Nat.le_add_right ..),
    Nat.add_sub_cancel_left, utf8_append]
  exact List.getElem?_append_left (by rwa [length_utf8])

/-- The bytes of a character stand where it starts. -/
theorem getElem?_utf8 (before : Text) (c : Char) (rest : Text) {index : Nat} (inside : index < c.utf8Size) :
    (before ++ c :: rest).utf8[before.bytes + index]? = (String.utf8EncodeChar c)[index]? := by
  have single : utf8 [c] = String.utf8EncodeChar c := List.flatMap_singleton ..
  rw [← single]
  exact getElem?_utf8_append before [c] rest inside

theorem getElem?_utf8_end (text : Text) : text.utf8[text.bytes]? = none := by
  rw [← length_utf8, List.getElem?_eq_none (Nat.le_refl _)]

theorem getElem?_utf8_ascii (before : Text) {c : Char} (rest : Text) (ascii : c.toNat < 128) :
    (before ++ c :: rest).utf8[before.bytes]? = some (asciiByte c) := by
  have first := getElem?_utf8 before c rest c.utf8Size_pos
  rwa [Nat.add_zero, utf8EncodeChar_of_ascii ascii] at first

theorem exists_byte (before : Text) (c : Char) (rest : Text) :
    ∃ byte, (before ++ c :: rest).utf8[before.bytes]? = some byte ∧ byte ∈ String.utf8EncodeChar c := by
  have positive : 0 < (String.utf8EncodeChar c).length := by
    rw [String.length_utf8EncodeChar]
    exact c.utf8Size_pos
  have first := getElem?_utf8 before c rest c.utf8Size_pos
  rw [Nat.add_zero, List.getElem?_eq_getElem positive] at first
  exact ⟨_, first, List.getElem_mem positive⟩

theorem exists_wide_byte (before : Text) {c : Char} (rest : Text) (wide : 128 ≤ c.toNat) :
    ∃ byte, (before ++ c :: rest).utf8[before.bytes]? = some byte ∧ 128 ≤ byte.toNat := by
  obtain ⟨byte, here, member⟩ := exists_byte before c rest
  exact ⟨byte, here, wide_of_mem_utf8EncodeChar wide member⟩

/-- An ASCII byte stands where a character starts only if it is that character. -/
theorem getElem?_utf8_eq_asciiByte_iff (before rest : Text) {c : Char} (ascii : c.toNat < 128) :
    (before ++ rest).utf8[before.bytes]? = some (asciiByte c) ↔ ∃ others, rest = c :: others := by
  constructor
  · intro here
    cases rest with
    | nil => simp [getElem?_utf8_end] at here
    | cons d others =>
        refine ⟨others, ?_⟩
        by_cases otherAscii : d.toNat < 128
        · rw [getElem?_utf8_ascii before others otherAscii] at here
          rw [(asciiByte_eq_iff otherAscii ascii).mp (Option.some.inj here)]
        · obtain ⟨byte, isByte, wide⟩ := exists_wide_byte before others (Nat.le_of_not_lt otherAscii)
          rw [isByte] at here
          exact absurd (Option.some.inj here) (ne_asciiByte_of_wide wide ascii)
  · rintro ⟨others, rfl⟩
    exact getElem?_utf8_ascii before others ascii

theorem getElem?_utf8_second (before rest : Text) {c d : Char} (ascii : c.toNat < 128)
    (otherAscii : d.toNat < 128) :
    (before ++ c :: rest).utf8[before.bytes + 1]? = some (asciiByte d) ↔ ∃ others, rest = d :: others := by
  have second := getElem?_utf8_eq_asciiByte_iff (before ++ [c]) rest otherAscii
  rwa [bytes_append, bytes_singleton, utf8Size_of_ascii ascii, List.append_assoc] at second

theorem bytes_lt_bytes_append (before : Text) {part : Text} (nonempty : part ≠ []) :
    before.bytes < (before ++ part).bytes := by
  rw [bytes_append]
  exact Nat.lt_add_of_pos_right (bytes_pos nonempty)

section Search

variable {α : Type} {search : Nat → α} {text before rest : Text} {c : Char}
  (passes : ∀ index byte, text.utf8[index]? = some byte → 128 ≤ byte.toNat →
    search index = search (index + 1)) (split : text = before ++ c :: rest)

include passes split

private theorem passes_bytes {first : Nat}
    (wide : ∀ index byte, first ≤ index → (String.utf8EncodeChar c)[index]? = some byte →
      128 ≤ byte.toNat) (count : Nat) (inside : first + count ≤ c.utf8Size) :
    search (before.bytes + first) = search (before.bytes + first + count) := by
  induction count with
  | zero => rfl
  | succ count inductionHypothesis =>
      have here : first + count < c.utf8Size := by omega
      obtain ⟨byte, isByte⟩ : ∃ byte, (String.utf8EncodeChar c)[first + count]? = some byte :=
        ⟨_, List.getElem?_eq_getElem (by rwa [String.length_utf8EncodeChar])⟩
      have inText : text.utf8[before.bytes + first + count]? = some byte := by
        rw [split, Nat.add_assoc, getElem?_utf8 before c rest here, isByte]
      rw [inductionHypothesis (by omega), passes _ byte inText
        (wide (first + count) byte (Nat.le_add_right ..) isByte), Nat.add_assoc (before.bytes + first)]

/-- A search that passes over bytes outside ASCII passes over characters outside ASCII. -/
theorem passes_wide (wide : 128 ≤ c.toNat) :
    search before.bytes = search (before.bytes + c.utf8Size) := by
  have allWide : ∀ index byte, 0 ≤ index → (String.utf8EncodeChar c)[index]? = some byte →
      128 ≤ byte.toNat := fun _ _ _ isByte =>
    wide_of_mem_utf8EncodeChar wide (List.mem_of_getElem? isByte)
  have passed := passes_bytes passes split allWide c.utf8Size (by omega)
  rwa [Nat.add_zero] at passed

/-- Such a search can also start behind the first byte of a character. -/
theorem passes_others : search (before.bytes + 1) = search (before.bytes + c.utf8Size) := by
  have othersWide : ∀ index byte, 1 ≤ index → (String.utf8EncodeChar c)[index]? = some byte →
      128 ≤ byte.toNat := by
    intro index byte positive isByte
    by_cases ascii : c.toNat < 128
    · rw [utf8EncodeChar_of_ascii ascii, List.getElem?_eq_none positive] at isByte
      simp at isByte
    · exact wide_of_mem_utf8EncodeChar (Nat.le_of_not_lt ascii) (List.mem_of_getElem? isByte)
  have positive := c.utf8Size_pos
  have passed := passes_bytes passes split othersWide (c.utf8Size - 1) (by omega)
  rw [passed, Nat.add_assoc, Nat.add_sub_cancel' positive]

end Search

end Text

end Dialect
