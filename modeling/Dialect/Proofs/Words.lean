import Dialect.Proofs.SlicedRun

/-!
# The leftmost whole word

A word is looked for from left to right, and where it is glued to an identifier the search goes on with the
next character. So it comes to every place where the word occurs, also if occurrences overlap. Main
statement: the search finds the first place where the word stands alone, and nothing exactly if there is no
such place (`Text.findWord?_leftmost`).
-/

namespace Dialect

/-- The characters of identifiers, one by one. -/
def identifierChars : List Char :=
  "ABCDEFGHIJKLMNOPQRSTUVWXYZabcdefghijklmnopqrstuvwxyz0123456789_$".toList

theorem isIdentifierChar_iff_mem (c : Char) : isIdentifierChar c = true ↔ c ∈ identifierChars := by
  constructor
  · intro identifier
    have listed : (List.range 128).all (fun n =>
        !isIdentifierChar (Char.ofNat n) || identifierChars.contains (Char.ofNat n)) = true := by
      decide +kernel
    have ascii : c.toNat < 128 := by
      rw [isIdentifierChar_iff_toNat] at identifier
      omega
    have here := List.all_eq_true.mp listed c.toNat (List.mem_range.mpr ascii)
    rw [Char.ofNat_toNat, identifier] at here
    simpa using here
  · have identifiers : identifierChars.all isIdentifierChar = true := by decide
    exact List.all_eq_true.mp identifiers c

namespace Text

/-- A word occurs at a byte offset of a text, and no character next to it belongs to an identifier. -/
def HoldsWordAt (text word : Text) (place : Nat) : Prop :=
  ∃ before after, text = before ++ word ++ after ∧ place = before.bytes ∧
    (∀ c, before.getLast? = some c → c ∉ identifierChars) ∧
    ∀ c, after.head? = some c → c ∉ identifierChars

theorem any_isIdentifierChar_eq_false_iff (neighbour : Option Char) :
    neighbour.any isIdentifierChar = false ↔ ∀ c, neighbour = some c → c ∉ identifierChars := by
  cases neighbour with
  | none => simp
  | some c =>
      rw [Option.any_some, Bool.eq_false_iff, ne_eq, isIdentifierChar_iff_mem]
      simp

theorem holdsWordAt_iff {text word : Text} {place : Nat} :
    text.HoldsWordAt word place ↔ ∃ before after, text = before ++ word ++ after ∧ place = before.bytes ∧
      standsBetween before.getLast? after.head? = true := by
  simp only [HoldsWordAt, standsBetween_iff, any_isIdentifierChar_eq_false_iff]

theorem holdsWordAt_of_findWord? {text word : Text} {place : Nat}
    (found : findWord? text word = some place) : text.HoldsWordAt word place :=
  holdsWordAt_iff.mpr (exists_of_findWord? found)

/-- A search that starts at or before a place where the word stands alone finds the word there or earlier. -/
theorem exists_findWordFrom?_le {word : Text} (nonempty : word ≠ []) (front lead after : Text)
    (alone : standsBetween (front ++ lead).getLast? after.head? = true) :
    ∃ place, findWordFrom? word front.getLast? front.bytes (lead ++ (word ++ after)) = some place ∧
      place ≤ (front ++ lead).bytes := by
  induction lead generalizing front with
  | nil =>
      rw [List.append_nil] at alone ⊢
      exact ⟨front.bytes, findWordFrom?_of_standsBetween nonempty alone front.bytes, Nat.le_refl _⟩
  | cons d lead inductionHypothesis =>
      rw [List.cons_append, findWordFrom?]
      split
      next =>
        refine ⟨front.bytes, rfl, ?_⟩
        rw [bytes_append]
        exact Nat.le_add_right ..
      next =>
        have joined : front ++ d :: lead = front ++ [d] ++ lead := by simp
        rw [joined] at alone ⊢
        have later := inductionHypothesis (front ++ [d]) alone
        rwa [List.getLast?_concat, bytes_append front [d], bytes_singleton] at later

section Word

variable {word : Text} (nonempty : word ≠ [])

include nonempty

theorem exists_findWord?_le {text : Text} {place : Nat} (holds : text.HoldsWordAt word place) :
    ∃ first, findWord? text word = some first ∧ first ≤ place := by
  obtain ⟨before, after, rfl, rfl, alone⟩ := holdsWordAt_iff.mp holds
  rw [findWord?, if_neg nonempty, List.append_assoc]
  exact exists_findWordFrom?_le nonempty [] before after alone

theorem findWord?_eq_some_iff (text : Text) (place : Nat) :
    findWord? text word = some place ↔
      text.HoldsWordAt word place ∧ ∀ other, text.HoldsWordAt word other → place ≤ other := by
  constructor
  · intro found
    refine ⟨holdsWordAt_of_findWord? found, ?_⟩
    intro other holds
    obtain ⟨first, isFirst, before⟩ := exists_findWord?_le nonempty holds
    rw [found] at isFirst
    rwa [Option.some.inj isFirst]
  · rintro ⟨holds, least⟩
    obtain ⟨first, isFirst, before⟩ := exists_findWord?_le nonempty holds
    have notBefore := least first (holdsWordAt_of_findWord? isFirst)
    rw [isFirst, Nat.le_antisymm before notBefore]

theorem findWord?_eq_none_iff (text : Text) :
    findWord? text word = none ↔ ∀ place, ¬text.HoldsWordAt word place := by
  constructor
  · intro notFound place holds
    obtain ⟨first, isFirst, _⟩ := exists_findWord?_le nonempty holds
    simp [notFound] at isFirst
  · intro nowhere
    cases found : findWord? text word with
    | none => rfl
    | some place => exact absurd (holdsWordAt_of_findWord? found) (nowhere place)

end Word

/-- The search gives the least place where the word stands alone, or nothing if there is none. So does the
search by slices, which goes on one character behind the start of an occurrence that does not stand alone: it
ends, and no slice that it takes fails. -/
theorem findWord?_leftmost {word : Text} (nonempty : word ≠ []) (text : Text) :
    (∀ place, findWord? text word = some place ↔
      text.HoldsWordAt word place ∧ ∀ other, text.HoldsWordAt word other → place ≤ other) ∧
    (findWord? text word = none ↔ ∀ place, ¬text.HoldsWordAt word place) ∧
    seekWord? text word = some (findWord? text word) :=
  ⟨findWord?_eq_some_iff nonempty text, findWord?_eq_none_iff nonempty text, seekWord?_eq text word⟩

/-- The first of two overlapping occurrences is glued to a letter, so the second is found. -/
theorem findWord?_leftmost_of_overlapping :
    "éé".toList ≠ [] ∧ findWord? "xééé".toList "éé".toList = some 3 ∧
      HoldsWordAt "xééé".toList "éé".toList 3 ∧
      (∀ other, HoldsWordAt "xééé".toList "éé".toList other → 3 ≤ other) ∧
      seekWord? "xééé".toList "éé".toList = some (some 3) := by
  have nonempty : "éé".toList ≠ [] := by decide
  have found : findWord? "xééé".toList "éé".toList = some 3 := by decide
  obtain ⟨exactly, _, sliced⟩ := findWord?_leftmost nonempty "xééé".toList
  obtain ⟨holds, least⟩ := (exactly 3).mp found
  exact ⟨nonempty, found, holds, least, sliced.trans (congrArg some found)⟩

end Text

end Dialect
