/-!
# Texts

A text is the list of its characters. A position in a text is a byte offset into its UTF-8 form, so
only some numbers are positions: `splitAt?` cuts a text at a byte offset and fails beyond the end and
inside a character.

Main statements: cutting a text at the size of a prefix gives back that prefix
(`splitAt?_append`), every cut puts the text together again (`append_eq_of_splitAt?`), and joining
the parts of a text undoes splitting it (`joinWith_splitOn`).
-/

namespace Dialect

/-- A text is the list of its characters. -/
abbrev Text := List Char

namespace Text

/-! ## Byte offsets -/

/-- The number of bytes in the UTF-8 form of a text. -/
def bytes : Text → Nat
  | [] => 0
  | c :: rest => c.utf8Size + bytes rest

/-- Cuts a text at a byte offset. There is no cut beyond the end or inside a character. -/
def splitAt? : Text → Nat → Option (Text × Text)
  | text, 0 => some ([], text)
  | [], _ + 1 => none
  | c :: rest, n + 1 =>
      if c.utf8Size ≤ n + 1 then
        (splitAt? rest (n + 1 - c.utf8Size)).map fun (before, after) => (c :: before, after)
      else none

@[simp]
theorem bytes_nil : bytes [] = 0 := rfl

@[simp]
theorem bytes_cons (c : Char) (rest : Text) :
    bytes (c :: rest) = c.utf8Size + bytes rest := rfl

@[simp]
theorem bytes_append (left right : Text) :
    bytes (left ++ right) = bytes left + bytes right := by
  induction left with
  | nil => simp
  | cons c rest inductionHypothesis =>
      simp only [List.cons_append, bytes_cons, inductionHypothesis, Nat.add_assoc]

theorem bytes_singleton (c : Char) : bytes [c] = c.utf8Size := rfl

theorem bytes_pos {text : Text} (nonempty : text ≠ []) : 0 < text.bytes := by
  cases text with
  | nil => exact absurd rfl nonempty
  | cons c rest => exact Nat.lt_add_right _ c.utf8Size_pos

@[simp]
theorem splitAt?_zero (text : Text) : splitAt? text 0 = some ([], text) := by
  cases text <;> rfl

/-- A cut at the size of a prefix separates exactly that prefix. -/
theorem splitAt?_append (before after : Text) :
    splitAt? (before ++ after) before.bytes = some (before, after) := by
  induction before with
  | nil => simp
  | cons c rest inductionHypothesis =>
      obtain ⟨size, sizeEquality⟩ : ∃ size, c.utf8Size + bytes rest = size + 1 :=
        Nat.exists_eq_add_one.mpr (Nat.lt_add_right _ c.utf8Size_pos)
      have fits : c.utf8Size ≤ size + 1 := by omega
      have remaining : size + 1 - c.utf8Size = bytes rest := by omega
      simp only [List.cons_append, bytes_cons, sizeEquality, splitAt?, if_pos fits, remaining,
        inductionHypothesis, Option.map_some]

/-- The two sides of a cut are the text, and the first has as many bytes as the offset says. -/
theorem append_eq_of_splitAt? {text before after : Text} {offset : Nat}
    (cut : splitAt? text offset = some (before, after)) :
    before ++ after = text ∧ before.bytes = offset := by
  induction text generalizing offset before with
  | nil =>
      cases offset with
      | zero => simp_all
      | succ n => simp [splitAt?] at cut
  | cons c rest inductionHypothesis =>
      cases offset with
      | zero => simp_all
      | succ n =>
          rw [splitAt?] at cut
          split at cut
          next fits =>
            obtain ⟨⟨left, right⟩, restCut, equality⟩ := Option.map_eq_some_iff.mp cut
            simp only [Prod.mk.injEq] at equality
            obtain ⟨rfl, rfl⟩ := equality
            obtain ⟨joined, size⟩ := inductionHypothesis restCut
            refine ⟨by rw [List.cons_append, joined], ?_⟩
            rw [bytes_cons, size]
            omega
          next => simp at cut

/-! ## Splitting and joining -/

/-- The parts of a text between the occurrences of a separator; there is always at least one. -/
def splitOn (separator : Char) : Text → List Text
  | [] => [[]]
  | c :: rest =>
      if c = separator then [] :: splitOn separator rest
      else
        match splitOn separator rest with
        | [] => [[c]]
        | first :: others => (c :: first) :: others

def joinWith (separator : Text) : List Text → Text
  | [] => []
  | [part] => part
  | part :: others => part ++ separator ++ joinWith separator others

theorem splitOn_ne_nil (separator : Char) (text : Text) : splitOn separator text ≠ [] := by
  cases text with
  | nil => simp [splitOn]
  | cons c rest =>
      rw [splitOn]
      split
      · simp
      · split <;> simp

/-- Splitting at a separator loses nothing. -/
theorem joinWith_splitOn (separator : Char) (text : Text) :
    joinWith [separator] (splitOn separator text) = text := by
  induction text with
  | nil => rfl
  | cons c rest inductionHypothesis =>
      rw [splitOn]
      cases parts : splitOn separator rest with
      | nil => exact absurd parts (splitOn_ne_nil separator rest)
      | cons first others =>
          rw [parts] at inductionHypothesis
          split
          next equality =>
            rw [joinWith, inductionHypothesis, equality]
            · rfl
            · simp
          next =>
            cases others with
            | nil =>
                simp only [joinWith] at inductionHypothesis ⊢
                rw [inductionHypothesis]
            | cons second more =>
                simp only [joinWith, List.cons_append] at inductionHypothesis ⊢
                rw [inductionHypothesis]

/-- The lines of a text; a line feed ends each line but the last. -/
def lines (text : Text) : List Text := splitOn '\n' text

def unlines (lines : List Text) : Text := joinWith ['\n'] lines

/-- A text is put together again from its lines. -/
theorem unlines_lines (text : Text) : unlines (lines text) = text :=
  joinWith_splitOn '\n' text

end Text

end Dialect
