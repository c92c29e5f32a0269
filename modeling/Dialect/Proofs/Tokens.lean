import Mathlib.Data.List.SplitBy
import Dialect.Proofs.RowOrder

/-!
# Replacing keywords as a map of tokens

A text is a sequence of tokens: the maximal runs of identifier characters, and the other characters one
by one. A search with word boundaries finds keywords in another way, but what it does comes to this:
each token that is a keyword gives way to its equivalent, and all others stay. Main statement:
`Table.replaceWords_maps_tokens`.
-/

namespace Dialect

namespace Text

/-! ## Tokens -/

/-- The maximal runs of identifier characters in a text, and its other characters one by one. -/
def tokens (text : Text) : List Text :=
  text.splitBy fun c d => isIdentifierChar c && isIdentifierChar d

/-- A maximal run of identifier characters between two texts. -/
structure IsRun (before run after : Text) : Prop where
  nonempty : run ≠ []
  identifier : ∀ c ∈ run, isIdentifierChar c = true
  alone : standsBetween before.getLast? after.head? = true

/-- A text can be cut between two characters that do not belong to one run. -/
theorem tokens_append (left right : Text)
    (separated : left.getLast?.any isIdentifierChar = false ∨
      right.head?.any isIdentifierChar = false) :
    tokens (left ++ right) = tokens left ++ tokens right := by
  apply List.splitBy_append
  intro c isLast d isFirst
  rw [Option.mem_def.mp isLast, Option.mem_def.mp isFirst, Option.any_some, Option.any_some] at separated
  rw [Bool.and_eq_false_iff]
  exact separated

theorem tokens_cons_separator {c : Char} (rest : Text) (separator : isIdentifierChar c = false) :
    tokens (c :: rest) = [c] :: tokens rest :=
  tokens_append [c] rest (Or.inl separator)

theorem tokens_run {run : Text} (nonempty : run ≠ [])
    (identifier : ∀ c ∈ run, isIdentifierChar c = true) : tokens run = [run] := by
  apply List.splitBy_of_isChain nonempty
  apply List.Pairwise.isChain
  rw [List.pairwise_iff_forall_sublist]
  intro c d inRun
  rw [identifier c (inRun.subset (by simp)), identifier d (inRun.subset (by simp)), Bool.and_self]

theorem tokens_cons_identifier {c : Char} (rest : Text) (identifier : isIdentifierChar c = true) :
    tokens (c :: rest) =
      (c :: rest.takeWhile isIdentifierChar) :: tokens (rest.dropWhile isIdentifierChar) := by
  have cut := tokens_append (c :: rest.takeWhile isIdentifierChar) (rest.dropWhile isIdentifierChar)
    (Or.inr (any_head?_dropWhile rest))
  rwa [run_append, tokens_run (List.cons_ne_nil _ _) (isIdentifierChar_of_mem_run rest identifier)]
    at cut

end Text

/-- What rules make of a token: a keyword gives way to its equivalent, and anything else stays. -/
def Rule.image (rules : List Rule) (token : Text) : Text :=
  match rules.find? fun rule => rule.keyword == token with
  | none => token
  | some rule => rule.equivalent

namespace Table

theorem equivalent_eq_image {read? : Text → Option Pattern} {rules : List Rule} {table : Table}
    (accepted : ofRules read? rules = .ok table)
    (token : Text) : table.equivalent token = Rule.image rules token := by
  obtain ⟨_, rfl⟩ := ofRules_eq_ok_iff.mp accepted
  have sameKeyword : ((fun row : Row => row.keyword == token) ∘ Rule.row read?) =
      fun rule => rule.keyword == token := rfl
  rw [equivalent, row?, Rule.image, List.find?_map, sameKeyword]
  cases rules.find? fun rule => rule.keyword == token with
  | none => rfl
  | some rule => rfl

section Identifiers

variable {table : Table} (identifiers : ∀ word ∈ table.keywords, word.isIdentifier = true)

include identifiers

/-- A character that belongs to no identifier is no keyword. -/
theorem equivalent_separator {c : Char} (separator : isIdentifierChar c = false) :
    table.equivalent [c] = [c] := by
  apply equivalent_of_not_mem
  intro member
  have identifier := Text.isIdentifierChar_of_isIdentifier (identifiers [c] member) c
    List.mem_cons_self
  rw [identifier] at separator
  exact absurd separator (by decide)

theorem rewrittenText_ofText : (text : Text) →
    table.rewrittenText (Lexeme.ofText text) = text.tokens.flatMap table.equivalent
  | [] => rfl
  | c :: rest => by
      cases identifier : isIdentifierChar c with
      | false =>
          rw [Lexeme.ofText_cons_separator rest identifier, rewrittenText_other,
            rewrittenText_ofText rest, Text.tokens_cons_separator rest identifier, List.flatMap_cons,
            equivalent_separator identifiers identifier]
          rfl
      | true =>
          rw [Lexeme.ofText_cons_identifier rest identifier, rewrittenText_word,
            rewrittenText_ofText (rest.dropWhile isIdentifierChar),
            Text.tokens_cons_identifier rest identifier, List.flatMap_cons]
termination_by text => text.length
decreasing_by
  · simp
  · have := (List.dropWhile_suffix isIdentifierChar (l := rest)).length_le
    simp only [List.length_cons]
    omega

theorem replaceWords_eq_flatMap_tokens (text : Text) :
    table.replaceWords text = text.tokens.flatMap table.equivalent :=
  (replaceWords_eq identifiers text).trans (rewrittenText_ofText identifiers text)

/-- What a run gives way to touches neither the text before it nor the text behind it. -/
theorem replaceWords_run {before run after : Text} (isRun : Text.IsRun before run after) :
    table.replaceWords (before ++ run ++ after) =
      table.replaceWords before ++ table.equivalent run ++ table.replaceWords after := by
  obtain ⟨separatedBefore, separatedAfter⟩ := (Text.standsBetween_iff ..).mp isRun.alone
  simp only [replaceWords_eq_flatMap_tokens identifiers]
  rw [List.append_assoc, Text.tokens_append before (run ++ after) (Or.inl separatedBefore),
    Text.tokens_append run after (Or.inr separatedAfter),
    Text.tokens_run isRun.nonempty isRun.identifier]
  simp

end Identifiers

/-- Replacing keywords maps the tokens of a text one by one. So what takes the place of a keyword is not
looked at again, whatever it is; a run that only contains a keyword stays; and the order of the rules
does not matter. -/
theorem replaceWords_maps_tokens {read? : Text → Option Pattern} {rules : List Rule} {table : Table}
    (accepted : ofRules read? rules = .ok table) (text : Text) :
    table.replaceWords text = text.tokens.flatMap (Rule.image rules) ∧
    (∀ before run after, text = before ++ run ++ after → Text.IsRun before run after →
      table.replaceWords text =
        table.replaceWords before ++ Rule.image rules run ++ table.replaceWords after) ∧
    ∀ others, others.Perm rules → ∃ other, ofRules read? others = .ok other ∧
      other.replaceWords text = table.replaceWords text := by
  have wellFormed := wellFormed_of_ofRules accepted
  have sameImage : table.equivalent = Rule.image rules := funext (equivalent_eq_image accepted)
  refine ⟨?_, ?_, ?_⟩
  · rw [replaceWords_eq_flatMap_tokens wellFormed.identifiers, sameImage]
  · rintro before run after rfl isRun
    rw [replaceWords_run wellFormed.identifiers isRun, sameImage]
  · intro others reordered
    obtain ⟨other, otherAccepted, sameRows⟩ := exists_ofRules_of_perm accepted reordered
    exact ⟨other, otherAccepted, (replaceWords_of_perm wellFormed sameRows text).symm⟩

/-- Rules whose keywords and equivalents contain each other. -/
def entangledRules : List Rule := [.plain "is" "in", .plain "in" "is", .plain "isin" "is in isin"]

/-- The table of those rules. -/
def entangledTable : Table where
  rows := [ { keyword := "is".toList, equivalent := "in".toList, role := .plain, context := none },
    { keyword := "in".toList, equivalent := "is".toList, role := .plain, context := none },
    { keyword := "isin".toList, equivalent := "is in isin".toList, role := .plain, context := none } ]

theorem entangledTable_maps_tokens :
    ofRules Pattern.read? entangledRules = .ok entangledTable ∧
      entangledTable.replaceWords "is $in éin isin is_in".toList =
        "in $in éis is in isin is_in".toList ∧
      ∃ other, ofRules Pattern.read? entangledRules.reverse = .ok other ∧
        other.replaceWords "is $in éin isin is_in".toList = "in $in éis is in isin is_in".toList := by
  have accepted : ofRules Pattern.read? entangledRules = .ok entangledTable :=
    eq_ok_of_toOption (by decide +kernel)
  obtain ⟨mapped, _, reordered⟩ := replaceWords_maps_tokens accepted "is $in éin isin is_in".toList
  have images : (Text.tokens "is $in éin isin is_in".toList).flatMap (Rule.image entangledRules) =
      "in $in éis is in isin is_in".toList := by decide +kernel
  rw [images] at mapped
  obtain ⟨other, otherAccepted, same⟩ := reordered _ (List.reverse_perm entangledRules)
  exact ⟨accepted, mapped, other, otherAccepted, same.trans mapped⟩

end Table

end Dialect
