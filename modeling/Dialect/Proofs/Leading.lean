import Dialect.Proofs.Acceptance
import Dialect.Proofs.Characters
import Dialect.Proofs.Matching

/-!
# Leading keywords

The contexts of the built-in table are anchored at the start of the code. Only spaces and one closing
brace may stand before the keyword, and what follows it is never a part of the same identifier. So a
context says where the keyword is.
-/

namespace Dialect

namespace Text

/-- Blank characters, and perhaps a closing brace with blank characters behind it. -/
def IsLead (text : Text) : Prop :=
  ∃ first second, (∀ c ∈ first, isBlank c = true) ∧ (∀ c ∈ second, isBlank c = true) ∧
    (text = first ∨ text = first ++ '\x7d' :: second)

theorem isBlank_of_spaces {c : Char} (space : CharSet.spaces.contains c = true) :
    isBlank c = true := by
  have bounds : (9 ≤ c.toNat ∧ c.toNat ≤ 13) ∨ c.toNat = 32 := by
    have ranges : CharSet.spaces.ranges = [(9, 13), (32, 32)] := by decide
    rw [CharSet.contains, ranges] at space
    simp only [List.any_cons, List.any_nil, Bool.or_false, Bool.or_eq_true, Bool.and_eq_true,
      decide_eq_true_eq] at space
    omega
  rw [isBlank, List.any_eq_true]
  rcases bounds with control | space
  · exact ⟨(0x0009, 0x000D), by simp [blankRanges], by simpa using control⟩
  · exact ⟨(0x0020, 0x0020), by simp [blankRanges], by simp [space]⟩

theorem blank_or_brace_of_mem_lead {lead : Text} (isLead : lead.IsLead) {c : Char} (member : c ∈ lead) :
    isBlank c = true ∨ c = '\x7d' := by
  obtain ⟨first, second, firstBlank, secondBlank, equality⟩ := isLead
  rcases equality with rfl | rfl
  · exact Or.inl (firstBlank c member)
  · rcases List.mem_append.mp member with inFirst | inRest
    · exact Or.inl (firstBlank c inFirst)
    · rcases List.mem_cons.mp inRest with isBrace | inSecond
      · exact Or.inr isBrace
      · exact Or.inl (secondBlank c inSecond)

theorem isIdentifierChar_of_mem_lead {lead : Text} (isLead : lead.IsLead) :
    ∀ c ∈ lead, isIdentifierChar c = false := by
  intro c member
  rcases blank_or_brace_of_mem_lead isLead member with blank | isBrace
  · exact isIdentifierChar_of_isBlank blank
  · rw [isBrace]
    decide

/-- A word that a text starts with is found at once if it stands alone. -/
theorem findWordFrom?_of_standsBetween {word rest : Text} (nonempty : word ≠ []) {before : Option Char}
    (alone : standsBetween before rest.head? = true) (offset : Nat) :
    findWordFrom? word before offset (word ++ rest) = some offset := by
  obtain ⟨c, others, rfl⟩ := List.exists_cons_of_ne_nil nonempty
  have isPrefix : (c :: others).isPrefixOf (c :: (others ++ rest)) = true :=
    List.isPrefixOf_iff_prefix.mpr ⟨rest, rfl⟩
  have behind : (c :: (others ++ rest)).drop (c :: others).length = rest := by
    rw [← List.cons_append]
    exact List.drop_left
  rw [List.cons_append, findWordFrom?, behind, if_pos ⟨isPrefix, alone⟩]

/-- A word is found behind characters that belong to no word. -/
theorem findWordFrom?_of_separators {word rest : Text} (nonempty : word ≠ [])
    (identifier : ∀ c ∈ word, isIdentifierChar c = true)
    (separatedAfter : rest.head?.any isIdentifierChar = false) (lead : Text)
    (separators : ∀ c ∈ lead, isIdentifierChar c = false) (before : Option Char)
    (separatedBefore : before.any isIdentifierChar = false) (offset : Nat) :
    findWordFrom? word before offset (lead ++ (word ++ rest)) = some (offset + lead.bytes) := by
  induction lead generalizing before offset with
  | nil =>
      have alone : standsBetween before rest.head? = true :=
        (standsBetween_iff ..).mpr ⟨separatedBefore, separatedAfter⟩
      exact findWordFrom?_of_standsBetween nonempty alone offset
  | cons c others inductionHypothesis =>
      have separator := separators c List.mem_cons_self
      have notPrefix : ¬word.isPrefixOf (c :: (others ++ (word ++ rest))) = true := by
        intro isPrefix
        obtain ⟨first, more, rfl⟩ := List.exists_cons_of_ne_nil nonempty
        obtain ⟨_, joined⟩ := List.isPrefixOf_iff_prefix.mp isPrefix
        have same : first = c := (List.cons.inj joined).1
        have isIdentifier := identifier first List.mem_cons_self
        rw [same, separator] at isIdentifier
        exact absurd isIdentifier (by decide)
      rw [List.cons_append, findWordFrom?, if_neg (fun found => notPrefix found.1),
        inductionHypothesis (fun d member => separators d (List.mem_cons_of_mem c member)) (some c)
          (by simpa using separator), Text.bytes_cons, Nat.add_assoc]

end Text

namespace Pattern

open Cursor

/-- So many spaces or more. -/
def spaces (least : Nat) : Pattern := .repeated (.one .spaces) least none

/-- A keyword at the start of the code, perhaps behind a closing brace, and what has to follow it. -/
def leading (brace : Bool) (keyword : Text) (trail : List Pattern) : Pattern :=
  inOrder ([.anchor .textStart, spaces 0] ++
    ((if brace then [.repeated (inOrder [char '\x7d', spaces 0]) 0 (some 1)] else []) ++
      (keyword.map char ++ trail)))

/-- What has to follow the keywords of the built-in table that have a context. -/
def trails : List (List Pattern) :=
  [[spaces 0, char '('], [spaces 0, char '\x7b'], [spaces 0, char ':'], [spaces 1]]

theorem separated_of_matches_spaces_char {mark : Char} (separator : isIdentifierChar mark = false)
    {before after : Text} {stop : Cursor}
    (matched : (inOrder [spaces 0, char mark]).Matches (between before after) stop) :
    after.head?.any isIdentifierChar = false := by
  obtain ⟨middle, spacesMatched, markMatched⟩ := (matches_inOrder_cons_iff ..).mp matched
  obtain ⟨run, rest, rfl, inSet, _, rfl⟩ := exists_run_of_matches_repeated spacesMatched
  obtain ⟨others, rfl, _⟩ := (matches_char_iff ..).mp markMatched
  cases run with
  | nil => simpa using separator
  | cons c more =>
      have blank := Text.isBlank_of_spaces (inSet c List.mem_cons_self)
      simpa using Text.isIdentifierChar_of_isBlank blank

theorem separated_of_mem_trails {trail : List Pattern} (member : trail ∈ trails)
    {before after : Text} {stop : Cursor}
    (matched : (inOrder trail).Matches (between before after) stop) :
    after.head?.any isIdentifierChar = false := by
  simp only [trails, List.mem_cons, List.not_mem_nil, or_false] at member
  rcases member with rfl | rfl | rfl | rfl
  · exact separated_of_matches_spaces_char (by decide) matched
  · exact separated_of_matches_spaces_char (by decide) matched
  · exact separated_of_matches_spaces_char (by decide) matched
  · obtain ⟨run, rest, rfl, inSet, length, _⟩ := exists_run_of_matches_repeated matched
    cases run with
    | nil => simp at length
    | cons c more =>
        have blank := Text.isBlank_of_spaces (inSet c List.mem_cons_self)
        simpa using Text.isIdentifierChar_of_isBlank blank

/-- An optional closing brace with the spaces behind it. -/
theorem exists_of_matches_brace {before after : Text} {stop : Cursor}
    (matched : Matches (.repeated (inOrder [char '\x7d', spaces 0]) 0 (some 1))
      (between before after) stop) :
    ∃ passed rest, after = passed ++ rest ∧ stop = between (before ++ passed) rest ∧
      (passed = [] ∨ ∃ second, (∀ c ∈ second, isBlank c = true) ∧ passed = '\x7d' :: second) := by
  obtain ⟨extra, bounded, rounds⟩ := matched
  have atMostOne : extra ≤ 1 := bounded 1 rfl
  rw [Nat.zero_add] at rounds
  cases extra with
  | zero => exact ⟨[], after, rfl, by rw [List.append_nil]; exact rounds.symm, Or.inl rfl⟩
  | succ count =>
      obtain rfl : count = 0 := by omega
      obtain ⟨_, once, rfl⟩ := rounds
      obtain ⟨middle, braceMatched, spacesMatched⟩ := (matches_inOrder_cons_iff ..).mp once
      obtain ⟨rest, rfl, rfl⟩ := (matches_char_iff ..).mp braceMatched
      obtain ⟨second, others, rfl, inSet, _, rfl⟩ := exists_run_of_matches_repeated spacesMatched
      refine ⟨'\x7d' :: second, others, rfl, by simp, Or.inr ⟨second, ?_, rfl⟩⟩
      exact fun c member => Text.isBlank_of_spaces (inSet c member)

/-- Where a leading keyword stands. -/
theorem exists_lead_of_occursIn {brace : Bool} {keyword text : Text} {trail : List Pattern}
    (member : trail ∈ trails) (occurs : (leading brace keyword trail).occursIn text = true) :
    ∃ lead rest, text = lead ++ (keyword ++ rest) ∧ lead.IsLead ∧
      rest.head?.any isIdentifierChar = false := by
  obtain ⟨cursor, stop, ⟨before, after, rfl, rfl⟩, matched⟩ := (occursIn_iff ..).mp occurs
  obtain ⟨_, startMatched, behindSpaces⟩ := (matches_inOrder_append_iff ..).mp matched
  obtain ⟨_, braceMatched, behindBrace⟩ := (matches_inOrder_append_iff ..).mp behindSpaces
  obtain ⟨_, keywordMatched, trailMatched⟩ := (matches_inOrder_append_iff ..).mp behindBrace
  obtain ⟨_, ⟨rfl, atStart⟩, spacesMatched⟩ := (matches_inOrder_cons_iff ..).mp startMatched
  obtain rfl : before = [] := by simpa [meets] using atStart
  obtain ⟨first, _, rfl, inSet, _, rfl⟩ := exists_run_of_matches_repeated spacesMatched
  have firstBlank : ∀ c ∈ first, isBlank c = true :=
    fun c member => Text.isBlank_of_spaces (inSet c member)
  obtain ⟨passed, _, rfl, rfl, passedCases⟩ : ∃ passed rest, _ = passed ++ rest ∧
      _ = between ([] ++ first ++ passed) rest ∧ (passed = [] ∨
        ∃ second, (∀ c ∈ second, isBlank c = true) ∧ passed = '\x7d' :: second) := by
    cases brace with
    | true => exact exists_of_matches_brace braceMatched
    | false => exact ⟨[], _, rfl, by rw [List.append_nil]; exact braceMatched.symm, Or.inl rfl⟩
  obtain ⟨rest, rfl, rfl⟩ := (matches_literal_iff ..).mp keywordMatched
  refine ⟨first ++ passed, rest, by simp, ?_, separated_of_mem_trails member trailMatched⟩
  rcases passedCases with rfl | ⟨second, secondBlank, rfl⟩
  · exact ⟨first, [], firstBlank, by simp, Or.inl (List.append_nil first)⟩
  · exact ⟨first, second, firstBlank, secondBlank, Or.inr rfl⟩

end Pattern

namespace Table

/-- Every context of the built-in table asks for a leading keyword. -/
theorem leading_of_context {row : Row} {context : Pattern} (member : row ∈ builtin.rows)
    (isContext : row.context = some context) :
    ∃ brace, ∃ trail ∈ Pattern.trails, context = .leading brace row.keyword trail := by
  have written : ∀ row ∈ builtin.rows, ∀ context ∈ row.context,
      ∃ brace ∈ [true, false], ∃ trail ∈ Pattern.trails,
        context = .leading brace row.keyword trail := by
    decide +kernel
  obtain ⟨brace, _, trail, inTrails, equality⟩ := written row member context isContext
  exact ⟨brace, trail, inTrails, equality⟩

theorem leading_of_dependent {row : Row} {parent : Text} (member : row ∈ builtin.rows)
    (dependent : row.role = .dependent parent) :
    ∃ brace, ∃ trail ∈ Pattern.trails,
      row.context = some (.leading brace row.keyword trail) := by
  have written : ∀ row ∈ builtin.rows, row.role.parent?.isSome = true →
      row.context.isSome = true := by
    decide +kernel
  have isDependent : row.role.parent?.isSome = true := by
    rw [dependent]
    rfl
  obtain ⟨context, isContext⟩ := Option.isSome_iff_exists.mp (written row member isDependent)
  obtain ⟨brace, trail, inTrails, equality⟩ := leading_of_context member isContext
  exact ⟨brace, trail, inTrails, by rw [isContext, equality]⟩

end Table

end Dialect
