import Dialect.Text.Basic

/-!
# Lines of a text

Splitting at a separator and joining with it undo each other where no part holds the separator.
Splitting goes through a text from left to right and forgets what it has passed, so the lines of a text
with a line feed in it are the lines before the line feed and the lines behind it.
-/

namespace Dialect

namespace Text

/-! ## Splitting -/

theorem mem_of_mem_splitOn {separator c : Char} {text part : Text} (inPart : c ∈ part)
    (inParts : part ∈ splitOn separator text) : c ∈ text ∧ c ≠ separator := by
  induction text generalizing part with
  | nil =>
      rw [splitOn, List.mem_singleton] at inParts
      simp [inParts] at inPart
  | cons d rest inductionHypothesis =>
      have inRest : c ∈ rest ∧ c ≠ separator → c ∈ d :: rest ∧ c ≠ separator :=
        fun facts => ⟨List.mem_cons_of_mem d facts.1, facts.2⟩
      rw [splitOn] at inParts
      split at inParts
      next =>
        rcases List.mem_cons.mp inParts with empty | later
        · simp [empty] at inPart
        · exact inRest (inductionHypothesis inPart later)
      next different =>
        cases parts : splitOn separator rest with
        | nil => exact absurd parts (splitOn_ne_nil separator rest)
        | cons first others =>
            rw [parts] at inParts inductionHypothesis
            rcases List.mem_cons.mp inParts with atHead | later
            · rw [atHead] at inPart
              rcases List.mem_cons.mp inPart with equality | inFirst
              · rw [equality]
                exact ⟨List.mem_cons_self, different⟩
              · exact inRest (inductionHypothesis inFirst List.mem_cons_self)
            · exact inRest (inductionHypothesis inPart (List.mem_cons_of_mem first later))

theorem splitOn_of_not_mem {separator : Char} {part : Text} (absent : separator ∉ part) :
    splitOn separator part = [part] := by
  induction part with
  | nil => rfl
  | cons c rest inductionHypothesis =>
      have different : c ≠ separator := fun equality => absent (by simp [equality])
      rw [splitOn, if_neg different,
        inductionHypothesis fun inRest => absent (List.mem_cons_of_mem c inRest)]

/-- A separator splits a text whatever stands before it. -/
theorem splitOn_append_separator (separator : Char) (left right : Text) :
    splitOn separator (left ++ separator :: right) =
      splitOn separator left ++ splitOn separator right := by
  induction left with
  | nil => simp [splitOn]
  | cons c rest inductionHypothesis =>
      rw [List.cons_append, splitOn, splitOn, inductionHypothesis]
      by_cases isSeparator : c = separator
      · rw [if_pos isSeparator, if_pos isSeparator, List.cons_append]
      · rw [if_neg isSeparator, if_neg isSeparator]
        cases parts : splitOn separator rest with
        | nil => exact absurd parts (splitOn_ne_nil separator rest)
        | cons first others => rfl

/-! ## Lines -/

theorem mem_of_mem_lines {c : Char} {text line : Text} (inLine : c ∈ line)
    (inLines : line ∈ lines text) : c ∈ text ∧ c ≠ '\n' :=
  mem_of_mem_splitOn inLine inLines

theorem lines_ne_nil (text : Text) : lines text ≠ [] := splitOn_ne_nil '\n' text

theorem lines_append (left right : Text) :
    lines (left ++ '\n' :: right) = lines left ++ lines right :=
  splitOn_append_separator '\n' left right

theorem unlines_cons (part : Text) {others : List Text} (more : others ≠ []) :
    unlines (part :: others) = part ++ '\n' :: unlines others := by
  obtain ⟨second, rest, rfl⟩ := List.exists_cons_of_ne_nil more
  simp [unlines, joinWith]

theorem unlines_append {left right : List Text} (leftNonempty : left ≠ []) (rightNonempty : right ≠ []) :
    unlines (left ++ right) = unlines left ++ '\n' :: unlines right := by
  induction left with
  | nil => exact absurd rfl leftNonempty
  | cons part others inductionHypothesis =>
      cases others with
      | nil => exact unlines_cons part rightNonempty
      | cons second more =>
          have later := inductionHypothesis (List.cons_ne_nil second more)
          have whole := unlines_cons part (List.cons_ne_nil second (more ++ right))
          rw [← List.cons_append, later] at whole
          rw [unlines_cons part (List.cons_ne_nil second more), List.append_assoc]
          exact whole

/-- Lines that are put together are the lines of what they make. -/
theorem lines_unlines {parts : List Text} (nonempty : parts ≠ [])
    (absent : ∀ part ∈ parts, '\n' ∉ part) : lines (unlines parts) = parts := by
  induction parts with
  | nil => exact absurd rfl nonempty
  | cons part others inductionHypothesis =>
      have first : lines part = [part] := splitOn_of_not_mem (absent part List.mem_cons_self)
      by_cases alone : others = []
      · rw [alone]
        exact first
      · have later := inductionHypothesis alone
          fun other member => absent other (List.mem_cons_of_mem part member)
        rw [unlines_cons part alone, lines_append, first, later, List.singleton_append]

theorem not_mem_unlines {c : Char} {parts : List Text} (different : c ≠ '\n')
    (absent : ∀ part ∈ parts, c ∉ part) : c ∉ unlines parts := by
  induction parts with
  | nil => simp [unlines, joinWith]
  | cons part others inductionHypothesis =>
      have first := absent part List.mem_cons_self
      have later := inductionHypothesis fun other member =>
        absent other (List.mem_cons_of_mem part member)
      by_cases alone : others = []
      · rw [alone]
        exact first
      · rw [unlines_cons part alone, List.mem_append, List.mem_cons]
        intro inJoined
        rcases inJoined with inFirst | equality | inLater
        · exact first inFirst
        · exact different equality
        · exact later inLater

end Text

end Dialect
