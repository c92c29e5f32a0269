import Dialect.Proofs.Compilation
import Dialect.Proofs.Location

/-!
# One source behind another

A run over lines hands on the open blocks and the open comment, and nothing else; the number of a line
is only for diagnostics. So a run over a source with another one behind it is a run over the first and
then, from where that has stopped, a run over the second. Main statement: `Table.compile_append`.
-/

namespace Dialect

/-- The diagnostic about the line so many lines farther down. -/
def Diagnostic.movedDown (count : Nat) (diagnostic : Diagnostic) : Diagnostic :=
  { diagnostic with line := diagnostic.line + count }

namespace Table

/-! ## The number of a line -/

theorem line_of_judge {table : Table} {blocks : Blocks} {file : Text} {number : Nat} {line : Line}
    {diagnostic : Diagnostic} (failed : table.judge blocks file number line = .error diagnostic) :
    diagnostic.line = number := by
  rcases judge_eq_error failed with ⟨_, _, _, _, _, rfl⟩ | ⟨_, _, _, rfl⟩
  · rfl
  · rfl

theorem judge_add (table : Table) (blocks : Blocks) (file : Text) (number count : Nat) (line : Line) :
    table.judge blocks file (number + count) line =
      (table.judge blocks file number line).mapError (Diagnostic.movedDown count) := by
  simp only [judge]
  split
  next => rfl
  next =>
    split
    next row _ =>
      split
      next => rfl
      next => rfl
      next parent _ =>
        split
        next => rfl
        next => rfl
    next =>
      split
      next => rfl
      next => rfl

theorem compileLine_add (table : Table) (file : Text) (number count : Nat) (progress : Progress)
    (text : Text) :
    table.compileLine file (number + count) progress text =
      (table.compileLine file number progress text).mapError (Diagnostic.movedDown count) := by
  rw [compileLine, compileLine, judge_add]
  cases table.judge progress.blocks file number (Line.read text progress.commentOpen) with
  | error diagnostic => rfl
  | ok verdict => rfl

/-- A run that starts on a later line differs in nothing but the lines of its diagnostics. -/
theorem compileLines_add (table : Table) (file : Text) (number count : Nat) (progress : Progress)
    (texts : List Text) :
    table.compileLines file (number + count) progress texts =
      (table.compileLines file number progress texts).mapError (Diagnostic.movedDown count) := by
  induction texts generalizing number progress with
  | nil => rfl
  | cons text others inductionHypothesis =>
      rw [compileLines, compileLines, compileLine_add]
      cases table.compileLine file number progress text with
      | error diagnostic => rfl
      | ok step =>
          simp only [mapError_ok]
          rw [Nat.add_right_comm, inductionHypothesis]
          cases table.compileLines file (number + 1) step.2 others with
          | error diagnostic => rfl
          | ok run => rfl

/-! ## Runs one after the other -/

theorem compileLines_append_of_error {table : Table} {file : Text} {number : Nat} {progress : Progress}
    {left : List Text} {diagnostic : Diagnostic} (right : List Text)
    (failed : table.compileLines file number progress left = .error diagnostic) :
    table.compileLines file number progress (left ++ right) = .error diagnostic := by
  induction left generalizing number progress with
  | nil => simp [compileLines] at failed
  | cons text others inductionHypothesis =>
      rw [List.cons_append, compileLines_cons_eq_error_iff]
      rcases compileLines_cons_eq_error_iff.mp failed with here | ⟨out, next, first, later⟩
      · exact Or.inl here
      · exact Or.inr ⟨out, next, first, inductionHypothesis later⟩

theorem compileLines_append_of_ok {table : Table} {file : Text} {number : Nat}
    {progress middle : Progress} {left outs : List Text} (right : List Text)
    (compiled : table.compileLines file number progress left = .ok (outs, middle)) :
    table.compileLines file number progress (left ++ right) =
      (table.compileLines file (number + left.length) middle right).map fun (more, last) =>
        (outs ++ more, last) := by
  induction left generalizing number progress outs with
  | nil =>
      obtain ⟨rfl, rfl⟩ := Prod.mk.inj (Except.ok.inj compiled)
      rw [List.nil_append, List.length_nil, Nat.add_zero]
      cases table.compileLines file number progress right with
      | error diagnostic => rfl
      | ok run => rfl
  | cons text others inductionHypothesis =>
      obtain ⟨out, next, more, first, later, rfl⟩ := compileLines_cons_eq_ok_iff.mp compiled
      have rest := inductionHypothesis later
      rw [List.cons_append, compileLines, first, List.length_cons, Nat.add_comm others.length,
        ← Nat.add_assoc]
      simp only [rest]
      cases table.compileLines file (number + 1 + others.length) middle right with
      | error diagnostic => rfl
      | ok run => rfl

theorem line_of_compileLines {table : Table} {file : Text} {number : Nat} {progress : Progress}
    {texts : List Text} {diagnostic : Diagnostic}
    (failed : table.compileLines file number progress texts = .error diagnostic) :
    number ≤ diagnostic.line := by
  obtain ⟨index, line, blocks, _, judged⟩ := exists_judge_of_compileLines failed
  rw [line_of_judge judged]
  exact Nat.le_add_right number index

theorem outs_ne_nil_of_compileLines {table : Table} {file : Text} {number : Nat}
    {progress last : Progress} {texts outs : List Text} (nonempty : texts ≠ [])
    (compiled : table.compileLines file number progress texts = .ok (outs, last)) : outs ≠ [] := by
  obtain ⟨text, others, rfl⟩ := List.exists_cons_of_ne_nil nonempty
  obtain ⟨out, _, more, _, _, rfl⟩ := compileLines_cons_eq_ok_iff.mp compiled
  exact List.cons_ne_nil out more

/-! ## Sources one behind the other -/

theorem compile_append_of_error {table : Table} {file first : Text} {diagnostic : Diagnostic}
    (second : Text) (failed : table.compile first file = .error diagnostic) :
    table.compile (first ++ '\n' :: second) file = .error diagnostic := by
  rw [compile_eq_error_iff] at failed ⊢
  rw [Text.lines_append]
  exact compileLines_append_of_error second.lines failed

theorem compile_append_of_ok {table : Table} {file first : Text} {outs : List Text} {last : Progress}
    (second : Text) (compiled : table.compileLines file 1 .start first.lines = .ok (outs, last)) :
    table.compile (first ++ '\n' :: second) file =
      (table.compileLines file (1 + first.lines.length) last second.lines).map fun (more, _) =>
        Text.unlines outs ++ '\n' :: Text.unlines more := by
  have outsNonempty := outs_ne_nil_of_compileLines (Text.lines_ne_nil first) compiled
  rw [compile, Text.lines_append, compileLines_append_of_ok second.lines compiled]
  cases later : table.compileLines file (1 + first.lines.length) last second.lines with
  | error diagnostic => rfl
  | ok run =>
      have moreNonempty := outs_ne_nil_of_compileLines (Text.lines_ne_nil second) later
      exact congrArg Except.ok (Text.unlines_append outsNonempty moreNonempty)

/-- What compiling two sources, one behind the other, has to do with compiling each of them. Only open
blocks and an open comment go from the first to the second. -/
theorem compile_append (table : Table) (file first second : Text) :
    (∀ diagnostic, table.compile first file = .error diagnostic →
      table.compile (first ++ '\n' :: second) file = .error diagnostic) ∧
    ∀ out, table.compile first file = .ok out →
      ((∃ more, table.compile (first ++ '\n' :: second) file = .ok (out ++ '\n' :: more)) ∨
        ∃ diagnostic, table.compile (first ++ '\n' :: second) file = .error diagnostic ∧
          first.lines.length < diagnostic.line) ∧
      ∀ outs last, table.compileLines file 1 .start first.lines = .ok (outs, last) →
        last.blocks.isEmpty = true → last.commentOpen = false →
        (∀ more, table.compile second file = .ok more →
          table.compile (first ++ '\n' :: second) file = .ok (out ++ '\n' :: more)) ∧
        ∀ diagnostic, table.compile second file = .error diagnostic →
          table.compile (first ++ '\n' :: second) file =
            .error (diagnostic.movedDown first.lines.length) := by
  refine ⟨fun diagnostic => compile_append_of_error second, ?_⟩
  intro out compiled
  obtain ⟨outs, last, run, rfl⟩ := compile_eq_ok_iff.mp compiled
  have whole := compile_append_of_ok second run
  constructor
  · cases later : table.compileLines file (1 + first.lines.length) last second.lines with
    | error diagnostic =>
        right
        rw [later] at whole
        have bound := line_of_compileLines later
        exact ⟨diagnostic, whole, by omega⟩
    | ok more =>
        left
        rw [later] at whole
        exact ⟨Text.unlines more.1, whole⟩
  · intro others final runAgain noBlocks noComment
    obtain ⟨rfl, rfl⟩ := Prod.mk.inj (Except.ok.inj (run.symm.trans runAgain))
    have nothing : last = .start := by
      obtain ⟨⟨labels⟩, commentOpen⟩ := last
      rw [Blocks.isEmpty, List.isEmpty_iff] at noBlocks
      simp only at noBlocks noComment
      rw [noBlocks, noComment]
      rfl
    rw [nothing, compileLines_add] at whole
    constructor
    · intro more secondCompiled
      obtain ⟨lines, _, secondRun, rfl⟩ := compile_eq_ok_iff.mp secondCompiled
      rw [secondRun] at whole
      exact whole
    · intro diagnostic secondFailed
      rw [compile_eq_error_iff.mp secondFailed] at whole
      exact whole

theorem builtin_compile_append_behind_closed_block :
    builtin.compile "when (a) \x7b\n\x7d\nyay 1;".toList [] =
        .ok "if (a) \x7b\n\x7d\nreturn 1;".toList ∧
      ∃ diagnostic, builtin.compile "meh \x7b".toList [] = .error diagnostic ∧
        diagnostic.line = 1 ∧
        builtin.compile "when (a) \x7b\n\x7d\nmeh \x7b".toList [] =
          .error (diagnostic.movedDown 2) := by
  have run : builtin.compileLines [] 1 .start (Text.lines "when (a) \x7b\n\x7d".toList) =
      .ok (["if (a) \x7b".toList, "\x7d".toList], .start) :=
    eq_ok_of_toOption (by decide +kernel)
  have compiled : builtin.compile "when (a) \x7b\n\x7d".toList [] = .ok "if (a) \x7b\n\x7d".toList :=
    compile_eq_ok_iff.mpr ⟨_, _, run, by decide⟩
  have behind (second : Text) :=
    ((compile_append builtin [] "when (a) \x7b\n\x7d".toList second).2 _ compiled).2 _ _ run rfl rfl
  have plain : builtin.compile "yay 1;".toList [] = .ok "return 1;".toList :=
    eq_ok_of_toOption (by decide +kernel)
  have orphan : builtin.compile "meh \x7b".toList [] = .error (.ofCause (.placement "when".toList)
      "meh".toList { file := [], line := 1, text := "meh \x7b".toList } (some 0)) :=
    eq_error_of_match (by decide +kernel)
  exact ⟨(behind "yay 1;".toList).1 _ plain, _, orphan, rfl, (behind "meh \x7b".toList).2 _ orphan⟩

end Table

end Dialect
