import Dialect.Compile

/-!
# Steps and runs

What it means for a line, for lines one after the other, and for a source to compile or to have a
fault. Everything about runs is proved from these statements.
-/

namespace Dialect

namespace Table

/-! ## Lines -/

theorem compileLine_eq_ok_iff {table : Table} {file : Text} {number : Nat} {progress next : Progress}
    {text out : Text} :
    table.compileLine file number progress text = .ok (out, next) ↔
      ∃ verdict,
        table.judge progress.blocks file number (Line.read text progress.commentOpen) =
            .ok verdict ∧
          out = table.replaceInLine (Line.read text progress.commentOpen) ∧
          next = progress.afterLine (Line.read text progress.commentOpen) (.ok verdict) := by
  rw [compileLine]
  cases judged : table.judge progress.blocks file number (Line.read text progress.commentOpen) with
  | error diagnostic => simp
  | ok verdict => simp [eq_comm]

theorem compileLine_eq_error_iff {table : Table} {file : Text} {number : Nat} {progress : Progress}
    {text : Text} {diagnostic : Diagnostic} :
    table.compileLine file number progress text = .error diagnostic ↔
      table.judge progress.blocks file number (Line.read text progress.commentOpen) =
        .error diagnostic := by
  rw [compileLine]
  cases table.judge progress.blocks file number (Line.read text progress.commentOpen) with
  | error fault => simp
  | ok verdict => simp

theorem compileLines_cons_eq_ok_iff {table : Table} {file : Text} {number : Nat}
    {progress last : Progress} {text : Text} {texts outs : List Text} :
    table.compileLines file number progress (text :: texts) = .ok (outs, last) ↔
      ∃ out next others,
        table.compileLine file number progress text = .ok (out, next) ∧
          table.compileLines file (number + 1) next texts = .ok (others, last) ∧
          outs = out :: others := by
  rw [compileLines]
  cases first : table.compileLine file number progress text with
  | error diagnostic => simp
  | ok step =>
      obtain ⟨out, next⟩ := step
      cases later : table.compileLines file (number + 1) next texts with
      | error diagnostic => simp [later]
      | ok run =>
          obtain ⟨others, final⟩ := run
          simp only [later]
          constructor
          · intro equality
            obtain ⟨rfl, rfl⟩ := Prod.mk.inj (Except.ok.inj equality)
            exact ⟨out, next, others, rfl, later, rfl⟩
          · intro found
            obtain ⟨_, _, _, firstEquality, laterEquality, rfl⟩ := found
            obtain ⟨rfl, rfl⟩ := Prod.mk.inj (Except.ok.inj firstEquality)
            obtain ⟨rfl, rfl⟩ := Prod.mk.inj (Except.ok.inj (later.symm.trans laterEquality))
            rfl

/-- A run fails on its first line or, if that compiles, on a later one. -/
theorem compileLines_cons_eq_error_iff {table : Table} {file : Text} {number : Nat}
    {progress : Progress} {text : Text} {texts : List Text} {diagnostic : Diagnostic} :
    table.compileLines file number progress (text :: texts) = .error diagnostic ↔
      table.compileLine file number progress text = .error diagnostic ∨
        ∃ out next, table.compileLine file number progress text = .ok (out, next) ∧
          table.compileLines file (number + 1) next texts = .error diagnostic := by
  rw [compileLines]
  cases table.compileLine file number progress text with
  | error fault => simp
  | ok step =>
      obtain ⟨out, next⟩ := step
      cases later : table.compileLines file (number + 1) next texts with
      | error fault => simp [later, and_assoc]
      | ok run => simp [later, and_assoc]

/-! ## Sources -/

theorem compile_eq_error_iff {table : Table} {source file : Text} {diagnostic : Diagnostic} :
    table.compile source file = .error diagnostic ↔
      table.compileLines file 1 .start source.lines = .error diagnostic := by
  rw [compile]
  cases table.compileLines file 1 .start source.lines with
  | error fault => simp
  | ok run => simp

theorem compile_eq_ok_iff {table : Table} {source file out : Text} :
    table.compile source file = .ok out ↔
      ∃ outs last, table.compileLines file 1 .start source.lines = .ok (outs, last) ∧
        Text.unlines outs = out := by
  rw [compile]
  cases table.compileLines file 1 .start source.lines with
  | error fault => simp
  | ok run => simp [Prod.ext_iff]

end Table

/-! ## Results -/

@[simp]
theorem mapError_error {ε δ α : Type} (change : ε → δ) (fault : ε) :
    (Except.error fault : Except ε α).mapError change = .error (change fault) := rfl

@[simp]
theorem mapError_ok {ε δ α : Type} (change : ε → δ) (value : α) :
    (Except.ok value).mapError change = .ok value := rfl

theorem eq_ok_of_toOption {ε α : Type} {result : Except ε α} {value : α}
    (found : result.toOption = some value) : result = .ok value := by
  cases result with
  | error fault => simp [Except.toOption] at found
  | ok other =>
      rw [Except.toOption, Option.some.injEq] at found
      rw [found]

theorem eq_error_of_match {ε α : Type} {result : Except ε α} {fault : ε}
    (found : (match result with
      | .error other => some other
      | .ok _ => none) = some fault) : result = .error fault := by
  cases result with
  | error other => rw [Option.some.inj found]
  | ok value => simp at found

end Dialect
