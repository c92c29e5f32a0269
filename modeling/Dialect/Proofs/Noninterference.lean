import Mathlib.Data.List.Find
import Mathlib.Data.List.Forall2
import Dialect.Proofs.Disguise
import Dialect.Proofs.Sequencing

/-!
# What faults do not depend on

Whether a line has a fault, and what fault, is seen from its masked code and the open blocks. What the
literals and the comments hold has no part in it, except that literals decide on the marker; and all
markers look alike to the patterns of the built-in table. Main statement: two sources whose lines have
the same masked code up to the marker fail alike (`Table.compile_alike`).
-/

namespace Dialect

namespace Mask

/-! ## Markers look alike -/

theorem utf8Size_of_isMarker {c : Char} (isMarker : IsMarker c) : c.utf8Size = 3 := by
  rw [Char.utf8Size_eq_three_iff, UInt32.lt_iff_toNat_lt, UInt32.le_iff_toNat_le]
  have bounds : 2047 < c.toNat ∧ c.toNat ≤ 65535 := by
    rcases isMarker with inRange | last
    · omega
    · omega
  exact bounds

theorem isMarker_fallbackMarker : IsMarker fallbackMarker := Or.inr toNat_fallbackMarker

/-- Takes every marker for the same one. -/
def blur : Disguise where
  apply c := if IsMarker c then fallbackMarker else c
  identifier := by
    intro c identifier
    apply if_neg
    intro isMarker
    rw [isIdentifierChar_of_isMarker isMarker] at identifier
    exact absurd identifier (by decide)
  separator := by
    intro c separator
    split
    · exact isIdentifierChar_of_isMarker isMarker_fallbackMarker
    · exact separator
  utf8Size := by
    intro c
    split
    next isMarker =>
      rw [utf8Size_of_isMarker isMarker, utf8Size_of_isMarker isMarker_fallbackMarker]
    next => rfl
  blank := by
    intro c
    split
    next isMarker =>
      rw [isBlank_of_isMarker isMarker, isBlank_of_isMarker isMarker_fallbackMarker]
    next => rfl

theorem blur_apply_of_isMarker {c : Char} (isMarker : IsMarker c) : blur.apply c = fallbackMarker :=
  if_pos isMarker

theorem blur_apply_of_not_isMarker {c : Char} (ordinary : ¬IsMarker c) : blur.apply c = c :=
  if_neg ordinary

theorem blur_apply_eq_brace_iff (c : Char) : blur.apply c = '\x7d' ↔ c = '\x7d' := by
  by_cases isMarker : IsMarker c
  · rw [blur_apply_of_isMarker isMarker]
    constructor
    · intro equality
      exact absurd equality (by decide)
    · intro equality
      rw [equality] at isMarker
      exact absurd isMarker (by decide)
  · rw [blur_apply_of_not_isMarker isMarker]

theorem trim_blur_text_eq_brace_iff (source : Text) :
    (blur.text source).trim = ['\x7d'] ↔ source.trim = ['\x7d'] := by
  rw [blur.trim_text, Disguise.text, List.map_eq_singleton_iff]
  constructor
  · intro mapped
    obtain ⟨c, single, isBrace⟩ := mapped
    rw [single, (blur_apply_eq_brace_iff c).mp isBrace]
  · intro single
    exact ⟨'\x7d', single, (blur_apply_eq_brace_iff '\x7d').mpr rfl⟩

end Mask

namespace Pattern

/-- Whether all sets in a pattern consist of ASCII characters. -/
def isAscii (pattern : Pattern) : Bool :=
  pattern.sets.all fun accepted => accepted.ranges.all fun range => range.2 < 0x80

theorem overlooks_blur_of_isAscii {pattern : Pattern} (ascii : pattern.isAscii = true) :
    pattern.Overlooks Mask.blur := by
  intro accepted member c
  have small := List.all_eq_true.mp (List.all_eq_true.mp ascii accepted member)
  have foreign {d : Char} (isMarker : Mask.IsMarker d) : accepted.contains d = false := by
    rw [CharSet.contains, List.any_eq_false]
    intro range inRanges inside
    have last : range.2 < 0x80 := of_decide_eq_true (small range inRanges)
    rw [Bool.and_eq_true, decide_eq_true_eq, decide_eq_true_eq] at inside
    rcases isMarker with bounds | isLast
    · omega
    · omega
  by_cases isMarker : Mask.IsMarker c
  · rw [Mask.blur_apply_of_isMarker isMarker, foreign isMarker, foreign Mask.isMarker_fallbackMarker]
  · rw [Mask.blur_apply_of_not_isMarker isMarker]

end Pattern

namespace Mask

/-- The masked texts are the same up to the choice of the marker. -/
def Alike (mask other : Mask) : Prop :=
  List.Forall₂ (fun c d => c = d ∨ c = mask.marker ∧ d = other.marker) mask.text other.text

instance (mask other : Mask) : Decidable (mask.Alike other) :=
  inferInstanceAs (Decidable (List.Forall₂ _ _ _))

theorem blur_text_eq_of_alike {mask other : Mask} (isMarker : IsMarker mask.marker)
    (otherIsMarker : IsMarker other.marker) (alike : mask.Alike other) :
    blur.text mask.text = blur.text other.text := by
  rw [Disguise.text, Disguise.text, ← List.forall₂_eq_eq_eq, List.forall₂_map_left_iff,
    List.forall₂_map_right_iff]
  apply alike.imp
  intro c d related
  rcases related with same | ⟨isFirst, isSecond⟩
  · rw [same]
  · rw [isFirst, isSecond, blur_apply_of_isMarker isMarker, blur_apply_of_isMarker otherIsMarker]

end Mask

/-- The code of two lines is the same but for what is in its literals. -/
def Line.Alike (line other : Line) : Prop := (Mask.ofCode line.code).Alike (Mask.ofCode other.code)

instance (line other : Line) : Decidable (line.Alike other) :=
  inferInstanceAs (Decidable (Mask.Alike _ _))

theorem Line.blur_text_eq_of_alike {line other : Line} (alike : line.Alike other) :
    Mask.blur.text (Mask.ofCode line.code).text = Mask.blur.text (Mask.ofCode other.code).text :=
  Mask.blur_text_eq_of_alike (Mask.isMarker_marker_ofCode _) (Mask.isMarker_marker_ofCode _) alike

theorem Line.trim_code_eq_brace_iff_of_alike {line other : Line} (alike : line.Alike other) :
    line.code.trim = ['\x7d'] ↔ other.code.trim = ['\x7d'] := by
  rw [← Mask.trim_text_ofCode_eq_brace_iff, ← Mask.trim_text_ofCode_eq_brace_iff other.code,
    ← Mask.trim_blur_text_eq_brace_iff, ← Mask.trim_blur_text_eq_brace_iff (Mask.ofCode other.code).text,
    blur_text_eq_of_alike alike]

theorem Blocks.afterLine_congr {code other : Text} (same : code = ['\x7d'] ↔ other = ['\x7d'])
    (blocks : Blocks) (verdict : Verdict) :
    blocks.afterLine code verdict = blocks.afterLine other verdict := by
  simp only [afterLine, same]

namespace Table

/-! ## Judging disguised code -/

/-- No pattern that a line is judged by tells a character from the one it is changed to. -/
structure Overlooks (table : Table) (disguise : Disguise) : Prop where
  contexts : ∀ row ∈ table.rows, ∀ context ∈ row.context, context.Overlooks disguise
  keywords : table.keywordPattern.Overlooks disguise
  trails : ∀ kind, (misuseTrail kind).Overlooks disguise

/-- Judging does not tell the two codes apart, but for the places of keywords in them. -/
structure SeesAlike (table : Table) (code other : Text) : Prop where
  blank : code.allBlank = other.allBlank
  row : table.rows.find? (fun row => row.fits code) = table.rows.find? fun row => row.fits other
  misuse : (table.firstMisuse? code).map (fun found => (found.1, found.2.word)) =
    (table.firstMisuse? other).map fun found => (found.1, found.2.word)

section Disguised

variable {table : Table} {disguise : Disguise} (overlooks : table.Overlooks disguise)

include overlooks

theorem fits_text {row : Row} (member : row ∈ table.rows) (code : Text) :
    row.fits (disguise.text code) = row.fits code := by
  rw [Row.fits, Row.fits]
  cases context : row.context with
  | none => rfl
  | some pattern => exact Disguise.occursIn_text (overlooks.contexts row member pattern context) code

theorem misused?_text (code : Text) (kind : Misuse) :
    table.misused? (disguise.text code) kind = (table.misused? code kind).map disguise.hit := by
  have hits (segment : Segment) :
      (disguise.segment segment).hit? = segment.hit?.map disguise.hit := by
    cases segment with
    | char c => rfl
    | found hit => rfl
  have natural : Segment.hit? ∘ disguise.segment = fun segment => segment.hit?.map disguise.hit :=
    funext hits
  have alone : Hit.standsAlone ∘ disguise.hit = Hit.standsAlone := funext disguise.standsAlone_hit
  rw [misused?, misused?, Disguise.segments_text overlooks.keywords (overlooks.trails kind),
    List.filterMap_map, natural, ← List.map_filterMap, List.find?_map, alone]

theorem firstMisuse?_text (code : Text) :
    table.firstMisuse? (disguise.text code) =
      (table.firstMisuse? code).map (Prod.map id disguise.hit) := by
  rw [firstMisuse?, firstMisuse?, List.map_findSome?]
  congr 1
  funext kind
  rw [misused?_text overlooks, Function.comp_apply, Option.map_map, Option.map_map]
  rfl

/-- Keywords are words, and these are not disguised. -/
theorem seesAlike_text (wellFormed : table.WellFormed) (code : Text) :
    table.SeesAlike (disguise.text code) code where
  blank := disguise.allBlank_text code
  row := List.find?_congr fun row member => fits_text overlooks member code
  misuse := by
    rw [firstMisuse?_text overlooks, Option.map_map]
    cases found : table.firstMisuse? code with
    | none => rfl
    | some misuse =>
        obtain ⟨kind, _, ofKind⟩ := List.exists_of_findSome?_eq_some found
        obtain ⟨hit, isHit, rfl⟩ := Option.map_eq_some_iff.mp ofKind
        have isKeyword := (isIn_of_misused? wellFormed isHit).2.1
        have kept := disguise.text_of_identifier
          (Text.isIdentifierChar_of_isIdentifier (wellFormed.identifiers _ isKeyword))
        exact congrArg (fun word => some (kind, word)) kept

end Disguised

theorem overlooks_blur_builtin : builtin.Overlooks Mask.blur := by
  have contexts : ∀ row ∈ builtin.rows, ∀ context ∈ row.context, context.isAscii = true := by
    decide +kernel
  have trails : ∀ kind, (misuseTrail kind).isAscii = true := by
    intro kind
    cases kind <;> decide
  refine ⟨?_, ?_, ?_⟩
  · intro row member context isContext
    exact Pattern.overlooks_blur_of_isAscii (contexts row member context isContext)
  · exact Pattern.overlooks_blur_of_isAscii (by decide +kernel)
  · intro kind
    exact Pattern.overlooks_blur_of_isAscii (trails kind)

theorem seesAlike_of_alike {line other : Line} (alike : line.Alike other) :
    builtin.SeesAlike (Mask.ofCode line.code).text (Mask.ofCode other.code).text := by
  have first := seesAlike_text overlooks_blur_builtin wellFormed_builtin (Mask.ofCode line.code).text
  have second := seesAlike_text overlooks_blur_builtin wellFormed_builtin (Mask.ofCode other.code).text
  rw [← Line.blur_text_eq_of_alike alike] at second
  exact ⟨first.blank.symm.trans second.blank, first.row.symm.trans second.row,
    first.misuse.symm.trans second.misuse⟩

end Table

/-- What is wrong with which keyword on which line. -/
def Diagnostic.fault (diagnostic : Diagnostic) : Cause × Text × Nat :=
  (diagnostic.cause, diagnostic.keyword, diagnostic.line)

theorem Diagnostic.fault_ofCause (cause : Cause) (keyword : Text) (site : Site) (offset : Option Nat) :
    (ofCause cause keyword site offset).fault = (cause, keyword, site.line) := rfl

namespace Table

/-! ## Runs side by side -/

/-- What a run has come to: it went through, or something was wrong with a keyword on a line. -/
def outcome {α : Type} : Except Diagnostic α → Except (Cause × Text × Nat) Unit
  | .ok _ => .ok ()
  | .error diagnostic => .error diagnostic.fault

theorem mapError_judge_of_seesAlike {table : Table} {line other : Line}
    (sees : table.SeesAlike (Mask.ofCode line.code).text (Mask.ofCode other.code).text)
    (blocks : Blocks) (file otherFile : Text) (number : Nat) :
    (table.judge blocks file number line).mapError Diagnostic.fault =
      (table.judge blocks otherFile number other).mapError Diagnostic.fault := by
  simp only [judge, sees.blank, sees.row]
  split
  next => rfl
  next =>
    split
    next row _ =>
      split
      next => rfl
      next => rfl
      next parent _ =>
        split
        next => rfl
        next =>
          -- The two diagnostics point at different places; only the rest of them is compared.
          simp only [mapError_error, Diagnostic.fault_ofCause]
    next =>
      have misuse := sees.misuse
      cases mine : table.firstMisuse? (Mask.ofCode line.code).text with
      | none =>
          cases theirs : table.firstMisuse? (Mask.ofCode other.code).text with
          | none => rfl
          | some found => simp [mine, theirs] at misuse
      | some found =>
          cases theirs : table.firstMisuse? (Mask.ofCode other.code).text with
          | none => simp [mine, theirs] at misuse
          | some otherFound =>
              rw [mine, theirs] at misuse
              obtain ⟨sameKind, sameWord⟩ := Prod.mk.inj (Option.some.inj misuse)
              simp only [mapError_error, Diagnostic.fault_ofCause, sameKind, sameWord]

theorem outcome_compileLines_cons (table : Table) (file : Text) (number : Nat) (progress : Progress)
    (text : Text) (texts : List Text) :
    outcome (table.compileLines file number progress (text :: texts)) =
      ((table.judge progress.blocks file number (Line.read text progress.commentOpen)).mapError
        Diagnostic.fault).bind fun verdict =>
          outcome (table.compileLines file (number + 1)
            (progress.afterLine (Line.read text progress.commentOpen) (.ok verdict)) texts) := by
  rw [compileLines, compileLine]
  cases table.judge progress.blocks file number (Line.read text progress.commentOpen) with
  | error diagnostic => rfl
  | ok verdict =>
      cases later : table.compileLines file (number + 1)
          (progress.afterLine (Line.read text progress.commentOpen) (.ok verdict)) texts with
      | error diagnostic => simp [later, Except.bind, outcome]
      | ok run => simp [later, Except.bind, outcome]

/-- Two runs with the same blocks open go on side by side, whatever comments are open. -/
theorem outcome_compileLines_of_alike {progress otherProgress : Progress} {texts others : List Text}
    (file otherFile : Text) (number : Nat) (sameBlocks : progress.blocks = otherProgress.blocks)
    (alike : List.Forall₂ Line.Alike (Line.readAll progress.commentOpen texts)
      (Line.readAll otherProgress.commentOpen others)) :
    outcome (builtin.compileLines file number progress texts) =
      outcome (builtin.compileLines otherFile number otherProgress others) := by
  induction texts generalizing others number progress otherProgress with
  | nil =>
      cases others with
      | nil => rfl
      | cons other more => exact absurd alike.length_eq (by simp [Line.readAll])
  | cons text rest inductionHypothesis =>
      cases others with
      | nil => exact absurd alike.length_eq (by simp [Line.readAll])
      | cons other more =>
          obtain ⟨first, later⟩ := List.forall₂_cons.mp alike
          rw [outcome_compileLines_cons, outcome_compileLines_cons, ← sameBlocks,
            mapError_judge_of_seesAlike (seesAlike_of_alike first) progress.blocks file otherFile number]
          congr 1
          funext verdict
          apply inductionHypothesis
          · rw [Progress.afterLine, Progress.afterLine, ← sameBlocks]
            exact Blocks.afterLine_congr (Line.trim_code_eq_brace_iff_of_alike first) _ _
          · exact later

theorem outcome_compile (table : Table) (source file : Text) :
    outcome (table.compile source file) =
      outcome (table.compileLines file 1 .start source.lines) := by
  rw [compile]
  cases table.compileLines file 1 .start source.lines with
  | error diagnostic => rfl
  | ok run => rfl

/-- Faults do not come from comments or from literals. If the lines of two sources have the same masked
code up to the marker, compiling succeeds for both or for none, and then the same is wrong with the
same keyword on the same line. -/
theorem compile_alike {source other : Text} (file otherFile : Text)
    (alike : List.Forall₂ Line.Alike (Line.readAll false source.lines)
      (Line.readAll false other.lines)) :
    ((∃ out, builtin.compile source file = .ok out) ↔
      ∃ out, builtin.compile other otherFile = .ok out) ∧
    ∀ diagnostic otherDiagnostic, builtin.compile source file = .error diagnostic →
      builtin.compile other otherFile = .error otherDiagnostic →
      diagnostic.cause = otherDiagnostic.cause ∧ diagnostic.keyword = otherDiagnostic.keyword ∧
        diagnostic.line = otherDiagnostic.line := by
  have same : outcome (builtin.compile source file) = outcome (builtin.compile other otherFile) := by
    rw [outcome_compile, outcome_compile]
    exact outcome_compileLines_of_alike file otherFile 1 rfl alike
  cases mine : builtin.compile source file with
  | ok out =>
      cases theirs : builtin.compile other otherFile with
      | ok otherOut => simp
      | error diagnostic => simp [mine, theirs, outcome] at same
  | error diagnostic =>
      cases theirs : builtin.compile other otherFile with
      | ok otherOut => simp [mine, theirs, outcome] at same
      | error otherDiagnostic =>
          rw [mine, theirs] at same
          have sameFault := Except.error.inj same
          simpa [Diagnostic.fault] using sameFault

theorem builtin_compile_alike_other_literals_and_comments :
    List.Forall₂ Line.Alike
        (Line.readAll false
          (Text.lines "when (a == 'x') \x7b // fun\n\x7d\nyay 'b' /* c */ + fun = 2".toList))
        (Line.readAll false
          (Text.lines
            "when (a == '\uE000yay(') \x7b /* meh */\n\x7d\nyay \"fun = 3\" /* \x7d */ + fun = 2".toList)) ∧
      ∃ diagnostic,
        builtin.compile
            "when (a == '\uE000yay(') \x7b /* meh */\n\x7d\nyay \"fun = 3\" /* \x7d */ + fun = 2".toList
            [] = .error diagnostic ∧
          diagnostic.cause = .misuse .variable ∧ diagnostic.keyword = "fun".toList ∧
          diagnostic.line = 3 := by
  have alike : List.Forall₂ Line.Alike
      (Line.readAll false
        (Text.lines "when (a == 'x') \x7b // fun\n\x7d\nyay 'b' /* c */ + fun = 2".toList))
      (Line.readAll false
        (Text.lines
          "when (a == '\uE000yay(') \x7b /* meh */\n\x7d\nyay \"fun = 3\" /* \x7d */ + fun = 2".toList)) := by
    decide +kernel
  have failed :
      builtin.compile "when (a == 'x') \x7b // fun\n\x7d\nyay 'b' /* c */ + fun = 2".toList [] =
        .error (.ofCause (.misuse .variable) "fun".toList
          { file := [], line := 3, text := "yay 'b' /* c */ + fun = 2".toList } (some 18)) :=
    eq_error_of_match (by decide +kernel)
  refine ⟨alike, ?_⟩
  have both := compile_alike [] [] alike
  cases theirs : builtin.compile
      "when (a == '\uE000yay(') \x7b /* meh */\n\x7d\nyay \"fun = 3\" /* \x7d */ + fun = 2".toList
      [] with
  | ok out =>
      obtain ⟨_, compiled⟩ := both.1.mpr ⟨out, theirs⟩
      rw [failed] at compiled
      exact absurd compiled (by simp)
  | error diagnostic =>
      obtain ⟨cause, keyword, line⟩ := both.2 _ _ failed theirs
      exact ⟨diagnostic, rfl, cause.symm, keyword.symm, line.symm⟩

end Table

end Dialect
