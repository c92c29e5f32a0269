import Dialect.Proofs.Returns
import Dialect.Proofs.RowOrder
import Dialect.Proofs.Sequencing
import Dialect.Proofs.Trailing

/-!
# Line endings

A source whose lines end with a carriage return and a line feed compiles like the source with line feeds
only, with one exception. The context of `option` asks for a space behind the keyword, and a carriage
return is one. So a line with nothing but `option` in its code is no choice by itself, but becomes one
with a carriage return behind it, and then it needs a `pick` block around it. Main statement:
`Table.compile_crlf_iff`.
-/

namespace Dialect

namespace Pattern

/-! ## Contexts and spaces -/

theorem seesEnd_inOrder (patterns : List Pattern) :
    (inOrder patterns).seesEnd = patterns.any seesEnd := by
  induction patterns with
  | nil => rfl
  | cons pattern patterns inductionHypothesis =>
      rw [List.any_cons, ← inductionHypothesis]
      cases patterns with
      | nil => exact (Bool.or_false _).symm
      | cons second others => rfl

theorem seesEnd_leading {trail : List Pattern} (blind : trail.any seesEnd = false) (brace : Bool)
    (keyword : Text) : (leading brace keyword trail).seesEnd = false := by
  have keywordBlind : (keyword.map char).any seesEnd = false := by
    rw [List.any_map, List.any_eq_false]
    intro c _
    exact Bool.false_ne_true
  rw [leading, seesEnd_inOrder, List.any_append, List.any_append, List.any_append, keywordBlind, blind]
  cases brace
  · rfl
  · rfl

end Pattern

/-- Code with spaces and the keyword `option`, and nothing else. -/
def Text.IsBareOption (code : Text) : Prop :=
  ∃ lead, (∀ c ∈ lead, CharSet.spaces.contains c = true) ∧ code = lead ++ "option".toList

theorem Text.blank_or_identifier_of_bareOption {code : Text} (bare : code.IsBareOption) :
    ∀ c ∈ code, isBlank c = true ∨ isIdentifierChar c = true := by
  obtain ⟨lead, leadSpaces, rfl⟩ := bare
  intro c member
  obtain inLead | inKeyword := List.mem_append.mp member
  · exact .inl (isBlank_of_spaces (leadSpaces c inLead))
  · have isIdentifier : isIdentifier "option".toList = true := by decide
    exact .inr (isIdentifierChar_of_isIdentifier isIdentifier c inKeyword)

/-- There is nothing to mask in a bare `option`, and masked code that is one has no literals. -/
theorem Mask.isBareOption_text_ofCode_iff (code : Text) :
    (ofCode code).text.IsBareOption ↔ code.IsBareOption := by
  obtain same | ⟨⟨quote, inCode, isQuote⟩, inText⟩ := text_ofCode_cases code
  · rw [same]
  · constructor
    · intro bare
      have isMarker := isMarker_marker_ofCode code
      have blankOrIdentifier := Text.blank_or_identifier_of_bareOption bare _ inText
      simp [isBlank_of_isMarker isMarker, isIdentifierChar_of_isMarker isMarker] at blankOrIdentifier
    · intro bare
      obtain blank | identifier := Text.blank_or_identifier_of_bareOption bare quote inCode
      · simp [isBlank_of_isQuote isQuote] at blank
      · simp [isQuote_eq_false_of_identifier identifier] at isQuote

namespace Table

/-- Only `option` asks for a space behind it. -/
theorem option_context {row : Row} (member : row ∈ builtin.rows) :
    (row.keyword = "option".toList → row.role = .dependent "pick".toList ∧
      row.context = some (.leading false "option".toList [.spaces 1])) ∧
    (row.keyword ≠ "option".toList → ∀ brace, row.context ≠ some (.leading brace row.keyword [.spaces 1])) := by
  have all : ∀ row ∈ builtin.rows,
      (row.keyword = "option".toList → row.role = .dependent "pick".toList ∧
        row.context = some (.leading false "option".toList [.spaces 1])) ∧
      (row.keyword ≠ "option".toList →
        ∀ brace, row.context ≠ some (.leading brace row.keyword [.spaces 1])) := by
    decide +kernel
  exact all row member

section Spaces

variable {code tail : Text} (allSpaces : ∀ c ∈ tail, CharSet.spaces.contains c = true)

include allSpaces

theorem fits_append_spaces {row : Row} (member : row ∈ builtin.rows)
    (notOption : row.keyword ≠ "option".toList) : row.fits (code ++ tail) = row.fits code := by
  cases isContext : row.context with
  | none => rw [Row.fits, Row.fits, isContext]; rfl
  | some context =>
      obtain ⟨brace, trail, inTrails, rfl⟩ := leading_of_context member isContext
      have sameWithMark {mark : Char} (visible : CharSet.spaces.contains mark = false) :
          (Pattern.leading brace row.keyword [.spaces 0, .char mark]).occursIn (code ++ tail) =
            (Pattern.leading brace row.keyword [.spaces 0, .char mark]).occursIn code :=
        Pattern.occursIn_append_spaces allSpaces (Pattern.seesEnd_leading rfl brace row.keyword)
          (Pattern.endsVisibly_leading visible brace row.keyword)
      rw [Row.fits, Row.fits, isContext, Option.any_some, Option.any_some]
      simp only [Pattern.trails, List.mem_cons, List.not_mem_nil, or_false] at inTrails
      obtain rfl | rfl | rfl | rfl := inTrails
      · exact sameWithMark (by decide)
      · exact sameWithMark (by decide)
      · exact sameWithMark (by decide)
      · exact absurd isContext ((option_context member).2 notOption brace)

theorem fits_option_append_spaces {row : Row} (member : row ∈ builtin.rows)
    (isOption : row.keyword = "option".toList) :
    row.fits (code ++ tail) = true ↔ row.fits code = true ∨ tail ≠ [] ∧ code.IsBareOption := by
  rw [Row.fits, Row.fits, ((option_context member).1 isOption).2, Option.any_some, Option.any_some]
  have noSpaces : "option".toList.all (fun c => !CharSet.spaces.contains c) = true := by decide
  have visible : ∀ c ∈ "option".toList, CharSet.spaces.contains c = false := fun c inKeyword =>
    (Bool.not_eq_true' _).mp (List.all_eq_true.mp noSpaces c inKeyword)
  exact Pattern.occursIn_leading_space_append_iff (by decide) visible allSpaces

theorem find?_fits_append_spaces (notBare : tail ≠ [] → ¬code.IsBareOption) :
    builtin.rows.find? (fun row => row.fits (code ++ tail)) =
      builtin.rows.find? fun row => row.fits code := by
  apply List.find?_congr
  intro row member
  by_cases isOption : row.keyword = "option".toList
  · rw [Bool.eq_iff_iff, fits_option_append_spaces allSpaces member isOption]
    exact or_iff_left fun bare => notBare bare.1 bare.2
  · exact fits_append_spaces allSpaces member isOption

theorem firstMisuse?_append_spaces :
    builtin.firstMisuse? (code ++ tail) = builtin.firstMisuse? code := by
  have wordBlind : builtin.keywordPattern.seesEnd = false := by decide +kernel
  have wordVisibly : builtin.keywordPattern.EndsVisibly :=
    Pattern.endsVisibly_wordAmong wellFormed_builtin.identifiers (by decide +kernel)
  have trailVisibly (kind : Misuse) : (misuseTrail kind).EndsVisibly := by
    apply Pattern.EndsVisibly.sequence
    cases kind
    · exact Pattern.endsVisibly_char (by decide)
    · exact Pattern.endsVisibly_char (by decide)
    · exact Pattern.endsVisibly_char (by decide)
  have same (kind : Misuse) : builtin.misused? (code ++ tail) kind = builtin.misused? code kind := by
    have noHits : (tail.map Segment.char).filterMap Segment.hit? = [] := by
      rw [List.filterMap_map, List.filterMap_eq_nil_iff]
      intro c _
      rfl
    rw [misused?, misused?, Pattern.segments_append_spaces allSpaces wordBlind wordVisibly
      (by cases kind <;> rfl) (trailVisibly kind), List.filterMap_append, noHits, List.append_nil]
  simp only [firstMisuse?, same]

theorem findWord?_append_spaces {row : Row} (member : row ∈ builtin.rows)
    (fits : row.fits code = true) : (code ++ tail).findWord? row.keyword = code.findWord? row.keyword := by
  obtain ⟨context, isContext, occurs⟩ := (Option.any_eq_true ..).mp fits
  obtain ⟨brace, trail, inTrails, rfl⟩ := leading_of_context member isContext
  obtain ⟨lead, rest, rfl, isLead, separated⟩ := Pattern.exists_lead_of_occursIn inTrails occurs
  have identifier := wellFormed_builtin.identifiers row.keyword (List.mem_map_of_mem member)
  have separatedBehind : (rest ++ tail).head?.any isIdentifierChar = false := by
    cases rest with
    | cons c others => exact separated
    | nil =>
        cases tail with
        | nil => rfl
        | cons c others =>
            exact Text.isIdentifierChar_of_isBlank
              (Text.isBlank_of_spaces (allSpaces c List.mem_cons_self))
  have found {others : Text} (separatedOthers : others.head?.any isIdentifierChar = false) :
      (lead ++ (row.keyword ++ others)).findWord? row.keyword = some lead.bytes := by
    rw [Text.findWord?, if_neg (Text.ne_nil_of_isIdentifier identifier),
      Text.findWordFrom?_of_separators (Text.ne_nil_of_isIdentifier identifier)
        (Text.isIdentifierChar_of_isIdentifier identifier) separatedOthers lead
        (Text.isIdentifierChar_of_mem_lead isLead) none rfl 0, Nat.zero_add]
  rw [List.append_assoc, List.append_assoc, found separatedBehind, found separated]

end Spaces

/-! ## A bare `option` -/

theorem mark_mem_of_misused? {table : Table} {code : Text} {kind : Misuse} {hit : Hit}
    (misuse : table.misused? code kind = some hit) : kind.mark ∈ code := by
  have member := Segment.mem_hits_iff.mp (List.mem_of_find?_eq_some misuse)
  obtain ⟨position, stop, ⟨before, after, rfl, rfl⟩, foundAt⟩ :=
    Pattern.exists_hitAt?_of_mem_segmentsFrom (Nat.le_refl _) (Cursor.isIn_start code) member
  obtain ⟨rest, rfl, _, ⟨middle, spacesMatched, markMatched⟩, _⟩ :=
    Pattern.hitAt?_eq_some (Nat.le_refl _) foundAt
  obtain ⟨run, others, rfl, _, _, rfl⟩ := (Pattern.matches_spaces_iff 0 ..).mp spacesMatched
  obtain ⟨behind, rfl, _⟩ := (Pattern.matches_char_iff ..).mp markMatched
  simp

theorem firstMisuse?_of_bareOption {code : Text} (bare : code.IsBareOption) :
    builtin.firstMisuse? code = none := by
  obtain ⟨lead, leadSpaces, rfl⟩ := bare
  have noMark (kind : Misuse) : kind.mark ∉ lead ++ "option".toList := by
    intro member
    obtain inLead | inKeyword := List.mem_append.mp member
    · have space := leadSpaces _ inLead
      cases kind <;> exact absurd space (by decide)
    · cases kind <;> exact absurd inKeyword (by decide)
  rw [firstMisuse?, List.findSome?_eq_none_iff]
  intro kind _
  rw [Option.map_eq_none_iff, Option.eq_none_iff_forall_ne_some]
  intro hit misuse
  exact noMark kind (mark_mem_of_misused? misuse)

theorem find?_fits_of_bareOption {code : Text} (bare : code.IsBareOption) :
    builtin.rows.find? (fun row => row.fits code) = none := by
  obtain ⟨lead, leadSpaces, rfl⟩ := bare
  rw [List.find?_eq_none]
  intro row member fits
  have separators : ∀ c ∈ lead, isIdentifierChar c = false := fun c inLead =>
    Text.isIdentifierChar_of_isBlank (Text.isBlank_of_spaces (leadSpaces c inLead))
  have firstWord := find?_isWord_of_fits member fits
  rw [Lexeme.find?_isWord_of_separators separators] at firstWord
  have isOption : row.keyword = "option".toList := by
    have onlyWord : (Lexeme.ofText "option".toList).find? Lexeme.isWord =
        some (.word "option".toList) := by decide
    rw [onlyWord] at firstWord
    exact (Lexeme.word.inj (Option.some.inj firstWord)).symm
  rw [Row.fits, ((option_context member).1 isOption).2, Option.any_some,
    Pattern.occursIn_leading_space_iff] at fits
  obtain ⟨otherLead, rest, split, otherSpaces, behind⟩ := fits
  -- the spaces before the keyword are the same in both readings, so nothing is behind it
  have sameLead : lead = otherLead := by
    have spacesFirst : (lead ++ "option".toList).takeWhile CharSet.spaces.contains = lead :=
      Text.takeWhile_run leadSpaces rfl
    rw [split, Text.takeWhile_run otherSpaces rfl] at spacesFirst
    exact spacesFirst.symm
  subst sameLead
  have nothing : rest = [] := by simpa using split
  rw [nothing] at behind
  exact absurd behind (by decide)

theorem find?_fits_of_bareOption_append {code tail : Text} (bare : code.IsBareOption)
    (allSpaces : ∀ c ∈ tail, CharSet.spaces.contains c = true) (nonempty : tail ≠ []) :
    ∃ row, builtin.rows.find? (fun row => row.fits (code ++ tail)) = some row ∧
      row.role = .dependent "pick".toList := by
  have hasOption : ∃ row ∈ builtin.rows, row.keyword = "option".toList := by decide +kernel
  obtain ⟨row, member, isOption⟩ := hasOption
  have fits := (fits_option_append_spaces allSpaces member isOption).mpr (.inr ⟨nonempty, bare⟩)
  cases found : builtin.rows.find? fun row => row.fits (code ++ tail) with
  | none => exact absurd fits (List.find?_eq_none.mp found row member)
  | some other =>
      have otherFits : other.fits (code ++ tail) = true := by simpa using List.find?_some found
      have same := exclusive_builtin (code ++ tail) row member other (List.mem_of_find?_eq_some found)
        fits otherFits
      exact ⟨other, rfl, same ▸ ((option_context member).1 isOption).1⟩

end Table

/-! ## Lines -/

theorem Diagnostic.ofCause_append_blank (cause : Cause) (keyword : Text) (site : Site)
    (offset : Option Nat) {tail : Text} (blank : ∀ c ∈ tail, isBlank c = true) :
    ofCause cause keyword { site with text := site.text ++ tail } offset =
      ofCause cause keyword site offset := by
  rw [ofCause, ofCause, withMessage, withMessage, Excerpt.ofLine, Excerpt.ofLine,
    Text.trimEnd_append_of_blank blank]

namespace Line

theorem locate?_return {text : Text} {openBefore : Bool} {offset place : Nat}
    (found : (read text openBefore).locate? offset = some place) :
    (read (text ++ ['\r']) openBefore).locate? offset = some place := by
  obtain ⟨tail, isReturn, code⟩ := exists_code_return text openBefore
  rw [locate?, code, Mask.ofCode_append_return isReturn, Mask.offsetInCode_followedBy]
  exact offsetInLine?_return found

/-- The code of the line is a bare `option`, and a carriage return behind the line would be code. -/
def HasBareOption (text : Text) (openBefore : Bool) : Prop :=
  (read text openBefore).code.IsBareOption ∧
    (read (text ++ ['\r']) openBefore).code ≠ (read text openBefore).code

end Line

namespace Table

/-- The place of a keyword in front of the code is the same with a carriage return behind the line. -/
theorem locate?_lead_return {text tail : Text} {openBefore : Bool} (isReturn : tail.IsReturn) {row : Row}
    {parent : Text} (member : row ∈ builtin.rows) (dependent : row.role = .dependent parent)
    (fits : row.fits (Mask.ofCode (Line.read text openBefore).code).text = true) :
    ((((Mask.ofCode (Line.read text openBefore).code).text ++ tail).findWord? row.keyword).bind
        (Line.read (text ++ ['\r']) openBefore).locate?) =
      (((Mask.ofCode (Line.read text openBefore).code).text.findWord? row.keyword).bind
        (Line.read text openBefore).locate?) := by
  obtain ⟨place, located, _⟩ := exists_lead_place member dependent fits
  rw [findWord?_append_spaces isReturn.spaces_contains member fits, located]
  obtain ⟨offset, found, isPlace⟩ := Option.bind_eq_some_iff.mp located
  rw [found, Option.bind_some, Line.locate?_return isPlace]

theorem locate?_misuse_return {text : Text} {openBefore : Bool} {kind : Misuse} {hit : Hit}
    (misuse : builtin.firstMisuse? (Mask.ofCode (Line.read text openBefore).code).text = some (kind, hit)) :
    (Line.read (text ++ ['\r']) openBefore).locate? hit.offset =
      (Line.read text openBefore).locate? hit.offset := by
  obtain ⟨_, place, located, _⟩ :=
    exists_place_of_misused wellFormed_builtin (misused?_of_firstMisuse? misuse)
  rw [located, Line.locate?_return located]

theorem judge_return {text : Text} {openBefore : Bool}
    (fine : ¬Line.HasBareOption text openBefore) (blocks : Blocks) (file : Text) (number : Nat) :
    builtin.judge blocks file number (Line.read (text ++ ['\r']) openBefore) =
      builtin.judge blocks file number (Line.read text openBefore) := by
  obtain ⟨tail, isReturn, code⟩ := Line.exists_code_return text openBefore
  have notBare : tail ≠ [] → ¬(Mask.ofCode (Line.read text openBefore).code).text.IsBareOption := by
    intro nonempty bare
    exact fine ⟨(Mask.isBareOption_text_ofCode_iff _).mp bare, by rw [code]; simpa using nonempty⟩
  have masked : (Mask.ofCode (Line.read (text ++ ['\r']) openBefore).code).text =
      (Mask.ofCode (Line.read text openBefore).code).text ++ tail := by
    rw [code, Mask.text_ofCode_append_return isReturn]
  have sameReport (cause : Cause) (keyword : Text) {offset otherOffset : Option Nat}
      (sameOffset : offset = otherOffset) :
      Diagnostic.ofCause cause keyword { file, line := number, text := text ++ ['\r'] } offset =
        Diagnostic.ofCause cause keyword { file, line := number, text } otherOffset := by
    rw [sameOffset]
    exact Diagnostic.ofCause_append_blank cause keyword { file, line := number, text } _
      (List.forall_mem_singleton.mpr (by decide))
  simp only [judge, masked, Text.allBlank_append_of_blank isReturn.isBlank,
    find?_fits_append_spaces isReturn.spaces_contains notBare,
    firstMisuse?_append_spaces isReturn.spaces_contains]
  split
  next => rfl
  next =>
    split
    next row found =>
      split
      next => rfl
      next => rfl
      next parent role =>
        split
        next => rfl
        next =>
          have fits : row.fits (Mask.ofCode (Line.read text openBefore).code).text = true := by
            simpa using List.find?_some found
          have sameLead := locate?_lead_return isReturn (List.mem_of_find?_eq_some found) role fits
          exact congrArg Except.error (sameReport _ _ sameLead)
    next =>
      split
      next => rfl
      next kind hit misuse => exact congrArg Except.error (sameReport _ _ (locate?_misuse_return misuse))

theorem judge_of_bareOption {line : Line} (bare : line.code.IsBareOption) (blocks : Blocks)
    (file : Text) (number : Nat) : builtin.judge blocks file number line = .ok .valid := by
  have maskedBare := (Mask.isBareOption_text_ofCode_iff line.code).mpr bare
  have notBlank : (Mask.ofCode line.code).text.allBlank = false := by
    obtain ⟨lead, _, masked⟩ := maskedBare
    exact Text.allBlank_of_mem (masked ▸ List.mem_append_right lead List.mem_cons_self) (by decide)
  simp only [judge, notBlank, find?_fits_of_bareOption maskedBare, firstMisuse?_of_bareOption maskedBare]
  rfl

theorem judge_return_of_bareOption {text : Text} {openBefore : Bool}
    (bare : Line.HasBareOption text openBefore) (blocks : Blocks) (file : Text) (number : Nat) :
    (blocks.top? = some "pick".toList →
      builtin.judge blocks file number (Line.read (text ++ ['\r']) openBefore) = .ok .valid) ∧
    (blocks.top? ≠ some "pick".toList → ∃ diagnostic,
      builtin.judge blocks file number (Line.read (text ++ ['\r']) openBefore) = .error diagnostic) := by
  obtain ⟨tail, isReturn, code⟩ := Line.exists_code_return text openBefore
  have nonempty : tail ≠ [] := by
    intro nothing
    exact bare.2 (by rw [code, nothing, List.append_nil])
  have maskedBare := (Mask.isBareOption_text_ofCode_iff _).mpr bare.1
  obtain ⟨row, found, role⟩ :=
    find?_fits_of_bareOption_append maskedBare isReturn.spaces_contains nonempty
  have masked : (Mask.ofCode (Line.read (text ++ ['\r']) openBefore).code).text =
      (Mask.ofCode (Line.read text openBefore).code).text ++ tail := by
    rw [code, Mask.text_ofCode_append_return isReturn]
  have notBlank : Text.allBlank ((Mask.ofCode (Line.read text openBefore).code).text ++ tail) = false := by
    obtain ⟨lead, _, isCode⟩ := maskedBare
    exact Text.allBlank_of_mem (List.mem_append_left tail
      (isCode ▸ List.mem_append_right lead List.mem_cons_self)) (by decide)
  simp only [judge, masked, notBlank, found, role]
  constructor
  · intro inside
    rw [if_neg Bool.false_ne_true, if_pos inside]
  · intro outside
    rw [if_neg Bool.false_ne_true, if_neg outside]
    exact ⟨_, rfl⟩

theorem compileLine_return {text : Text} {progress : Progress}
    (fine : Line.HasBareOption text progress.commentOpen → progress.blocks.top? = some "pick".toList)
    (file : Text) (number : Nat) :
    builtin.compileLine file number progress (text ++ ['\r']) =
      (builtin.compileLine file number progress text).map fun (out, next) => (out ++ ['\r'], next) := by
  have sameJudgement :
      builtin.judge progress.blocks file number (Line.read (text ++ ['\r']) progress.commentOpen) =
        builtin.judge progress.blocks file number (Line.read text progress.commentOpen) := by
    by_cases bare : Line.HasBareOption text progress.commentOpen
    · rw [judge_of_bareOption bare.1, (judge_return_of_bareOption bare progress.blocks file number).1 (fine bare)]
    · exact judge_return bare progress.blocks file number
  obtain ⟨tail, isReturn, code⟩ := Line.exists_code_return text progress.commentOpen
  have sameNext (verdict : Verdict) :
      progress.afterLine (Line.read (text ++ ['\r']) progress.commentOpen) (.ok verdict) =
        progress.afterLine (Line.read text progress.commentOpen) (.ok verdict) := by
    simp only [Progress.afterLine, code, Text.trim_append_of_blank isReturn.isBlank,
      (Line.returned_read text progress.commentOpen).2]
  simp only [compileLine, sameJudgement]
  split
  next => rfl
  next verdict _ =>
    rw [sameNext, replaceInLine_return wellFormed_builtin.identifiers]
    rfl

/-- Outside a `pick` block the carriage return makes a misplaced keyword of a bare `option`. -/
theorem compileLine_return_of_bareOption {text : Text} {progress : Progress}
    (bare : Line.HasBareOption text progress.commentOpen)
    (outside : progress.blocks.top? ≠ some "pick".toList) (file : Text) (number : Nat) :
    (∃ out next, builtin.compileLine file number progress text = .ok (out, next)) ∧
      ∃ diagnostic, builtin.compileLine file number progress (text ++ ['\r']) = .error diagnostic ∧
        diagnostic.line = number := by
  obtain ⟨diagnostic, failed⟩ :=
    (judge_return_of_bareOption bare progress.blocks file number).2 outside
  exact ⟨⟨_, _, compileLine_eq_ok_iff.mpr ⟨_, judge_of_bareOption bare.1 .., rfl, rfl⟩⟩,
    diagnostic, compileLine_eq_error_iff.mpr failed, line_of_judge failed⟩

end Table

namespace Text

/-! ## Sources -/

/-- The text with a carriage return before each line feed. -/
def crlf (text : Text) : Text := text.flatMap fun c => if c = '\n' then ['\r', '\n'] else [c]

/-- The lines with a carriage return behind each but the last. -/
def withReturns : List Text → List Text
  | [] => []
  | [line] => [line]
  | line :: lines => (line ++ ['\r']) :: withReturns lines

theorem withReturns_cons (line : Text) {lines : List Text} (more : lines ≠ []) :
    withReturns (line :: lines) = (line ++ ['\r']) :: withReturns lines := by
  cases lines with
  | nil => exact absurd rfl more
  | cons second others => rfl

theorem withReturns_ne_nil {lines : List Text} (nonempty : lines ≠ []) : withReturns lines ≠ [] := by
  fun_cases withReturns lines with
  | case1 => exact nonempty
  | case2 line => simp
  | case3 line lines _ => simp

theorem crlf_of_not_mem {line : Text} (absent : '\n' ∉ line) : line.crlf = line := by
  have single : ∀ c ∈ line, (if c = '\n' then ['\r', '\n'] else [c]) = [c] := by
    intro c member
    have different : c ≠ '\n' := fun isLineFeed => absent (isLineFeed ▸ member)
    exact if_neg different
  rw [crlf, List.flatMap_congr single, List.flatMap_singleton']

theorem crlf_unlines {lines : List Text} (absent : ∀ line ∈ lines, '\n' ∉ line) :
    (unlines lines).crlf = unlines (withReturns lines) := by
  induction lines with
  | nil => rfl
  | cons line lines inductionHypothesis =>
      have lineAbsent := absent line List.mem_cons_self
      have others := inductionHypothesis fun other member => absent other (List.mem_cons_of_mem line member)
      by_cases more : lines = []
      · subst more
        exact crlf_of_not_mem lineAbsent
      · have split : (line ++ '\n' :: unlines lines).crlf =
            line.crlf ++ '\r' :: '\n' :: (unlines lines).crlf := by
          simp [crlf]
        rw [unlines_cons line more, split, crlf_of_not_mem lineAbsent, others, withReturns_cons line more,
          unlines_cons _ (withReturns_ne_nil more), List.append_assoc]
        rfl

theorem not_mem_of_mem_withReturns {lines : List Text} (absent : ∀ line ∈ lines, '\n' ∉ line) :
    ∀ line ∈ withReturns lines, '\n' ∉ line := by
  fun_induction withReturns lines with
  | case1 => exact absent
  | case2 line => exact absent
  | case3 line lines _ inductionHypothesis =>
      have others := inductionHypothesis fun other member => absent other (List.mem_cons_of_mem line member)
      have lineAbsent := absent line List.mem_cons_self
      intro other member
      obtain rfl | inOthers := List.mem_cons.mp member
      · simpa using lineAbsent
      · exact others other inOthers

theorem lines_crlf (text : Text) : text.crlf.lines = withReturns text.lines := by
  have absent : ∀ line ∈ text.lines, '\n' ∉ line := fun line inLines inLine =>
    (mem_of_mem_lines inLine inLines).2 rfl
  have nonempty := withReturns_ne_nil (lines_ne_nil text)
  rw [← lines_unlines nonempty (not_mem_of_mem_withReturns absent), ← crlf_unlines absent, unlines_lines]

end Text

/-! ## No line feed comes in -/

namespace Mask

theorem not_mem_unmask {mask : Mask} {c : Char} {text : Text} (absent : c ∉ text)
    (foreign : ∀ literal ∈ mask.literals, c ∉ literal) : c ∉ mask.unmask text := by
  fun_induction unmask mask text with
  | case1 => exact absent
  | case2 rest notFound inductionHypothesis =>
      rw [List.mem_cons, not_or] at absent ⊢
      exact ⟨absent.1, inductionHypothesis absent.2⟩
  | case3 rest literal after found inductionHypothesis =>
      obtain ⟨isLiteral, inRest⟩ := of_takeLiteral? found
      have absentAfter : c ∉ after := fun member => absent (List.mem_cons_of_mem _ (inRest c member))
      rw [List.mem_append, not_or]
      exact ⟨foreign literal isLiteral, inductionHypothesis absentAfter⟩
  | case4 d rest different inductionHypothesis =>
      rw [List.mem_cons, not_or] at absent ⊢
      exact ⟨absent.1, inductionHypothesis absent.2⟩

theorem not_mem_textFrom {mask : Mask} {c : Char} (notMarker : c ≠ mask.marker)
    (notDigit : c.isDigit = false) {number : Nat} {fragments : List Fragment}
    (absent : c ∉ fragments.flatMap Fragment.text) : c ∉ mask.textFrom number fragments := by
  have notNumeral (index : Nat) : c ∉ Text.decimal index := by
    intro member
    rw [Text.isDigit_of_mem_decimal index c member] at notDigit
    exact absurd notDigit (by decide)
  induction fragments generalizing number with
  | nil => exact absent
  | cons fragment fragments inductionHypothesis =>
      rw [List.flatMap_cons, List.mem_append, not_or] at absent
      cases fragment with
      | plain d =>
          rw [textFrom, List.mem_cons, not_or]
          exact ⟨by simpa [Fragment.text] using absent.1, inductionHypothesis absent.2⟩
      | literal quoted =>
          rw [textFrom, placeholder_append]
          simp [notMarker, notNumeral, inductionHypothesis absent.2]

end Mask

namespace Table

section Foreign

variable {table : Table} (identifiers : ∀ word ∈ table.keywords, word.isIdentifier = true) {c : Char}
  (foreign : ∀ row ∈ table.rows, c ∉ row.equivalent) (notMarker : ¬Mask.IsMarker c)
  (notDigit : c.isDigit = false)

include identifiers foreign notMarker notDigit

theorem not_mem_replaceInCode {code : Text} (absent : c ∉ code) : c ∉ table.replaceInCode code := by
  have differs : c ≠ (Mask.ofCode code).marker := fun isMarker =>
    notMarker (isMarker ▸ Mask.isMarker_marker_ofCode code)
  apply Mask.not_mem_unmask
  · rw [replaceWords_eq identifiers]
    apply not_mem_rewrittenText foreign
    rw [Lexeme.flatMap_text_ofText]
    apply Mask.not_mem_textFrom differs notDigit
    rwa [Mask.ofCode, Fragment.flatMap_text_ofCode]
  · intro literal member inLiteral
    obtain ⟨fragment, inFragments, isLiteral⟩ := List.mem_filterMap.mp member
    cases fragment with
    | plain d => simp [Fragment.literal?] at isLiteral
    | literal quoted =>
        obtain rfl := Option.some.inj isLiteral
        rw [← Fragment.flatMap_text_ofCode code] at absent
        exact absent (List.mem_flatMap.mpr ⟨.literal quoted, inFragments, inLiteral⟩)

theorem not_mem_replaceInLine {text : Text} (openBefore : Bool) (absent : c ∉ text) :
    c ∉ table.replaceInLine (Line.read text openBefore) := by
  rw [← Line.flatMap_text_read text openBefore] at absent
  intro member
  obtain ⟨piece, inPieces, inPiece⟩ := List.mem_flatMap.mp member
  have absentPiece : c ∉ piece.text := fun inText => absent (List.mem_flatMap.mpr ⟨piece, inPieces, inText⟩)
  cases piece with
  | code content =>
      exact not_mem_replaceInCode identifiers foreign notMarker notDigit absentPiece inPiece
  | comment content => exact absentPiece inPiece

theorem not_mem_of_compileLines {file : Text} {number : Nat} {progress last : Progress}
    {texts outs : List Text} (absent : ∀ text ∈ texts, c ∉ text)
    (compiled : table.compileLines file number progress texts = .ok (outs, last)) :
    ∀ out ∈ outs, c ∉ out := by
  induction texts generalizing number progress outs with
  | nil =>
      obtain ⟨rfl, _⟩ := Prod.mk.inj (Except.ok.inj compiled)
      simp
  | cons text texts inductionHypothesis =>
      obtain ⟨out, next, others, compiledLine, compiledOthers, rfl⟩ :=
        compileLines_cons_eq_ok_iff.mp compiled
      obtain ⟨_, _, rfl, _⟩ := compileLine_eq_ok_iff.mp compiledLine
      have othersAbsent := inductionHypothesis
        (fun other member => absent other (List.mem_cons_of_mem text member)) compiledOthers
      intro other member
      obtain rfl | inOthers := List.mem_cons.mp member
      · exact not_mem_replaceInLine identifiers foreign notMarker notDigit progress.commentOpen
          (absent text List.mem_cons_self)
      · exact othersAbsent other inOthers

end Foreign

/-! ## Runs -/

/-- Wherever a run comes to a line with a bare `option` and a line ending, a `pick` block is the
innermost one. -/
def BareOptionsInside (file : Text) (number : Nat) (start : Progress) (texts : List Text) : Prop :=
  ∀ before text after outs progress, texts = before ++ text :: after → after ≠ [] →
    builtin.compileLines file number start before = .ok (outs, progress) →
    Line.HasBareOption text progress.commentOpen → progress.blocks.top? = some "pick".toList

theorem bareOptionsInside_cons_iff {file : Text} {number : Nat} {start : Progress} {text : Text}
    {texts : List Text} :
    BareOptionsInside file number start (text :: texts) ↔
      (texts ≠ [] → Line.HasBareOption text start.commentOpen →
        start.blocks.top? = some "pick".toList) ∧
      ∀ out next, builtin.compileLine file number start text = .ok (out, next) →
        BareOptionsInside file (number + 1) next texts := by
  constructor
  · intro inside
    refine ⟨fun more bare => inside [] text texts [] start rfl more rfl bare, ?_⟩
    intro out next compiledLine before other after outs progress split more compiled bare
    exact inside (text :: before) other after (out :: outs) progress (by rw [split, List.cons_append])
      more (compileLines_cons_eq_ok_iff.mpr ⟨out, next, outs, compiledLine, compiled, rfl⟩) bare
  · intro inside before other after outs progress split more compiled bare
    cases before with
    | nil =>
        obtain ⟨rfl, rfl⟩ := List.cons.inj split
        obtain ⟨_, rfl⟩ := Prod.mk.inj (Except.ok.inj compiled)
        exact inside.1 more bare
    | cons first before =>
        obtain ⟨rfl, rfl⟩ := List.cons.inj split
        obtain ⟨out, next, others, compiledLine, compiledOthers, rfl⟩ :=
          compileLines_cons_eq_ok_iff.mp compiled
        exact inside.2 out next compiledLine before other after others progress rfl more compiledOthers bare

theorem compileLines_withReturns {file : Text} {number : Nat} {progress : Progress} {texts : List Text}
    (inside : BareOptionsInside file number progress texts) :
    builtin.compileLines file number progress (Text.withReturns texts) =
      (builtin.compileLines file number progress texts).map fun (outs, last) =>
        (Text.withReturns outs, last) := by
  induction texts generalizing number progress with
  | nil => rfl
  | cons text texts inductionHypothesis =>
      obtain ⟨firstInside, othersInside⟩ := bareOptionsInside_cons_iff.mp inside
      by_cases more : texts = []
      · subst more
        simp only [Text.withReturns, compileLines]
        cases builtin.compileLine file number progress text with
        | error diagnostic => rfl
        | ok compiled => rfl
      · rw [Text.withReturns_cons text more, compileLines, compileLines,
          compileLine_return (firstInside more) file number]
        cases compiledLine : builtin.compileLine file number progress text with
        | error diagnostic => rfl
        | ok compiled =>
            obtain ⟨out, next⟩ := compiled
            simp only [Except.map, inductionHypothesis (othersInside out next compiledLine)]
            cases compiledOthers : builtin.compileLines file (number + 1) next texts with
            | error diagnostic => rfl
            | ok others =>
                obtain ⟨outs, last⟩ := others
                simp only [Text.withReturns_cons out (outs_ne_nil_of_compileLines more compiledOthers)]

theorem exists_error_of_not_inside {file : Text} {number : Nat} {progress : Progress} {texts : List Text}
    (outside : ¬BareOptionsInside file number progress texts) :
    ∃ diagnostic,
      builtin.compileLines file number progress (Text.withReturns texts) = .error diagnostic ∧
      builtin.compileLines file number progress texts ≠ .error diagnostic := by
  induction texts generalizing number progress with
  | nil =>
      refine absurd ?_ outside
      intro before text after _ _ split
      simp at split
  | cons text texts inductionHypothesis =>
      by_cases trips : texts ≠ [] ∧ Line.HasBareOption text progress.commentOpen ∧
          progress.blocks.top? ≠ some "pick".toList
      · obtain ⟨more, bare, notPick⟩ := trips
        obtain ⟨⟨out, next, compiledLine⟩, diagnostic, failed, atLine⟩ :=
          compileLine_return_of_bareOption bare notPick file number
        refine ⟨diagnostic, ?_, ?_⟩
        · rw [Text.withReturns_cons text more]
          exact compileLines_cons_eq_error_iff.mpr (.inl failed)
        · -- without the carriage return the line compiles, so a fault is on a later one
          intro sameFault
          obtain lineFailed | ⟨_, _, _, othersFailed⟩ := compileLines_cons_eq_error_iff.mp sameFault
          · simp [compiledLine] at lineFailed
          · have later := line_of_compileLines othersFailed
            omega
      · have firstInside : texts ≠ [] → Line.HasBareOption text progress.commentOpen →
            progress.blocks.top? = some "pick".toList := by
          intro more bare
          by_contra notPick
          exact trips ⟨more, bare, notPick⟩
        rw [bareOptionsInside_cons_iff, not_and] at outside
        have othersOutside := outside firstInside
        simp only [not_forall] at othersOutside
        obtain ⟨out, next, compiledLine, notInside⟩ := othersOutside
        obtain ⟨diagnostic, failed, different⟩ := inductionHypothesis notInside
        have more : texts ≠ [] := by
          intro nothing
          rw [nothing] at failed
          simp [Text.withReturns, compileLines] at failed
        have compiledReturn := compileLine_return (firstInside more) file number
        rw [compiledLine] at compiledReturn
        refine ⟨diagnostic, ?_, ?_⟩
        · rw [Text.withReturns_cons text more]
          exact compileLines_cons_eq_error_iff.mpr (.inr ⟨_, _, compiledReturn, failed⟩)
        · intro sameFault
          obtain lineFailed | ⟨_, _, again, othersFailed⟩ := compileLines_cons_eq_error_iff.mp sameFault
          · simp [compiledLine] at lineFailed
          · rw [compiledLine] at again
            obtain ⟨rfl, rfl⟩ := Prod.mk.inj (Except.ok.inj again)
            exact different othersFailed

/-- Line endings make no difference exactly if every bare `option` is inside a `pick` block. -/
theorem compile_crlf_iff (source file : Text) :
    builtin.compile source.crlf file = (builtin.compile source file).map Text.crlf ↔
      BareOptionsInside file 1 .start source.lines := by
  constructor
  · intro same
    by_contra outside
    obtain ⟨diagnostic, failed, different⟩ := exists_error_of_not_inside outside
    rw [← Text.lines_crlf] at failed
    rw [compile_eq_error_iff.mpr failed] at same
    cases compiled : builtin.compile source file with
    | ok out =>
        rw [compiled] at same
        simp [Except.map] at same
    | error other =>
        rw [compiled] at same
        obtain rfl := Except.error.inj same
        exact different (compile_eq_error_iff.mp compiled)
  · intro inside
    rw [compile, compile, Text.lines_crlf, compileLines_withReturns inside]
    cases compiled : builtin.compileLines file 1 .start source.lines with
    | error diagnostic => rfl
    | ok found =>
        obtain ⟨outs, last⟩ := found
        have foreign : ∀ row ∈ builtin.rows, '\n' ∉ row.equivalent := by decide +kernel
        have absent := not_mem_of_compileLines wellFormed_builtin.identifiers foreign (by decide) (by decide)
          (fun line inLines inLine => (Text.mem_of_mem_lines inLine inLines).2 rfl) compiled
        exact congrArg Except.ok (Text.crlf_unlines absent).symm

/-- With a line feed behind it a bare `option` is replaced like any keyword. With a carriage return
before the line feed the same line is refused. -/
theorem builtin_bare_option_refused_with_return :
    Text.crlf "option\n".toList = "option\r\n".toList ∧
      builtin.compile "option\n".toList [] = .ok "case\n".toList ∧
      ∃ diagnostic, builtin.compile "option\r\n".toList [] = .error diagnostic ∧
        diagnostic.cause = .placement "pick".toList ∧ diagnostic.line = 1 := by
  refine ⟨by decide, eq_ok_of_toOption (by decide +kernel), ?_⟩
  exact ⟨.ofCause (.placement "pick".toList) "option".toList
    { file := [], line := 1, text := "option\r".toList } (some 0),
    eq_error_of_match (by decide +kernel), rfl, rfl⟩

end Table

end Dialect
