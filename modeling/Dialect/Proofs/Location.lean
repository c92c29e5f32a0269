import Dialect.Proofs.Places
import Dialect.Proofs.Steps

/-!
# Where diagnostics point

A diagnostic is about a keyword that stands in the code of its line. Its place is found in the masked
code and carried back to the line. Main statement: the keyword is there, alone, in one code piece and
outside every literal (`Table.diagnostic_points_at_keyword`).
-/

namespace Dialect

/-! ## What a diagnostic shows -/

theorem Text.trimEnd_append {front : Text} (rest : Text)
    (visible : front.getLast?.any isBlank = false) (nonempty : front ≠ []) :
    trimEnd (front ++ rest) = front ++ trimEnd rest := by
  obtain ⟨others, last, rfl⟩ : ∃ others last, front = others ++ [last] :=
    ⟨front.dropLast, front.getLast nonempty, (List.dropLast_concat_getLast nonempty).symm⟩
  have lastVisible : isBlank last = false := by simpa using visible
  rw [trimEnd, trimEnd, List.reverse_append, List.dropWhile_append]
  cases blank : (rest.reverse.dropWhile isBlank).isEmpty with
  | true => simp_all [List.isEmpty_iff]
  | false => simp

theorem Excerpt.cut_of_ofLine {line keyword before after : Text} {offset : Option Nat}
    (located : ofLine line keyword offset = .located before after) :
    offset = some before.bytes ∧ before ++ keyword ++ after = line.trimEnd := by
  rw [ofLine] at located
  split at located
  next => simp at located
  next front rest cut =>
    split at located
    next isPrefix =>
      obtain ⟨rfl, rfl⟩ := Excerpt.located.inj located
      obtain ⟨place, isPlace, split⟩ := Option.bind_eq_some_iff.mp cut
      obtain ⟨joined, size⟩ := Text.append_eq_of_splitAt? split
      obtain ⟨more, rfl⟩ := List.isPrefixOf_iff_prefix.mp isPrefix
      rw [List.drop_left, isPlace, size, List.append_assoc]
      exact ⟨rfl, joined⟩
    next => simp at located

theorem Excerpt.ofLine_eq_located_iff {line keyword before after : Text} {offset : Option Nat} :
    ofLine line keyword offset = .located before after ↔
      offset = some before.bytes ∧ before ++ keyword ++ after = line.trimEnd := by
  refine ⟨cut_of_ofLine, ?_⟩
  rintro ⟨rfl, whole⟩
  have cut : line.trimEnd.splitAt? before.bytes = some (before, keyword ++ after) := by
    rw [← whole, List.append_assoc, Text.splitAt?_append]
  have isPrefix : keyword.isPrefixOf (keyword ++ after) = true :=
    List.isPrefixOf_iff_prefix.mpr ⟨after, rfl⟩
  simp only [ofLine, Option.bind_some, cut, isPrefix, if_true, List.drop_left]

theorem Excerpt.ofLine_of_cut {before keyword after : Text}
    (visible : keyword.getLast?.any isBlank = false) (nonempty : keyword ≠ []) :
    ofLine (before ++ keyword ++ after) keyword (some before.bytes) =
      .located before after.trimEnd := by
  have frontNonempty : before ++ keyword ≠ [] := List.append_ne_nil_of_right_ne_nil before nonempty
  have frontVisible : (before ++ keyword).getLast?.any isBlank = false := by
    rw [List.getLast?_append, List.getLast?_eq_some_getLast nonempty, Option.some_or,
      ← List.getLast?_eq_some_getLast nonempty]
    exact visible
  exact ofLine_eq_located_iff.mpr ⟨rfl, (Text.trimEnd_append after frontVisible frontNonempty).symm⟩

namespace Diagnostic

theorem sourceLine_ofCause (cause : Cause) (keyword : Text) (site : Site) (offset : Option Nat) :
    (ofCause cause keyword site offset).sourceLine = site.text.trimEnd := by
  rw [sourceLine]
  split
  next before after located => exact (Excerpt.cut_of_ofLine located).2
  next text whole =>
    have excerpt : Excerpt.ofLine site.text keyword offset = .whole text := whole
    rw [Excerpt.ofLine] at excerpt
    split at excerpt
    next => exact (Excerpt.whole.inj excerpt).symm
    next =>
      split at excerpt
      next => simp at excerpt
      next => exact (Excerpt.whole.inj excerpt).symm

theorem excerpt_ofCause (cause : Cause) (keyword : Text) (site : Site) (offset : Option Nat) :
    (ofCause cause keyword site offset).excerpt = .ofLine site.text keyword offset := rfl

/-- A place is kept exactly if the keyword stands there in the line that is shown. -/
theorem offset?_ofCause_eq_some_iff {cause : Cause} {keyword : Text} {site : Site} {offset : Option Nat}
    {place : Nat} :
    (ofCause cause keyword site offset).offset? = some place ↔
      offset = some place ∧ ∃ before after, site.text.trimEnd = before ++ keyword ++ after ∧
        before.bytes = place := by
  rw [offset?, excerpt_ofCause]
  constructor
  · intro found
    split at found
    next before after located =>
      obtain ⟨given, whole⟩ := Excerpt.cut_of_ofLine located
      obtain rfl := Option.some.inj found
      exact ⟨given, before, after, whole.symm, rfl⟩
    next => simp at found
  · rintro ⟨rfl, before, after, whole, rfl⟩
    rw [Excerpt.ofLine_eq_located_iff.mpr ⟨rfl, whole.symm⟩]

theorem offset?_eq_some {cause : Cause} {keyword : Text} {site : Site} {offset : Option Nat}
    {place : Nat} (found : (ofCause cause keyword site offset).offset? = some place) :
    offset = some place :=
  (offset?_ofCause_eq_some_iff.mp found).1

theorem offset?_of_cut (cause : Cause) (site : Site) {keyword before after : Text}
    (cut : site.text = before ++ keyword ++ after) (visible : keyword.getLast?.any isBlank = false)
    (nonempty : keyword ≠ []) :
    (ofCause cause keyword site (some before.bytes)).offset? = some before.bytes ∧
      (ofCause cause keyword site (some before.bytes)).column? = some (before.length + 1) := by
  have located := @Excerpt.ofLine_of_cut before keyword after visible nonempty
  have excerpt : (ofCause cause keyword site (some before.bytes)).excerpt =
      .located before after.trimEnd := by
    rw [ofCause, withMessage, cut, located]
  rw [offset?, column?, excerpt]
  exact ⟨rfl, rfl⟩

end Diagnostic

theorem Text.exists_of_findWordFrom? {word front rest : Text} {place : Nat}
    (found : findWordFrom? word front.getLast? front.bytes rest = some place) :
    ∃ before after, front ++ rest = before ++ word ++ after ∧ place = before.bytes ∧
      standsBetween before.getLast? after.head? = true := by
  induction rest generalizing front with
  | nil => simp [findWordFrom?] at found
  | cons c others inductionHypothesis =>
      rw [findWordFrom?] at found
      split at found
      next here =>
        obtain ⟨after, joined⟩ := List.isPrefixOf_iff_prefix.mp here.1
        have alone := here.2
        rw [← joined, List.drop_left] at alone
        exact ⟨front, after, by rw [← joined, List.append_assoc], (Option.some.inj found).symm, alone⟩
      next =>
        have later : findWordFrom? word (front ++ [c]).getLast? (front ++ [c]).bytes others =
            some place := by
          simpa using found
        obtain ⟨before, after, joined, isPlace, alone⟩ := inductionHypothesis later
        exact ⟨before, after, by rw [← joined, List.append_assoc]; rfl, isPlace, alone⟩

theorem Text.exists_of_findWord? {text word : Text} {place : Nat}
    (found : findWord? text word = some place) :
    ∃ before after, text = before ++ word ++ after ∧ place = before.bytes ∧
      standsBetween before.getLast? after.head? = true := by
  rw [findWord?] at found
  split at found
  next => simp at found
  next => exact @exists_of_findWordFrom? word [] text place found

namespace Line

/-- Where an offset in the masked code of a line leads. -/
def locate? (line : Line) (offset : Nat) : Option Nat :=
  line.offsetInLine? ((Mask.ofCode line.code).offsetInCode offset)

/-- The lines of a text with their pieces, given whether a block comment is open before the first. -/
def readAll : Bool → List Text → List Line
  | _, [] => []
  | openBefore, text :: texts => read text openBefore :: readAll (read text openBefore).openAfter texts

theorem map_text_readAll (openBefore : Bool) (texts : List Text) :
    (readAll openBefore texts).map text = texts := by
  induction texts generalizing openBefore with
  | nil => rfl
  | cons text others inductionHypothesis =>
      rw [readAll, List.map_cons, inductionHypothesis]
      rfl

theorem eq_read_of_mem_readAll {openBefore : Bool} {texts : List Text} {line : Line}
    (member : line ∈ readAll openBefore texts) : line = read line.text line.openBefore := by
  induction texts generalizing openBefore with
  | nil => simp [readAll] at member
  | cons text others inductionHypothesis =>
      rcases List.mem_cons.mp member with equality | inOthers
      · rw [equality]
        rfl
      · exact inductionHypothesis inOthers

end Line

namespace Table

/-! ## Faults of a line -/

theorem misused?_of_firstMisuse? {table : Table} {code : Text} {kind : Misuse} {hit : Hit}
    (misuse : table.firstMisuse? code = some (kind, hit)) : table.misused? code kind = some hit := by
  obtain ⟨tried, _, found⟩ := List.exists_of_findSome?_eq_some misuse
  obtain ⟨other, isOther, equality⟩ := Option.map_eq_some_iff.mp found
  obtain ⟨rfl, rfl⟩ := Prod.mk.inj equality
  exact isOther

theorem judge_eq_error {table : Table} {blocks : Blocks} {file : Text} {number : Nat} {line : Line}
    {diagnostic : Diagnostic} (failed : table.judge blocks file number line = .error diagnostic) :
    (∃ row parent, row ∈ table.rows ∧ row.fits (Mask.ofCode line.code).text = true ∧
      row.role = .dependent parent ∧
      diagnostic = .ofCause (.placement parent) row.keyword { file, line := number, text := line.text }
        (((Mask.ofCode line.code).text.findWord? row.keyword).bind line.locate?)) ∨
    (∃ kind hit, table.misused? (Mask.ofCode line.code).text kind = some hit ∧
      diagnostic = .ofCause (.misuse kind) hit.word { file, line := number, text := line.text }
        (line.locate? hit.offset)) := by
  rw [judge] at failed
  simp only at failed
  split at failed
  next => simp at failed
  next =>
    split at failed
    next row found =>
      left
      split at failed
      next => simp at failed
      next => simp at failed
      next parent role =>
        split at failed
        next => simp at failed
        next =>
          have fits := List.find?_some found
          exact ⟨row, parent, List.mem_of_find?_eq_some found, by simpa using fits, role,
            (Except.error.inj failed).symm⟩
    next =>
      right
      split at failed
      next => simp at failed
      next kind hit misuse =>
        exact ⟨kind, hit, misused?_of_firstMisuse? misuse, (Except.error.inj failed).symm⟩

/-- A run ends with the fault of one of its lines. -/
theorem exists_judge_of_compileLines {table : Table} {file : Text} {number : Nat}
    {progress : Progress} {texts : List Text} {diagnostic : Diagnostic}
    (failed : table.compileLines file number progress texts = .error diagnostic) :
    ∃ index line blocks, (Line.readAll progress.commentOpen texts)[index]? = some line ∧
      table.judge blocks file (number + index) line = .error diagnostic := by
  induction texts generalizing number progress with
  | nil => simp [compileLines] at failed
  | cons text others inductionHypothesis =>
      rcases compileLines_cons_eq_error_iff.mp failed with here | ⟨out, next, first, later⟩
      · exact ⟨0, _, progress.blocks, rfl, compileLine_eq_error_iff.mp here⟩
      · obtain ⟨verdict, judged, rfl, rfl⟩ := compileLine_eq_ok_iff.mp first
        obtain ⟨index, line, blocks, isLine, lineFailed⟩ := inductionHypothesis later
        refine ⟨index + 1, line, blocks, isLine, ?_⟩
        rw [← lineFailed, Nat.add_assoc, Nat.add_comm 1 index]

/-- A source that does not compile has a line with a fault. -/
theorem exists_judge_of_compile {table : Table} {source file : Text} {diagnostic : Diagnostic}
    (failed : table.compile source file = .error diagnostic) :
    ∃ index line blocks, (Line.readAll false source.lines)[index]? = some line ∧
      source.lines[index]? = some line.text ∧
      table.judge blocks file (1 + index) (Line.read line.text line.openBefore) =
        .error diagnostic := by
  obtain ⟨index, line, blocks, isLine, judged⟩ :=
    exists_judge_of_compileLines (compile_eq_error_iff.mp failed)
  have isText : source.lines[index]? = some line.text := by
    rw [← Line.map_text_readAll false source.lines, List.getElem?_map]
    exact congrArg (Option.map Line.text) isLine
  rw [Line.eq_read_of_mem_readAll (List.mem_of_getElem? isLine)] at judged
  exact ⟨index, line, blocks, isLine, isText, judged⟩

section Accepted

variable {table : Table} (wellFormed : table.WellFormed) {text : Text} {openBefore : Bool}

include wellFormed

/-- A keyword that stands alone in the masked code of a line is a lexeme of the line. -/
theorem exists_place {before word after : Text} (isKeyword : word ∈ table.keywords)
    (split : (Mask.ofCode (Line.read text openBefore).code).text = before ++ word ++ after)
    (alone : Text.standsBetween before.getLast? after.head? = true) :
    ∃ place, (Line.read text openBefore).locate? before.bytes = some place ∧
      (place, .word word) ∈ Lexeme.located 0 (Lexeme.read text openBefore).1 := by
  have identifier := wellFormed.identifiers word isKeyword
  have lexemes := Lexeme.ofText_of_standsBetween (Text.ne_nil_of_isIdentifier identifier)
    (Text.isIdentifierChar_of_isIdentifier identifier) alone
  have inText : (before.bytes, .word word) ∈
      Lexeme.located 0 (Lexeme.ofText (before ++ word ++ after)) := by
    refine Lexeme.mem_located_iff.mpr ⟨_, _, lexemes, ?_⟩
    rw [Lexeme.flatMap_text_ofText, Nat.zero_add]
  have inStandalone : (before.bytes, word) ∈
      table.standalone (Mask.ofCode (Line.read text openBefore).code).text := by
    rw [standalone_eq wellFormed.identifiers wellFormed.distinct, split]
    exact mem_keywordPlaces_iff.mpr ⟨inText, isKeyword⟩
  have inLine := List.mem_map_of_mem (f := Prod.map (Line.read text openBefore).locate? id) inStandalone
  have agrees := standalone_read_eq wellFormed text openBefore
  obtain ⟨⟨place, other⟩, member, equality⟩ := List.mem_map.mp (agrees ▸ inLine)
  obtain ⟨isPlace, rfl⟩ := Prod.mk.inj equality
  exact ⟨place, isPlace.symm, (mem_keywordPlaces_iff.mp member).1⟩

/-- A misused keyword is a lexeme of the line. -/
theorem isIn_of_misused? {code : Text} {kind : Misuse} {hit : Hit}
    (misuse : table.misused? code kind = some hit) :
    hit.IsIn code ∧ hit.word ∈ table.keywords ∧ hit.standsAlone = true := by
  have isFound := Segment.mem_hits_iff.mp (List.mem_of_find?_eq_some misuse)
  have alone : hit.standsAlone = true := List.find?_some misuse
  obtain ⟨isIn, isKeyword⟩ := mem_keywords_of_mem_segments wellFormed.identifiers isFound alone
  exact ⟨isIn, isKeyword, alone⟩

theorem exists_place_of_misused {kind : Misuse} {hit : Hit}
    (misuse : table.misused? (Mask.ofCode (Line.read text openBefore).code).text kind = some hit) :
    hit.word ∈ table.keywords ∧
      ∃ place, (Line.read text openBefore).locate? hit.offset = some place ∧
        (place, .word hit.word) ∈ Lexeme.located 0 (Lexeme.read text openBefore).1 := by
  obtain ⟨⟨before, after, split, offset, left, right⟩, isKeyword, alone⟩ :=
    isIn_of_misused? wellFormed misuse
  rw [Hit.standsAlone, left, right] at alone
  rw [offset]
  exact ⟨isKeyword, exists_place wellFormed isKeyword split alone⟩

end Accepted

/-- The keyword of a placement fault of the built-in table is where the first visible character of
the code is. -/
theorem exists_lead_place {text : Text} {openBefore : Bool} {row : Row} {parent : Text}
    (member : row ∈ builtin.rows) (dependent : row.role = .dependent parent)
    (fits : row.fits (Mask.ofCode (Line.read text openBefore).code).text = true) :
    ∃ place, (((Mask.ofCode (Line.read text openBefore).code).text.findWord? row.keyword).bind
        (Line.read text openBefore).locate?) = some place ∧
      (Line.read text openBefore).leadOffset? = some place := by
  obtain ⟨brace, trail, inTrails, context⟩ := leading_of_dependent member dependent
  have occurs : (Pattern.leading brace row.keyword trail).occursIn
      (Mask.ofCode (Line.read text openBefore).code).text = true := by
    rw [Row.fits, context, Option.any_some] at fits
    exact fits
  obtain ⟨lead, rest, split, isLead, separated⟩ := Pattern.exists_lead_of_occursIn inTrails occurs
  have isIdentifier := wellFormed_builtin.identifiers row.keyword (List.mem_map.mpr ⟨row, member, rfl⟩)
  have nonempty := Text.ne_nil_of_isIdentifier isIdentifier
  have identifier := Text.isIdentifierChar_of_isIdentifier isIdentifier
  have separators := Text.isIdentifierChar_of_mem_lead isLead
  have found : (Mask.ofCode (Line.read text openBefore).code).text.findWord? row.keyword =
      some lead.bytes := by
    rw [split, Text.findWord?, if_neg nonempty, Text.findWordFrom?_of_separators nonempty identifier
      separated lead separators none rfl 0, Nat.zero_add]
  have masked := Mask.ofText_text_ofCode (Line.read text openBefore).code
  rw [split, Lexeme.ofText_separators separators, Lexeme.ofText_run nonempty identifier separated,
    Line.ofCode_code, Piece.ofFragments_joined] at masked
  obtain ⟨more, lexemes⟩ := Mask.eq_of_maskedFrom_eq (Mask.marker_not_mem_lead _ isLead) masked.symm
  obtain ⟨place, isPlace, isLeadOffset⟩ :=
    Line.leadOffset?_of_lead lexemes isLead nonempty identifier
  refine ⟨place, ?_, isLeadOffset⟩
  -- Before the first placeholder the masked code and the code are the same.
  have fragments : (Mask.ofCode (Line.read text openBefore).code).fragments =
      lead.map .plain ++ (Lexeme.word row.keyword :: more).flatMap Lexeme.fragments := by
    have whole := Lexeme.flatMap_fragments_ofFragments
      (Fragment.ofCode (Line.read text openBefore).code)
    rw [Line.ofCode_code, Piece.ofFragments_joined, lexemes, List.flatMap_append, List.flatMap_map,
      ← Line.ofCode_code] at whole
    have leadFragments : lead.flatMap (fun c => (Lexeme.other c).fragments) = lead.map .plain :=
      List.map_eq_flatMap.symm
    rw [leadFragments] at whole
    exact whole.symm
  have inCode := Mask.offsetInCode_of_append fragments
  rw [Mask.textFrom_plain, Mask.flatMap_text_plains] at inCode
  rw [found, Option.bind_some, Line.locate?, inCode]
  exact isPlace

/-- What a fault of a line says about the place of its keyword. -/
theorem exists_offset_of_judge {table : Table} (wellFormed : table.WellFormed) {text file : Text}
    {openBefore : Bool} {blocks : Blocks} {number : Nat} {diagnostic : Diagnostic}
    (failed : table.judge blocks file number (Line.read text openBefore) = .error diagnostic) :
    ∃ offset, diagnostic = .ofCause diagnostic.cause diagnostic.keyword
        { file, line := number, text } offset ∧
      diagnostic.keyword ∈ table.keywords ∧
      (∀ place, offset = some place →
        (place, .word diagnostic.keyword) ∈ Lexeme.located 0 (Lexeme.read text openBefore).1) ∧
      (∀ kind, diagnostic.cause = .misuse kind → offset.isSome = true) ∧
      (table = builtin → ∀ parent, diagnostic.cause = .placement parent →
        ∃ place, offset = some place ∧ (Line.read text openBefore).leadOffset? = some place) := by
  rcases judge_eq_error failed with
    ⟨row, parent, member, fits, dependent, rfl⟩ | ⟨kind, hit, misuse, rfl⟩
  · have isKeyword : row.keyword ∈ table.keywords := List.mem_map.mpr ⟨row, member, rfl⟩
    refine ⟨_, rfl, isKeyword, ?_, ?_, ?_⟩
    · intro place isPlace
      obtain ⟨offset, found, located⟩ := Option.bind_eq_some_iff.mp isPlace
      obtain ⟨before, after, split, rfl, alone⟩ := Text.exists_of_findWord? found
      obtain ⟨other, isOther, inLine⟩ := exists_place wellFormed isKeyword split alone
      obtain rfl : other = place := Option.some.inj (isOther.symm.trans located)
      exact inLine
    · intro kind impossible
      simp [Diagnostic.ofCause, Diagnostic.withMessage] at impossible
    · intro isBuiltin otherParent _
      subst isBuiltin
      exact exists_lead_place member dependent fits
  · obtain ⟨isKeyword, place, isPlace, inLine⟩ := exists_place_of_misused wellFormed misuse
    refine ⟨_, rfl, isKeyword, ?_, ?_, ?_⟩
    · intro other isOther
      obtain rfl : place = other := Option.some.inj (isPlace.symm.trans isOther)
      exact inLine
    · intro _ _
      rw [isPlace]
      rfl
    · intro _ parent impossible
      simp [Diagnostic.ofCause, Diagnostic.withMessage] at impossible

end Table

/-- A keyword between two parts of a line: alone, inside one code piece, and outside every literal. -/
structure Line.HasKeywordAt (line : Line) (keyword before after : Text) : Prop where
  cut : line.text = before ++ keyword ++ after
  alone : Text.standsBetween before.getLast? after.head? = true
  inPiece : ∃ earlier code later, line.pieces = earlier ++ .code code :: later ∧
    Text.bytes (earlier.flatMap Piece.text) ≤ before.bytes ∧
    before.bytes + keyword.bytes ≤ Text.bytes (earlier.flatMap Piece.text) + code.bytes
  apart : ∀ place quoted,
    (place, .literal quoted) ∈ Lexeme.located 0 (Lexeme.read line.text line.openBefore).1 →
      place + quoted.bytes ≤ before.bytes ∨ before.bytes + keyword.bytes ≤ place

theorem Line.exists_hasKeywordAt {text keyword : Text} {openBefore : Bool} {place : Nat}
    (member : (place, .word keyword) ∈ Lexeme.located 0 (Lexeme.read text openBefore).1) :
    ∃ before after, before.bytes = place ∧
      (read text openBefore).HasKeywordAt keyword before after := by
  obtain ⟨before, after, split, isPlace⟩ := Lexeme.mem_located_iff.mp member
  rw [Nat.zero_add] at isPlace
  refine ⟨before.flatMap Lexeme.text, after.flatMap Lexeme.text, isPlace.symm, ?_, ?_, ?_, ?_⟩
  · have whole := Lexeme.flatMap_text_read text openBefore
    rw [split, List.flatMap_append, List.flatMap_cons, ← List.append_assoc] at whole
    exact whole.symm
  · exact Lexeme.wordsAlone_read text openBefore before keyword after split
  · rw [Lexeme.read_eq] at member
    obtain ⟨earlier, code, later, pieces, lower, upper⟩ := Piece.exists_code_of_mem_located member
    exact ⟨earlier, code, later, pieces, by omega, by omega⟩
  · intro other quoted otherMember
    rw [← isPlace]
    exact Lexeme.located_apart member otherMember (by simp)

theorem Text.any_isBlank_of_isIdentifier {word : Text} (identifier : word.isIdentifier = true) :
    word.getLast?.any isBlank = false := by
  have nonempty := ne_nil_of_isIdentifier identifier
  have last := isIdentifierChar_of_isIdentifier identifier _ (List.getLast_mem nonempty)
  rw [List.getLast?_eq_some_getLast nonempty, Option.any_some]
  exact isBlank_of_identifier last

/-- Every diagnostic is about a line of the source and points at its keyword there. -/
theorem Table.diagnostic_points_at_keyword {read? : Text → Option Pattern} {rules : List Rule} {table : Table}
    (accepted : ofRules read? rules = .ok table) {source file : Text} {diagnostic : Diagnostic}
    (failed : table.compile source file = .error diagnostic) :
    1 ≤ diagnostic.line ∧ diagnostic.line ≤ source.lines.length ∧
      ∃ line, (Line.readAll false source.lines)[diagnostic.line - 1]? = some line ∧
        source.lines[diagnostic.line - 1]? = some line.text ∧
        diagnostic.sourceLine = line.text.trimEnd ∧
        (∀ offset, diagnostic.offset? = some offset → ∃ before after, before.bytes = offset ∧
          line.HasKeywordAt diagnostic.keyword before after ∧
          diagnostic.column? = some (before.length + 1)) ∧
        (∀ kind, diagnostic.cause = .misuse kind → diagnostic.offset?.isSome = true) ∧
        (table = builtin → ∀ parent, diagnostic.cause = .placement parent →
          ∃ offset, diagnostic.offset? = some offset ∧ line.leadOffset? = some offset) := by
  have wellFormed := wellFormed_of_ofRules accepted
  obtain ⟨index, line, blocks, isLine, isText, judged⟩ := exists_judge_of_compile failed
  have isRead := Line.eq_read_of_mem_readAll (List.mem_of_getElem? isLine)
  obtain ⟨offset, equality, isKeyword, located, misused, placed⟩ :=
    exists_offset_of_judge wellFormed judged
  have identifier := wellFormed.identifiers _ isKeyword
  have number : diagnostic.line = 1 + index := congrArg Diagnostic.line equality
  have indexEquality : diagnostic.line - 1 = index := by omega
  have inLines : index < source.lines.length := (List.getElem?_eq_some_iff.mp isText).1
  have pointed : ∀ place, offset = some place → ∃ before after, before.bytes = place ∧
      line.HasKeywordAt diagnostic.keyword before after ∧ diagnostic.offset? = some place ∧
      diagnostic.column? = some (before.length + 1) := by
    intro place isPlace
    obtain ⟨before, after, rfl, hasKeyword⟩ := Line.exists_hasKeywordAt (located place isPlace)
    rw [← isRead] at hasKeyword
    obtain ⟨shown, column⟩ := Diagnostic.offset?_of_cut diagnostic.cause
      { file, line := 1 + index, text := line.text } hasKeyword.cut
      (Text.any_isBlank_of_isIdentifier identifier) (Text.ne_nil_of_isIdentifier identifier)
    rw [isPlace] at equality
    refine ⟨before, after, rfl, hasKeyword, ?_, ?_⟩
    · rw [equality]
      exact shown
    · rw [equality]
      exact column
  refine ⟨by omega, by omega, line, by rw [indexEquality]; exact isLine,
    by rw [indexEquality]; exact isText, ?_, ?_, ?_, ?_⟩
  · rw [equality]
    exact Diagnostic.sourceLine_ofCause ..
  · intro place shown
    rw [equality] at shown
    obtain ⟨before, after, size, hasKeyword, _, column⟩ := pointed place (Diagnostic.offset?_eq_some shown)
    exact ⟨before, after, size, hasKeyword, column⟩
  · intro kind isMisuse
    obtain ⟨place, isPlace⟩ := Option.isSome_iff_exists.mp (misused kind isMisuse)
    obtain ⟨_, _, _, _, shown, _⟩ := pointed place isPlace
    rw [shown]
    rfl
  · intro isBuiltin parent isPlacement
    obtain ⟨place, isPlace, isLead⟩ := placed isBuiltin parent isPlacement
    obtain ⟨_, _, _, _, shown, _⟩ := pointed place isPlace
    rw [isRead]
    exact ⟨place, shown, isLead⟩

theorem Table.builtin_diagnostic_points_behind_brace :
    ∃ diagnostic, builtin.compile "lock a = 1;\n/* x */ \x7d meh \x7b".toList [] = .error diagnostic ∧
      ∃ line, (Line.readAll false
          (Text.lines "lock a = 1;\n/* x */ \x7d meh \x7b".toList))[1]? = some line ∧
        diagnostic.sourceLine = line.text.trimEnd ∧
        diagnostic.offset? = some 10 ∧ line.leadOffset? = some 10 ∧
        ∃ before after, before.bytes = 10 ∧ line.HasKeywordAt "meh".toList before after ∧
          diagnostic.column? = some (before.length + 1) := by
  have failed : builtin.compile "lock a = 1;\n/* x */ \x7d meh \x7b".toList [] =
      .error (.ofCause (.placement "when".toList) "meh".toList
        { file := [], line := 2, text := "/* x */ \x7d meh \x7b".toList } (some 10)) :=
    eq_error_of_match (by decide +kernel)
  obtain ⟨_, _, line, isLine, _, sourceLine, pointed, _, placed⟩ :=
    diagnostic_points_at_keyword ofRules_builtinRules failed
  obtain ⟨offset, shown, isLead⟩ := placed rfl "when".toList rfl
  obtain rfl : offset = 10 := by
    have ten : (Diagnostic.ofCause (.placement "when".toList) "meh".toList
        { file := [], line := 2, text := "/* x */ \x7d meh \x7b".toList } (some 10)).offset? =
          some 10 := by decide
    exact Option.some.inj (shown.symm.trans ten)
  obtain ⟨before, after, size, hasKeyword, column⟩ := pointed 10 shown
  exact ⟨_, failed, line, isLine, sourceLine, shown, isLead, before, after, size, hasKeyword, column⟩

end Dialect
