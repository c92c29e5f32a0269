import Mathlib.Data.List.Forall2
import Dialect.Proofs.Location
import Dialect.Proofs.Masking

/-!
# What a report shows

A report shows the line of its diagnostic without the blanks at its end and, if the keyword has a place
there, a row of carets below it. Main statements: the carets stand under the keyword, whatever the line
holds before it (`Diagnostic.carets_under_keyword`), and a coloured report is the plain one with control
sequences in between (`Diagnostic.withoutStyles_render`).
-/

namespace Dialect

/-! ## The line that is shown -/

/-- A text is what is left of a line when the blanks at its end are taken away. -/
def Text.IsTrimmed (line shown : Text) : Prop :=
  ∃ blanks, line = shown ++ blanks ∧ (∀ c ∈ blanks, isBlank c = true) ∧
    shown.getLast?.any isBlank = false

theorem Text.isTrimmed_trimEnd (line : Text) : IsTrimmed line line.trimEnd := by
  refine ⟨(line.reverse.takeWhile isBlank).reverse, ?_, ?_, ?_⟩
  · rw [trimEnd, ← List.reverse_append, List.takeWhile_append_dropWhile, List.reverse_reverse]
  · intro c member
    exact List.all_eq_true.mp List.all_takeWhile c (List.mem_reverse.mp member)
  · rw [trimEnd, List.getLast?_reverse]
    cases kept : (line.reverse.dropWhile isBlank).head? with
    | none => rfl
    | some last =>
        have visible := List.head?_dropWhile_not isBlank line.reverse
        rw [kept] at visible
        simpa using visible

theorem Text.lineFeed_not_mem_trimEnd {line : Text} (oneLine : '\n' ∉ line) : '\n' ∉ line.trimEnd := by
  obtain ⟨blanks, split, _, _⟩ := isTrimmed_trimEnd line
  exact fun member => oneLine (split ▸ List.mem_append_left blanks member)

/-- Some rows, each of which ends with a line feed. -/
def Text.ofRows (rows : List Text) : Text := rows.flatMap fun row => row ++ ['\n']

namespace Diagnostic

/-! ## The rows of a plain report -/

/-- The blank margin that is as wide as the line number. -/
def gutter (diagnostic : Diagnostic) : Text := (Text.decimal diagnostic.line).map fun _ => ' '

/-- The rows of a plain report above the line: what is wrong, where, and an empty row. -/
def rowsAbove (diagnostic : Diagnostic) (column : Nat) : List Text :=
  [ "error[".toList ++ diagnostic.cause.code ++ [']'] ++ ": ".toList ++ diagnostic.message,
    "  --> ".toList ++ (diagnostic.file ++ [':'] ++ Text.decimal diagnostic.line ++ [':'] ++
      Text.decimal column),
    diagnostic.gutter ++ " |".toList ]

/-- The rows of a plain report below the line and the carets. -/
def rowsBelow (diagnostic : Diagnostic) : List Text :=
  [ diagnostic.gutter ++ " |".toList,
    diagnostic.gutter ++ " = help: ensure the keyword \"".toList ++ diagnostic.keyword ++
      "\" is used in the correct context".toList ]

/-- The row of the line that is shown. -/
def sourceRow (diagnostic : Diagnostic) : Text :=
  Text.decimal diagnostic.line ++ " | ".toList ++ diagnostic.sourceLine

/-- The row of carets for a keyword with some text before it. -/
def caretRow (diagnostic : Diagnostic) (before : Text) : Text :=
  diagnostic.gutter ++ " | ".toList ++
    (padding before ++ List.replicate diagnostic.keyword.length '^')

theorem reportLines_of_located {diagnostic : Diagnostic} {before after : Text}
    (located : diagnostic.excerpt = .located before after) :
    diagnostic.reportLines false =
      diagnostic.rowsAbove (before.length + 1) ++ [diagnostic.sourceRow, diagnostic.caretRow before] ++
        diagnostic.rowsBelow := by
  have source : diagnostic.sourceRow =
      Text.decimal diagnostic.line ++ " | ".toList ++ before ++ diagnostic.keyword ++ after := by
    rw [sourceRow, sourceLine, located]
    simp only [List.append_assoc]
  have carets : diagnostic.caretRow before =
      diagnostic.gutter ++ " | ".toList ++ padding before ++ diagnostic.keyword.map fun _ => '^' := by
    rw [caretRow, List.map_const', List.append_assoc _ (padding before)]
  rw [reportLines, column?, located, source, carets]
  rfl

theorem reportLines_of_whole {diagnostic : Diagnostic} {text : Text}
    (whole : diagnostic.excerpt = .whole text) :
    diagnostic.reportLines false =
      diagnostic.rowsAbove 1 ++ [diagnostic.sourceRow] ++ diagnostic.rowsBelow := by
  rw [reportLines, column?, sourceRow, sourceLine, whole]
  rfl

/-- The rows of a line and of carets. Behind margins of the same width, one has a keyword and the text
around it, and the other has padding as wide as the text before the keyword and a caret for each
character of the keyword. -/
structure CaretsUnder (before keyword after margin caretMargin pad sourceRow caretRow : Text) :
    Prop where
  sourceRow_eq : sourceRow = margin ++ (before ++ keyword ++ after)
  caretRow_eq : caretRow = caretMargin ++ (pad ++ List.replicate keyword.length '^')
  sameMargin : margin.length = caretMargin.length
  sameWidth : pad.length = before.length
  sameTabs : ∀ i : Nat, pad[i]? = some '\t' ↔ before[i]? = some '\t'
  otherwiseSpaces : ∀ c ∈ pad, c ≠ '\t' → c = ' '
  oneRowEach : '\n' ∉ sourceRow ∧ '\n' ∉ caretRow

theorem getElem?_padding_eq_tab_iff (before : Text) (i : Nat) :
    (padding before)[i]? = some '\t' ↔ before[i]? = some '\t' := by
  rw [padding, List.getElem?_map, Option.map_eq_some_iff]
  constructor
  · rintro ⟨c, found, padded⟩
    by_cases tab : c = '\t'
    · rw [found, tab]
    · simp [tab] at padded
  · intro found
    exact ⟨'\t', found, rfl⟩

theorem eq_tab_or_space_of_mem_padding {before : Text} {c : Char} (member : c ∈ padding before) :
    c = '\t' ∨ c = ' ' := by
  obtain ⟨d, _, rfl⟩ := List.mem_map.mp member
  by_cases tab : d = '\t'
  · exact Or.inl (if_pos tab)
  · exact Or.inr (if_neg tab)

theorem not_mem_padding {c : Char} (notTab : c ≠ '\t') (notSpace : c ≠ ' ') (before : Text) :
    c ∉ padding before :=
  fun member => (eq_tab_or_space_of_mem_padding member).elim notTab notSpace

theorem not_mem_decimal {c : Char} (notDigit : c.isDigit = false) (n : Nat) : c ∉ Text.decimal n := by
  intro member
  rw [Text.isDigit_of_mem_decimal n c member] at notDigit
  exact Bool.noConfusion notDigit

theorem not_mem_gutter {c : Char} (notSpace : c ≠ ' ') (diagnostic : Diagnostic) :
    c ∉ diagnostic.gutter := by
  simp [gutter, notSpace]

theorem caretsUnder_rows {diagnostic : Diagnostic} {before after : Text}
    (located : diagnostic.excerpt = .located before after) (oneLine : '\n' ∉ diagnostic.sourceLine) :
    CaretsUnder before diagnostic.keyword after (Text.decimal diagnostic.line ++ " | ".toList)
      (diagnostic.gutter ++ " | ".toList) (padding before) diagnostic.sourceRow
      (diagnostic.caretRow before) where
  sourceRow_eq := by rw [sourceRow, sourceLine, located]
  caretRow_eq := rfl
  sameMargin := by simp [gutter]
  sameWidth := List.length_map _
  sameTabs := getElem?_padding_eq_tab_iff before
  otherwiseSpaces := fun c member notTab => (eq_tab_or_space_of_mem_padding member).resolve_left notTab
  oneRowEach := by
    have notNumber : '\n' ∉ Text.decimal diagnostic.line := not_mem_decimal (by decide) _
    have notGutter : '\n' ∉ diagnostic.gutter := not_mem_gutter (by decide) diagnostic
    have notPadding : '\n' ∉ padding before := not_mem_padding (by decide) (by decide) before
    exact ⟨by simp [sourceRow, notNumber, oneLine], by simp [caretRow, notGutter, notPadding]⟩

/-- A diagnostic shows its line without the blanks at the end. It keeps the place of the keyword exactly
if the keyword stands there. Then there are carets under the keyword, and the column is that of the
keyword; without a place there are none, and the column is the first. -/
theorem carets_under_keyword {cause : Cause} {keyword : Text} {site : Site} {offset : Option Nat}
    {diagnostic : Diagnostic} (made : diagnostic = ofCause cause keyword site offset)
    (oneLine : '\n' ∉ site.text) :
    ∃ shown, site.text.IsTrimmed shown ∧
      (∀ place, diagnostic.offset? = some place ↔
        offset = some place ∧
          ∃ before after, shown = before ++ keyword ++ after ∧ before.bytes = place) ∧
      (∀ place, diagnostic.offset? = some place →
        ∃ before after margin caretMargin pad sourceRow caretRow,
          shown = before ++ keyword ++ after ∧ before.bytes = place ∧
          CaretsUnder before keyword after margin caretMargin pad sourceRow caretRow ∧
          diagnostic.render false = .ofRows (diagnostic.rowsAbove (before.length + 1) ++
            [sourceRow, caretRow] ++ diagnostic.rowsBelow)) ∧
      (diagnostic.offset? = none →
        diagnostic.render false = .ofRows (diagnostic.rowsAbove 1 ++
          [Text.decimal site.line ++ " | ".toList ++ shown] ++ diagnostic.rowsBelow)) := by
  subst made
  have shown := sourceLine_ofCause cause keyword site offset
  refine ⟨site.text.trimEnd, Text.isTrimmed_trimEnd site.text,
    fun place => offset?_ofCause_eq_some_iff, ?_, ?_⟩
  · intro place found
    obtain ⟨rfl, before, after, whole, rfl⟩ := offset?_ofCause_eq_some_iff.mp found
    have located : (ofCause cause keyword site (some before.bytes)).excerpt = .located before after :=
      Excerpt.ofLine_eq_located_iff.mpr ⟨rfl, whole.symm⟩
    have oneRow : '\n' ∉ (ofCause cause keyword site (some before.bytes)).sourceLine :=
      shown ▸ Text.lineFeed_not_mem_trimEnd oneLine
    exact ⟨before, after, _, _, _, _, _, whole, rfl, caretsUnder_rows located oneRow,
      congrArg Text.ofRows (reportLines_of_located located)⟩
  · intro unplaced
    cases excerpt : (ofCause cause keyword site offset).excerpt with
    | located before after => simp [offset?, excerpt] at unplaced
    | whole text =>
        have rows := reportLines_of_whole excerpt
        rw [sourceRow, shown] at rows
        exact congrArg Text.ofRows rows

/-- Behind a tab and a character of two bytes, the column is not the offset. -/
theorem carets_under_keyword_behind_tab :
    '\n' ∉ "\té fun = 1 ".toList ∧
      ∃ diagnostic, diagnostic = ofCause (.misuse .variable) "fun".toList
          { file := "a".toList, line := 12, text := "\té fun = 1 ".toList } (some 4) ∧
        diagnostic.offset? = some 4 ∧
        ∃ before after margin caretMargin pad sourceRow caretRow,
          before.bytes = 4 ∧
          CaretsUnder before "fun".toList after margin caretMargin pad sourceRow caretRow ∧
          diagnostic.render false = .ofRows (diagnostic.rowsAbove (before.length + 1) ++
            [sourceRow, caretRow] ++ diagnostic.rowsBelow) := by
  have oneLine : '\n' ∉ "\té fun = 1 ".toList := by decide
  have found : (ofCause (.misuse .variable) "fun".toList
      { file := "a".toList, line := 12, text := "\té fun = 1 ".toList } (some 4)).offset? = some 4 := by
    decide +kernel
  obtain ⟨_, _, _, placed, _⟩ := @carets_under_keyword (.misuse .variable) "fun".toList
    { file := "a".toList, line := 12, text := "\té fun = 1 ".toList } (some 4) _ rfl oneLine
  obtain ⟨before, after, margin, caretMargin, pad, sourceRow, caretRow, _, size, carets, report⟩ :=
    placed 4 found
  exact ⟨oneLine, _, rfl, found, before, after, margin, caretMargin, pad, sourceRow, caretRow, size,
    carets, report⟩

/-! ## Control sequences -/

/-- A character between the start and the end of a control sequence. -/
def isParameter (c : Char) : Bool := c.isDigit || c == ';'

/-- A control sequence that switches styles. -/
def IsStyleSequence (text : Text) : Prop :=
  ∃ parameters : Text, text = '\x1b' :: '[' :: (parameters ++ ['m']) ∧
    ∀ c ∈ parameters, isParameter c = true

/-- What follows a control sequence at the start of a text. -/
def afterSequence? : Text → Option Text
  | '\x1b' :: '[' :: rest =>
      match rest.dropWhile isParameter with
      | 'm' :: after => some after
      | _ => none
  | _ => none

theorem afterSequence?_append {sequence : Text} (isStyle : IsStyleSequence sequence) (after : Text) :
    afterSequence? (sequence ++ after) = some after := by
  obtain ⟨parameters, rfl, areParameters⟩ := isStyle
  have notParameter : isParameter 'm' = false := by decide
  have rest : (parameters ++ ['m'] ++ after).dropWhile isParameter = 'm' :: after := by
    rw [List.append_assoc, List.dropWhile_append_of_pos areParameters, List.singleton_append,
      List.dropWhile_cons, notParameter, if_neg Bool.false_ne_true]
  simp only [List.cons_append, afterSequence?, rest]

theorem exists_of_afterSequence? {text after : Text} (found : afterSequence? text = some after) :
    ∃ sequence, IsStyleSequence sequence ∧ text = sequence ++ after := by
  rw [afterSequence?.eq_def] at found
  split at found
  next rest =>
    split at found
    next ending dropped =>
      obtain rfl := Option.some.inj found
      refine ⟨_, ⟨rest.takeWhile isParameter, rfl, List.all_eq_true.mp List.all_takeWhile⟩, ?_⟩
      have whole := List.takeWhile_append_dropWhile (p := isParameter) (l := rest)
      rw [dropped] at whole
      simp [whole]
    next => simp at found
  next => simp at found

theorem length_lt_of_afterSequence? {text after : Text} (found : afterSequence? text = some after) :
    after.length < text.length := by
  obtain ⟨_, ⟨parameters, rfl, _⟩, rfl⟩ := exists_of_afterSequence? found
  simp only [List.cons_append, List.length_cons, List.length_append]
  omega

/-- A text without its control sequences. -/
def withoutStyles : Text → Text
  | [] => []
  | c :: rest =>
      match _ : afterSequence? (c :: rest) with
      | some after => withoutStyles after
      | none => c :: withoutStyles rest
termination_by text => text.length
decreasing_by
  · exact length_lt_of_afterSequence? (by assumption)
  · exact Nat.lt_succ_self _

theorem withoutStyles_sequence {sequence : Text} (isStyle : IsStyleSequence sequence) (rest : Text) :
    withoutStyles (sequence ++ rest) = withoutStyles rest := by
  have found := afterSequence?_append isStyle rest
  obtain ⟨parameters, rfl, _⟩ := isStyle
  rw [List.cons_append] at found ⊢
  rw [withoutStyles]
  split
  next after isAfter => rw [Option.some.inj (isAfter.symm.trans found)]
  next noSequence => exact absurd (noSequence.symm.trans found) (by simp)

theorem withoutStyles_cons {c : Char} (notEscape : c ≠ '\x1b') (rest : Text) :
    withoutStyles (c :: rest) = c :: withoutStyles rest := by
  rw [withoutStyles]
  split
  next after found =>
    obtain ⟨_, ⟨parameters, rfl, _⟩, split⟩ := exists_of_afterSequence? found
    exact absurd (List.cons.inj split).1 notEscape
  next => rfl

/-! ## Styled texts -/

/-- A styled text shows a plain one: without control sequences it is the same, whatever follows. -/
def Shows (styled plain : Text) : Prop :=
  ∀ rest, withoutStyles (styled ++ rest) = plain ++ withoutStyles rest

namespace Shows

theorem append {styled plain otherStyled otherPlain : Text} (first : Shows styled plain)
    (second : Shows otherStyled otherPlain) : Shows (styled ++ otherStyled) (plain ++ otherPlain) := by
  intro rest
  rw [List.append_assoc, first, second, List.append_assoc]

theorem ofPlain {plain : Text} (noEscape : '\x1b' ∉ plain) : Shows plain plain := by
  intro rest
  induction plain with
  | nil => rfl
  | cons c others inductionHypothesis =>
      have notEscape : c ≠ '\x1b' := fun isEscape => noEscape (isEscape ▸ List.mem_cons_self)
      rw [List.cons_append, withoutStyles_cons notEscape,
        inductionHypothesis fun member => noEscape (List.mem_cons_of_mem c member), List.cons_append]

theorem ofSequence {sequence : Text} (isStyle : IsStyleSequence sequence) : Shows sequence [] :=
  fun rest => withoutStyles_sequence isStyle rest

theorem paint (style : Style) {plain : Text} (noEscape : '\x1b' ∉ plain) :
    Shows (style.paint true plain) (style.paint false plain) := by
  have opening : IsStyleSequence style.opening := by
    cases style
    all_goals exact ⟨_, rfl, List.all_eq_true.mp (by decide)⟩
  have reset : IsStyleSequence Style.reset := ⟨_, rfl, List.all_eq_true.mp (by decide)⟩
  have shown := ((ofSequence opening).append (ofPlain noEscape)).append (ofSequence reset)
  rw [List.nil_append, List.append_nil] at shown
  exact shown

theorem ofRows {styled plain : List Text} (rows : List.Forall₂ Shows styled plain) :
    Shows (.ofRows styled) (.ofRows plain) := by
  induction rows with
  | nil => exact ofPlain List.not_mem_nil
  | cons first _ inductionHypothesis =>
      exact (first.append (ofPlain (by decide))).append inductionHypothesis

end Shows

theorem escape_not_mem_heading (cause : Cause) : '\x1b' ∉ "error[".toList ++ cause.code ++ [']'] := by
  cases cause with
  | placement parent => exact (by decide : '\x1b' ∉ "error[".toList ++ "JLY001".toList ++ [']'])
  | misuse kind => exact (by decide : '\x1b' ∉ "error[".toList ++ "JLY002".toList ++ [']'])

/-- The rows of the line and of the carets. -/
def excerptRows (diagnostic : Diagnostic) (coloured : Bool) : List Text :=
  match diagnostic.excerpt with
  | .located before after =>
      [ Text.decimal diagnostic.line ++ " | ".toList ++ before ++
          Style.boldRed.paint coloured diagnostic.keyword ++ after,
        diagnostic.gutter ++ " | ".toList ++ padding before ++
          Style.red.paint coloured (diagnostic.keyword.map fun _ => '^') ]
  | .whole text => [Text.decimal diagnostic.line ++ " | ".toList ++ text]

section Fields

variable {diagnostic : Diagnostic} (keywordFree : '\x1b' ∉ diagnostic.keyword)

include keywordFree

theorem shows_excerptRows (lineFree : '\x1b' ∉ diagnostic.sourceLine) :
    List.Forall₂ Shows (diagnostic.excerptRows true) (diagnostic.excerptRows false) := by
  have margin : Shows (Text.decimal diagnostic.line ++ " | ".toList)
      (Text.decimal diagnostic.line ++ " | ".toList) :=
    (Shows.ofPlain (not_mem_decimal (by decide) _)).append (.ofPlain (by decide))
  have caretMargin : Shows (diagnostic.gutter ++ " | ".toList) (diagnostic.gutter ++ " | ".toList) :=
    (Shows.ofPlain (not_mem_gutter (by decide) diagnostic)).append (.ofPlain (by decide))
  cases excerpt : diagnostic.excerpt with
  | whole text =>
      have textFree : '\x1b' ∉ text := by rwa [sourceLine, excerpt] at lineFree
      rw [excerptRows, excerptRows, excerpt]
      exact .cons (margin.append (.ofPlain textFree)) .nil
  | located before after =>
      simp only [sourceLine, excerpt, List.mem_append, not_or] at lineFree
      have caretsFree : '\x1b' ∉ diagnostic.keyword.map fun _ => '^' := by simp
      rw [excerptRows, excerptRows, excerpt]
      refine .cons ?_ (.cons ?_ .nil)
      · exact ((margin.append (.ofPlain lineFree.1.1)).append (.paint .boldRed keywordFree)).append
          (.ofPlain lineFree.2)
      · exact (caretMargin.append (.ofPlain (not_mem_padding (by decide) (by decide) before))).append
          (.paint .red caretsFree)

theorem shows_render (messageFree : '\x1b' ∉ diagnostic.message) (fileFree : '\x1b' ∉ diagnostic.file)
    (lineFree : '\x1b' ∉ diagnostic.sourceLine) :
    Shows (diagnostic.render true) (diagnostic.render false) := by
  have number := Shows.paint .yellow (not_mem_decimal (by decide) diagnostic.line)
  have empty : Shows (diagnostic.gutter ++ " |".toList) (diagnostic.gutter ++ " |".toList) :=
    (Shows.ofPlain (not_mem_gutter (by decide) diagnostic)).append (.ofPlain (by decide))
  have colon : Shows [':'] [':'] := .ofPlain (by decide)
  have heading := ((Shows.paint .boldRed (escape_not_mem_heading diagnostic.cause)).append
    (.ofPlain (by decide : '\x1b' ∉ ": ".toList))).append (.paint .bold messageFree)
  have place := (Shows.ofPlain (by decide : '\x1b' ∉ "  --> ".toList)).append
    (((((Shows.paint .cyan fileFree).append colon).append number).append colon).append
      (.ofPlain (not_mem_decimal (by decide) (diagnostic.column?.getD 1))))
  have help := (((Shows.ofPlain (not_mem_gutter (by decide) diagnostic)).append
    (.ofPlain (by decide : '\x1b' ∉ " = help: ensure the keyword \"".toList))).append
      (.paint .blue keywordFree)).append
        (.ofPlain (by decide : '\x1b' ∉ "\" is used in the correct context".toList))
  -- The rows of both reports correspond one by one, also those of the excerpt.
  exact .ofRows (.cons heading (.cons place (.cons empty
    (List.rel_append (shows_excerptRows keywordFree lineFree) (.cons empty (.cons help .nil))))))

end Fields

/-- A coloured report is the plain one with control sequences in between. -/
theorem withoutStyles_render (diagnostic : Diagnostic) (messageFree : '\x1b' ∉ diagnostic.message)
    (fileFree : '\x1b' ∉ diagnostic.file) (lineFree : '\x1b' ∉ diagnostic.sourceLine)
    (keywordFree : '\x1b' ∉ diagnostic.keyword) :
    withoutStyles (diagnostic.render true) = diagnostic.render false := by
  have shown := shows_render keywordFree messageFree fileFree lineFree []
  rwa [List.append_nil, withoutStyles, List.append_nil] at shown

/-- Texts that look like the rest of a control sequence are kept. -/
theorem withoutStyles_render_around_brackets :
    ∃ diagnostic, diagnostic = ofCause (.placement "0m".toList) "[31m".toList
        { file := "1;31m".toList, line := 7, text := "\t[0m [31m;".toList } (some 5) ∧
      '\x1b' ∉ diagnostic.message ∧ '\x1b' ∉ diagnostic.file ∧ '\x1b' ∉ diagnostic.sourceLine ∧
      '\x1b' ∉ diagnostic.keyword ∧ diagnostic.offset? = some 5 ∧
      withoutStyles (diagnostic.render true) = diagnostic.render false := by
  refine ⟨_, rfl, by decide, by decide, by decide, by decide, by decide +kernel,
    withoutStyles_render _ ?_ ?_ ?_ ?_⟩
  all_goals decide

end Diagnostic

end Dialect
