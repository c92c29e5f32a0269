import Dialect.Proofs.Location
import Dialect.Proofs.MaskedBytes

/-!
# Compiling by slices

A source can be compiled, and the report about its fault rendered, with texts that are only ever cut at
byte offsets. Each cut fails unless its offsets are in order, within the text and between two characters.
Main statement: no cut fails, for any table and source, and the result is what compiling gives
(`Sliced.compile?_and_render?_eq_some`).
-/

namespace Dialect

namespace Text

/-! ## Words -/

theorem le_bytes_of_sliceFrom? {text rest : Text} {start : Nat} (sliced : text.sliceFrom? start = some rest) :
    start ≤ text.bytes := by
  obtain ⟨⟨before, after⟩, cut, rfl⟩ := Option.map_eq_some_iff.mp sliced
  obtain ⟨rfl, rfl⟩ := append_eq_of_splitAt? cut
  rw [bytes_append]
  exact Nat.le_add_right ..

/-- Looks for a word that stands alone, from a byte offset on. -/
def seekWordFrom? (text word : Text) (start : Nat) : Option (Option Nat) :=
  match _sliced : text.sliceFrom? start with
  | none => none
  | some rest =>
      match rest.seek? word with
      | none => some none
      | some offset => do
          if ← text.standsAlone? (start + offset) (start + offset + word.bytes) then
            return some (start + offset)
          else
            let here ← text.sliceFrom? (start + offset)
            seekWordFrom? text word (start + offset + here.head?.elim 1 Char.utf8Size)
termination_by text.bytes + 1 - start
decreasing_by
  have := le_bytes_of_sliceFrom? _sliced
  have : 0 < here.head?.elim 1 Char.utf8Size := by
    cases here.head? with
    | none => exact Nat.one_pos
    | some c => exact c.utf8Size_pos
  omega

/-- The byte offset of the first occurrence of a word that stands alone, by slices. -/
def seekWord? (text word : Text) : Option (Option Nat) :=
  if word = [] then some none else seekWordFrom? text word 0

theorem standsAlone?_append (before word after : Text) :
    (before ++ word ++ after).standsAlone? before.bytes (before.bytes + word.bytes) =
      some (standsBetween before.getLast? after.head?) := by
  have stop := splitAt?_append (before ++ word) after
  rw [bytes_append] at stop
  have start := splitAt?_append before (word ++ after)
  rw [← List.append_assoc] at start
  rw [standsAlone?, start, stop]

theorem seekWordFrom?_of_slice {text rest : Text} {start : Nat} (sliced : text.sliceFrom? start = some rest)
    (word : Text) :
    seekWordFrom? text word start =
      match rest.seek? word with
      | none => some none
      | some offset =>
          (text.standsAlone? (start + offset) (start + offset + word.bytes)).bind fun alone =>
            if alone then some (some (start + offset))
            else
              (text.sliceFrom? (start + offset)).bind fun here =>
                seekWordFrom? text word (start + offset + here.head?.elim 1 Char.utf8Size) := by
  rw [seekWordFrom?]
  split
  next failed => simp [sliced] at failed
  next other isOther =>
    rw [sliced] at isOther
    obtain rfl := Option.some.inj isOther
    rfl

theorem seekWordFrom?_eq {word : Text} (nonempty : word ≠ []) (before rest : Text) :
    seekWordFrom? (before ++ rest) word before.bytes =
      some (findWordFrom? word before.getLast? before.bytes rest) := by
  induction rest generalizing before with
  | nil =>
      rw [seekWordFrom?_of_slice (sliceFrom?_append before []), seek?, if_neg nonempty]
      rfl
  | cons c rest inductionHypothesis =>
      have sliced := sliceFrom?_append before (c :: rest)
      have slicedBehind := sliceFrom?_append (before ++ [c]) rest
      have behind := inductionHypothesis (before ++ [c])
      rw [List.getLast?_concat] at behind
      rw [List.append_assoc, List.singleton_append, bytes_append, bytes_singleton] at slicedBehind behind
      rw [seekWordFrom?_of_slice sliced, seek?, findWordFrom?]
      by_cases isPrefix : word.isPrefixOf (c :: rest) = true
      · obtain ⟨after, whole⟩ := List.isPrefixOf_iff_prefix.mp isPrefix
        have alone := standsAlone?_append before word after
        rw [List.append_assoc, whole] at alone
        have right : (c :: rest).drop word.length = after := by rw [← whole, List.drop_left]
        simp only [isPrefix, if_true, true_and, Nat.add_zero, alone, Option.bind_some, right, sliced,
          List.head?_cons, Option.elim_some, behind]
        split
        next => rfl
        next => rfl
      · rw [seekWordFrom?_of_slice slicedBehind] at behind
        rw [if_neg isPrefix, if_neg (fun both => isPrefix both.1), ← behind]
        cases seek? rest word with
        | none => rfl
        | some offset => simp only [Option.map_some, Nat.add_assoc]

theorem seekWord?_eq (text word : Text) : seekWord? text word = some (findWord? text word) := by
  rw [seekWord?, findWord?]
  split
  next => rfl
  next nonempty => exact seekWordFrom?_eq nonempty [] text

end Text

namespace Hit

/-- The word of a hit, cut out of the text. -/
def slice? (text : Text) (hit : Hit) : Option Text := text.slice? hit.offset (hit.offset + hit.word.bytes)

/-- Whether the word of a hit stands alone in the text. -/
def alone? (text : Text) (hit : Hit) : Option Bool :=
  text.standsAlone? hit.offset (hit.offset + hit.word.bytes)

theorem IsIn.slice? {text : Text} {hit : Hit} (isIn : hit.IsIn text) : hit.slice? text = some hit.word := by
  obtain ⟨before, after, split, offset, _, _⟩ := isIn
  rw [Hit.slice?, split, offset, Text.slice?_append]

theorem IsIn.alone? {text : Text} {hit : Hit} (isIn : hit.IsIn text) :
    hit.alone? text = some hit.standsAlone := by
  obtain ⟨before, after, split, offset, left, right⟩ := isIn
  rw [Hit.alone?, split, offset, Text.standsAlone?_append, standsAlone, left, right]

end Hit

/-- The byte offset in the code of a byte offset in the masked text. -/
def Masked.offsetInCode (masked : Masked) (offset : Nat) : Nat :=
  match masked.ends.reverse.find? fun (textEnd, _) => textEnd ≤ offset with
  | none => offset
  | some (textEnd, codeEnd) => offset - textEnd + codeEnd

@[simp]
theorem Masked.offsetInCode_masked (mask : Mask) (offset : Nat) :
    mask.masked.offsetInCode offset = mask.offsetInCode offset := rfl

/-! ## Reports -/

/-- A diagnostic with the line that it is about and the byte offset of the keyword in it. -/
structure Report where
  cause : Cause
  message : Text
  file : Text
  line : Nat
  keyword : Text
  sourceLine : Text
  offset : Option Nat

namespace Report

/-- The report about a keyword. An offset at which the keyword does not stand is dropped. -/
def ofCause (cause : Cause) (keyword : Text) (site : Site) (offset : Option Nat) : Report where
  cause := cause
  message := cause.message keyword
  file := site.file
  line := site.line
  keyword := keyword
  sourceLine := site.text.trimEnd
  offset := offset.filter fun place => site.text.trimEnd.slice? place (place + keyword.bytes) = some keyword

/-- The column of the keyword, counted in characters from one. -/
def column? (report : Report) : Option (Option Nat) :=
  match report.offset with
  | none => some none
  | some offset => do
      let before ← report.sourceLine.sliceTo? offset
      return some (before.length + 1)

/-- The line around the keyword. -/
def excerpt? (report : Report) : Option Excerpt :=
  match report.offset with
  | none => some (.whole report.sourceLine)
  | some offset => do
      let before ← report.sourceLine.sliceTo? offset
      let after ← report.sourceLine.sliceFrom? (offset + report.keyword.bytes)
      return .located before after

/-- The rendered report. -/
def render? (report : Report) (coloured : Bool) : Option Text := do
  let excerpt ← report.excerpt?
  let diagnostic : Diagnostic :=
    { cause := report.cause, message := report.message, file := report.file, line := report.line,
      keyword := report.keyword, excerpt }
  return diagnostic.render coloured

end Report

namespace Diagnostic

/-- The report that says the same as a diagnostic. -/
def report (diagnostic : Diagnostic) : Report where
  cause := diagnostic.cause
  message := diagnostic.message
  file := diagnostic.file
  line := diagnostic.line
  keyword := diagnostic.keyword
  sourceLine := diagnostic.sourceLine
  offset := diagnostic.offset?

theorem offset?_ofCause (cause : Cause) (keyword : Text) (site : Site) (offset : Option Nat) :
    (ofCause cause keyword site offset).offset? =
      offset.filter fun place =>
        site.text.trimEnd.slice? place (place + keyword.bytes) = some keyword := by
  apply Option.ext
  intro place
  rw [offset?_ofCause_eq_some_iff, Option.filter_eq_some_iff, decide_eq_true_eq, Text.slice?_eq_some_iff]
  refine and_congr_right fun _ => ?_
  constructor
  · rintro ⟨before, after, whole, rfl⟩
    exact ⟨before, after, whole, rfl, rfl⟩
  · rintro ⟨before, after, whole, rfl, _⟩
    exact ⟨before, after, whole, rfl⟩

theorem report_ofCause (cause : Cause) (keyword : Text) (site : Site) (offset : Option Nat) :
    (ofCause cause keyword site offset).report = Report.ofCause cause keyword site offset := by
  rw [report, Report.ofCause, sourceLine_ofCause, offset?_ofCause]
  rfl

theorem column?_report (diagnostic : Diagnostic) :
    diagnostic.report.column? = some diagnostic.column? := by
  obtain ⟨_, _, _, _, keyword, excerpt⟩ := diagnostic
  cases excerpt with
  | located before after =>
      have cut := Text.sliceTo?_append before (keyword ++ after)
      rw [← List.append_assoc] at cut
      simp only [Report.column?, report, sourceLine, offset?, column?, cut]
      rfl
  | whole text => rfl

theorem render?_report (diagnostic : Diagnostic) (coloured : Bool) :
    diagnostic.report.render? coloured = some (diagnostic.render coloured) := by
  have excerpt : diagnostic.report.excerpt? = some diagnostic.excerpt := by
    obtain ⟨_, _, _, _, keyword, excerpt⟩ := diagnostic
    cases excerpt with
    | located before after =>
        have cut := Text.sliceTo?_append before (keyword ++ after)
        have cutBehind := Text.sliceFrom?_append (before ++ keyword) after
        rw [← List.append_assoc] at cut
        rw [Text.bytes_append] at cutBehind
        simp only [Report.excerpt?, report, sourceLine, offset?, cut, cutBehind]
        rfl
    | whole text => rfl
  rw [Report.render?, excerpt]
  rfl

end Diagnostic

namespace Sliced

/-! ## Replacing -/

variable (table : Table)

/-- What takes the place of a segment of a text. -/
def replaceSegment? (text : Text) : Segment → Option Text
  | .char c => some [c]
  | .found hit => do
      let word ← hit.slice? text
      let alone ← hit.alone? text
      return (if alone then table.equivalent word else word) ++ hit.trail

/-- Replaces every keyword that stands alone. -/
def replaceWords? (text : Text) : Option Text := do
  let parts ← (Pattern.segments table.keywordPattern .empty text).mapM (replaceSegment? table text)
  return parts.flatten

/-- Replaces the keywords in code outside its literals. -/
def replaceInCode? (code : Text) : Option Text := do
  let masked ← Masked.ofCode? code
  let replaced ← replaceWords? table masked.text
  masked.restore? replaced

/-- Replaces the keywords in a piece of a line. -/
def replaceInPiece? : Piece → Option Text
  | .code text => replaceInCode? table text
  | .comment text => some text

/-- Replaces the keywords in the code of a line. -/
def replaceInLine? (line : Line) : Option Text := do
  let parts ← line.pieces.mapM (replaceInPiece? table)
  return parts.flatten

theorem mapM_eq_some {α β : Type} {f : α → Option β} {g : α → β} {items : List α}
    (defined : ∀ item ∈ items, f item = some (g item)) : items.mapM f = some (items.map g) := by
  induction items with
  | nil => rfl
  | cons item others inductionHypothesis =>
      have first := defined item List.mem_cons_self
      have later := inductionHypothesis fun other member => defined other (List.mem_cons_of_mem item member)
      rw [List.mapM_cons, first, later]
      rfl

theorem replaceWords?_eq (text : Text) : replaceWords? table text = some (table.replaceWords text) := by
  have defined : ∀ segment ∈ Pattern.segments table.keywordPattern .empty text,
      replaceSegment? table text segment = some (table.replaceSegment segment) := by
    intro segment member
    cases segment with
    | char c => rfl
    | found hit =>
        have isIn := Pattern.isIn_of_mem_segments member
        rw [replaceSegment?, isIn.slice?, isIn.alone?]
        rfl
  rw [replaceWords?, mapM_eq_some defined, Table.replaceWords, List.flatMap_def]
  rfl

theorem replaceInCode?_eq (code : Text) : replaceInCode? table code = some (table.replaceInCode code) := by
  rw [replaceInCode?, Masked.ofCode?_eq, Table.replaceInCode]
  simp only [Option.bind_eq_bind, Option.bind_some, Mask.masked_text, replaceWords?_eq, Masked.restore?_eq]

theorem replaceInLine?_eq (line : Line) : replaceInLine? table line = some (table.replaceInLine line) := by
  have defined : ∀ piece ∈ line.pieces, replaceInPiece? table piece = some (table.replaceInPiece piece) := by
    intro piece _
    cases piece with
    | code text => exact replaceInCode?_eq table text
    | comment text => rfl
  rw [replaceInLine?, mapM_eq_some defined, Table.replaceInLine, List.flatMap_def]
  rfl

/-! ## Judging -/

/-- The first hit that stands alone. -/
def firstAlone? (text : Text) : List Hit → Option (Option Hit)
  | [] => some none
  | hit :: hits => do
      if ← hit.alone? text then return some hit
      else firstAlone? text hits

/-- The first misuse of a keyword among the given kinds. -/
def firstMisuse? (code : Text) : List Misuse → Option (Option (Misuse × Hit))
  | [] => some none
  | kind :: kinds => do
      let segments := Pattern.segments table.keywordPattern (Table.misuseTrail kind) code
      match ← firstAlone? code (segments.filterMap Segment.hit?) with
      | none => firstMisuse? code kinds
      | some hit => return some (kind, hit)

/-- Judges a line of a file, given the blocks that are open before it. -/
def judge? (blocks : Blocks) (file : Text) (number : Nat) (line : Line) :
    Option (Except Report Verdict) := do
  let masked ← Masked.ofCode? line.code
  let code := masked.text
  let site : Site := { file, line := number, text := line.text }
  let locate (offset : Nat) : Option Nat := line.offsetInLine? (masked.offsetInCode offset)
  if code.allBlank then return .ok .skipped
  else
    match table.rows.find? fun row => row.fits code with
    | some row =>
        match row.role with
        | .plain => return .ok .valid
        | .opener => return .ok (.opens row.keyword)
        | .dependent parent =>
            if blocks.top? = some parent then return .ok .valid
            else
              let place ← code.seekWord? row.keyword
              return .error (.ofCause (.placement parent) row.keyword site (place.bind locate))
    | none =>
        match ← firstMisuse? table code Misuse.all with
        | none => return .ok .valid
        | some (kind, hit) =>
            let keyword ← hit.slice? code
            return .error (.ofCause (.misuse kind) keyword site (locate hit.offset))

theorem firstAlone?_eq {text : Text} {hits : List Hit} (areIn : ∀ hit ∈ hits, hit.IsIn text) :
    firstAlone? text hits = some (hits.find? Hit.standsAlone) := by
  induction hits with
  | nil => rfl
  | cons hit hits inductionHypothesis =>
      have isIn := areIn hit List.mem_cons_self
      have later := inductionHypothesis fun other member => areIn other (List.mem_cons_of_mem hit member)
      rw [firstAlone?, isIn.alone?, later, List.find?_cons]
      cases hit.standsAlone with
      | false => rfl
      | true => rfl

theorem firstMisuse?_eq (code : Text) (kinds : List Misuse) :
    firstMisuse? table code kinds =
      some (kinds.findSome? fun kind => (table.misused? code kind).map fun hit => (kind, hit)) := by
  induction kinds with
  | nil => rfl
  | cons kind kinds inductionHypothesis =>
      have areIn : ∀ hit ∈ (Pattern.segments table.keywordPattern (Table.misuseTrail kind) code).filterMap
          Segment.hit?, hit.IsIn code := fun hit member =>
        Pattern.isIn_of_mem_segments (Segment.mem_hits_iff.mp member)
      rw [firstMisuse?, firstAlone?_eq areIn, inductionHypothesis, List.findSome?_cons, Table.misused?]
      cases List.find? Hit.standsAlone _ with
      | none => rfl
      | some hit => rfl

/-- The outcome with the diagnostic as a report. -/
def reported {α : Type} : Except Diagnostic α → Except Report α
  | .ok value => .ok value
  | .error diagnostic => .error diagnostic.report

theorem judge?_eq (blocks : Blocks) (file : Text) (number : Nat) (line : Line) :
    judge? table blocks file number line = some (reported (table.judge blocks file number line)) := by
  rw [judge?, Masked.ofCode?_eq, Table.judge]
  simp only [Option.bind_eq_bind, Option.bind_some, Mask.masked_text, Masked.offsetInCode_masked]
  change (if (Mask.ofCode line.code).text.allBlank = true then _ else _) = _
  by_cases blank : (Mask.ofCode line.code).text.allBlank = true
  · rw [if_pos blank, if_pos blank]
    rfl
  rw [if_neg blank, if_neg blank]
  cases table.rows.find? fun row => row.fits (Mask.ofCode line.code).text with
  | some row =>
      cases role : row.role with
      | plain => simp only [role]; rfl
      | opener => simp only [role]; rfl
      | dependent parent =>
          simp only [role]
          by_cases inside : blocks.top? = some parent
          · rw [if_pos inside, if_pos inside]
            rfl
          · rw [if_neg inside, if_neg inside, Text.seekWord?_eq, reported, Diagnostic.report_ofCause]
            rfl
  | none =>
      have misuse : firstMisuse? table (Mask.ofCode line.code).text Misuse.all =
          some (table.firstMisuse? (Mask.ofCode line.code).text) := firstMisuse?_eq table _ _
      simp only [misuse, Option.bind_some]
      cases found : table.firstMisuse? (Mask.ofCode line.code).text with
      | none => rfl
      | some kindAndHit =>
          obtain ⟨kind, hit⟩ := kindAndHit
          have misused := Table.misused?_of_firstMisuse? found
          have isIn : hit.IsIn (Mask.ofCode line.code).text :=
            Pattern.isIn_of_mem_segments (Segment.mem_hits_iff.mp (List.mem_of_find?_eq_some misused))
          simp only [isIn.slice?, Option.bind_some, reported,
            Diagnostic.report_ofCause]
          rfl

/-! ## Compiling -/

/-- Compiles the line with the given number. -/
def compileLine? (file : Text) (number : Nat) (progress : Progress) (text : Text) :
    Option (Except Report (Text × Progress)) := do
  let line ← Line.scan? text progress.commentOpen
  match ← judge? table progress.blocks file number line with
  | .error report => return .error report
  | .ok verdict =>
      let compiled ← replaceInLine? table line
      return .ok (compiled, progress.afterLine line (.ok verdict))

/-- Compiles lines of which the first has the given number. -/
def compileLines? (file : Text) (number : Nat) (progress : Progress) :
    List Text → Option (Except Report (List Text × Progress))
  | [] => some (.ok ([], progress))
  | text :: texts => do
      match ← compileLine? table file number progress text with
      | .error report => return .error report
      | .ok (compiled, next) =>
          match ← compileLines? file (number + 1) next texts with
          | .error report => return .error report
          | .ok (others, last) => return .ok (compiled :: others, last)

/-- Compiles a source. -/
def compile? (source file : Text) : Option (Except Report Text) := do
  match ← compileLines? table file 1 .start source.lines with
  | .error report => return .error report
  | .ok (lines, _) => return .ok (Text.unlines lines)

theorem compileLine?_eq (file : Text) (number : Nat) (progress : Progress) (text : Text) :
    compileLine? table file number progress text =
      some (reported (table.compileLine file number progress text)) := by
  rw [compileLine?, Line.scan?_eq, Table.compileLine]
  simp only [Option.bind_eq_bind, Option.bind_some, judge?_eq]
  cases table.judge progress.blocks file number (Line.read text progress.commentOpen) with
  | error diagnostic => rfl
  | ok verdict =>
      simp only [reported, replaceInLine?_eq, Option.bind_some]
      rfl

theorem compileLines?_eq (file : Text) (number : Nat) (progress : Progress) (texts : List Text) :
    compileLines? table file number progress texts =
      some (reported (table.compileLines file number progress texts)) := by
  induction texts generalizing number progress with
  | nil => rfl
  | cons text texts inductionHypothesis =>
      rw [compileLines?, compileLine?_eq, Table.compileLines]
      cases table.compileLine file number progress text with
      | error diagnostic => rfl
      | ok compiled =>
          simp only [reported, Option.bind_eq_bind, Option.bind_some, inductionHypothesis]
          cases table.compileLines file (number + 1) compiled.2 texts with
          | error diagnostic => rfl
          | ok others => rfl

theorem compile?_eq (source file : Text) :
    compile? table source file = some (reported (table.compile source file)) := by
  rw [compile?, compileLines?_eq, Table.compile]
  cases table.compileLines file 1 .start source.lines with
  | error diagnostic => rfl
  | ok compiled => rfl

/-- No cut fails while a source is compiled, nor while the report about its fault is rendered, and the
results are those of compiling and rendering. -/
theorem compile?_and_render?_eq_some (source file : Text) :
    match table.compile source file with
    | .ok text => compile? table source file = some (.ok text)
    | .error diagnostic =>
        compile? table source file = some (.error diagnostic.report) ∧
          diagnostic.report.column? = some diagnostic.column? ∧
            ∀ coloured, diagnostic.report.render? coloured = some (diagnostic.render coloured) := by
  have compiled := compile?_eq table source file
  cases outcome : table.compile source file with
  | ok text =>
      rw [outcome] at compiled
      exact compiled
  | error diagnostic =>
      rw [outcome] at compiled
      exact ⟨compiled, diagnostic.column?_report, diagnostic.render?_report⟩

end Sliced

end Dialect
