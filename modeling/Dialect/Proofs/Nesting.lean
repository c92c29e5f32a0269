import Mathlib.Data.List.Induction
import Dialect.Proofs.Leading
import Dialect.Proofs.Sequencing

/-!
# The innermost block

The open blocks are a stack that each line may push to or pop from. What is on it can be read off the
lines alone: a block is still open if as many blocks have been closed behind its opener as have been
opened there, and at no point more. Main statement: a keyword that depends on a block is accepted
exactly where that block is the innermost one in this sense (`Table.dependent_accepted_iff_innermost`).
-/

namespace Dialect

/-- What a line without a fault does to the blocks. -/
inductive BlockEvent where
  | closes
  | opens (label : Text)
  | other
  deriving DecidableEq, Repr

namespace BlockEvent

/-- A closing brace alone closes a block, whatever the verdict on its line. -/
def ofLine (line : Line) (verdict : Verdict) : BlockEvent :=
  if line.code.trim = ['\x7d'] then .closes
  else
    match verdict with
    | .opens label => .opens label
    | _ => .other

def isOpening : BlockEvent → Bool
  | .opens _ => true
  | _ => false

def isClosing : BlockEvent → Bool
  | .closes => true
  | _ => false

/-- The blocks behind an event. -/
def applyTo (blocks : Blocks) : BlockEvent → Blocks
  | .closes => blocks.pop
  | .opens label => blocks.push label
  | .other => blocks

theorem applyTo_ofLine (blocks : Blocks) (line : Line) (verdict : Verdict) :
    applyTo blocks (ofLine line verdict) = blocks.afterLine line.code.trim verdict := by
  by_cases brace : line.code.trim = ['\x7d']
  · simp [ofLine, Blocks.afterLine, brace, applyTo]
  · cases verdict <;> simp [ofLine, Blocks.afterLine, brace, applyTo]

/-! ## Blocks opened and closed -/

/-- At no point have more blocks been closed than opened, and so many more are opened in all. -/
structure Deepens (depth : Nat) (events : List BlockEvent) : Prop where
  never : ∀ front, front <+: events → front.countP isClosing ≤ front.countP isOpening
  total : events.countP isOpening = events.countP isClosing + depth

theorem deepens_nil_iff (depth : Nat) : Deepens depth [] ↔ depth = 0 := by
  constructor
  · intro deepens
    have total := deepens.total
    simp only [List.countP_nil] at total
    omega
  · rintro rfl
    refine ⟨fun front isPrefix => ?_, rfl⟩
    rw [List.prefix_nil.mp isPrefix]
    exact Nat.le_refl _

theorem deepens_concat_iff (depth : Nat) (events : List BlockEvent) (event : BlockEvent) :
    Deepens depth (events ++ [event]) ↔
      (∀ front, front <+: events → front.countP isClosing ≤ front.countP isOpening) ∧
        events.countP isOpening + [event].countP isOpening =
          events.countP isClosing + [event].countP isClosing + depth := by
  constructor
  · intro deepens
    refine ⟨fun front isPrefix => deepens.never front (List.prefix_concat_iff.mpr (Or.inr isPrefix)), ?_⟩
    have total := deepens.total
    rwa [List.countP_append, List.countP_append] at total
  · rintro ⟨never, total⟩
    rw [← List.countP_append, ← List.countP_append] at total
    refine ⟨fun front isPrefix => ?_, total⟩
    rcases List.prefix_concat_iff.mp isPrefix with whole | earlier
    · rw [whole]
      omega
    · exact never front earlier

theorem deepens_concat_opens_iff (depth : Nat) (events : List BlockEvent) (label : Text) :
    Deepens (depth + 1) (events ++ [.opens label]) ↔ Deepens depth events := by
  rw [deepens_concat_iff]
  constructor
  · rintro ⟨never, total⟩
    exact ⟨never, Nat.add_right_cancel total⟩
  · intro deepens
    exact ⟨deepens.never, congrArg (· + 1) deepens.total⟩

theorem not_deepens_zero_concat_opens (events : List BlockEvent) (label : Text) :
    ¬Deepens 0 (events ++ [.opens label]) := by
  rw [deepens_concat_iff]
  rintro ⟨never, total⟩
  have bound := never events (List.prefix_refl events)
  have opening : [opens label].countP isOpening = 1 := rfl
  have closing : [opens label].countP isClosing = 0 := rfl
  omega

theorem deepens_concat_closes_iff (depth : Nat) (events : List BlockEvent) :
    Deepens depth (events ++ [.closes]) ↔ Deepens (depth + 1) events := by
  have opening : [closes].countP isOpening = 0 := rfl
  have closing : [closes].countP isClosing = 1 := rfl
  rw [deepens_concat_iff, opening, closing]
  constructor
  · rintro ⟨never, total⟩
    exact ⟨never, by omega⟩
  · intro deepens
    have total := deepens.total
    exact ⟨deepens.never, by omega⟩

theorem deepens_concat_other_iff (depth : Nat) (events : List BlockEvent) :
    Deepens depth (events ++ [.other]) ↔ Deepens depth events := by
  rw [deepens_concat_iff]
  constructor
  · rintro ⟨never, total⟩
    exact ⟨never, total⟩
  · intro deepens
    exact ⟨deepens.never, deepens.total⟩

/-- A block with a label is still open behind some events, with so many blocks inside it. -/
def OpenAt (depth : Nat) (label : Text) (events : List BlockEvent) : Prop :=
  ∃ before after, events = before ++ .opens label :: after ∧ Deepens depth after

/-- A block is the innermost one if it has been opened and every block that was opened later, and no
other, has been closed. -/
def Innermost (label : Text) (events : List BlockEvent) : Prop := OpenAt 0 label events

theorem openAt_concat_iff (depth : Nat) (label : Text) (events : List BlockEvent)
    (event : BlockEvent) :
    OpenAt depth label (events ++ [event]) ↔
      (event = .opens label ∧ depth = 0) ∨
        ∃ before after, events = before ++ .opens label :: after ∧
          Deepens depth (after ++ [event]) := by
  constructor
  · rintro ⟨before, after, split, deepens⟩
    rcases List.eq_nil_or_concat after with rfl | ⟨front, last, rfl⟩
    · left
      obtain ⟨_, isEvent⟩ := List.append_singleton_inj.mp split
      exact ⟨isEvent, (deepens_nil_iff depth).mp deepens⟩
    · right
      rw [List.concat_eq_append] at split deepens
      rw [← List.cons_append, ← List.append_assoc] at split
      obtain ⟨isEvents, rfl⟩ := List.append_singleton_inj.mp split
      exact ⟨before, front, isEvents, deepens⟩
  · rintro (⟨rfl, rfl⟩ | ⟨before, after, rfl, deepens⟩)
    · exact ⟨events, [], rfl, (deepens_nil_iff 0).mpr rfl⟩
    · exact ⟨before, after ++ [event], by simp, deepens⟩

/-- The labels on the stack, by how deep they lie. The induction is on the events from the last one
back; it has to speak of every depth, because closing a block brings the one below it to the top. -/
theorem labels_foldl_applyTo_iff (events : List BlockEvent) (depth : Nat) (label : Text) :
    (events.foldl applyTo .empty).labels[depth]? = some label ↔ OpenAt depth label events := by
  induction events using List.reverseRecOn generalizing depth with
  | nil => simp [Blocks.empty, OpenAt]
  | append_singleton events event inductionHypothesis =>
      rw [List.foldl_append, List.foldl_cons, List.foldl_nil, openAt_concat_iff]
      cases event with
      | closes =>
          rw [applyTo, Blocks.pop, List.getElem?_tail, inductionHypothesis]
          simp [OpenAt, deepens_concat_closes_iff]
      | other =>
          rw [applyTo, inductionHypothesis]
          simp [OpenAt, deepens_concat_other_iff]
      | opens other =>
          rw [applyTo, Blocks.push]
          cases depth with
          | zero => simp [not_deepens_zero_concat_opens]
          | succ depth =>
              rw [List.getElem?_cons_succ, inductionHypothesis]
              simp [OpenAt, deepens_concat_opens_iff]

theorem top?_foldl_applyTo_iff (events : List BlockEvent) (label : Text) :
    (events.foldl applyTo .empty).top? = some label ↔ Innermost label events := by
  rw [Blocks.top?, List.head?_eq_getElem?]
  exact labels_foldl_applyTo_iff events 0 label

end BlockEvent

namespace Table

/-! ## Runs -/

/-- What each line of a run does to the blocks, up to the first line with a fault. -/
def blockEvents (table : Table) (file : Text) :
    (number : Nat) → Progress → List Text → List BlockEvent
  | _, _, [] => []
  | number, progress, text :: texts =>
      let line := Line.read text progress.commentOpen
      match table.judge progress.blocks file number line with
      | .error _ => []
      | .ok verdict =>
          .ofLine line verdict ::
            blockEvents table file (number + 1) (progress.afterLine line (.ok verdict)) texts

theorem blockEvents_cons_of_ok {table : Table} {file text : Text} {number : Nat} {progress : Progress}
    {verdict : Verdict} (texts : List Text)
    (judged : table.judge progress.blocks file number (Line.read text progress.commentOpen) =
      .ok verdict) :
    table.blockEvents file number progress (text :: texts) =
      .ofLine (Line.read text progress.commentOpen) verdict ::
        table.blockEvents file (number + 1)
          (progress.afterLine (Line.read text progress.commentOpen) (.ok verdict)) texts := by
  rw [blockEvents]
  simp only [judged]

/-- A run does to the blocks what its lines do to them, one after the other. -/
theorem blocks_of_compileLines {table : Table} {file : Text} {number : Nat} {progress last : Progress}
    {texts outs : List Text}
    (compiled : table.compileLines file number progress texts = .ok (outs, last)) :
    last.blocks =
        (table.blockEvents file number progress texts).foldl BlockEvent.applyTo progress.blocks ∧
      (table.blockEvents file number progress texts).length = texts.length := by
  induction texts generalizing number progress outs with
  | nil =>
      obtain ⟨rfl, rfl⟩ := Prod.mk.inj (Except.ok.inj compiled)
      exact ⟨rfl, rfl⟩
  | cons text others inductionHypothesis =>
      obtain ⟨out, next, more, first, later, rfl⟩ := compileLines_cons_eq_ok_iff.mp compiled
      obtain ⟨verdict, judged, rfl, rfl⟩ := compileLine_eq_ok_iff.mp first
      obtain ⟨blocks, length⟩ := inductionHypothesis later
      rw [blockEvents_cons_of_ok others judged, List.foldl_cons, BlockEvent.applyTo_ofLine,
        List.length_cons, List.length_cons, length]
      exact ⟨blocks, rfl⟩

/-- Every block is labelled with a keyword of the table that opens blocks. -/
def Labels (table : Table) (blocks : Blocks) : Prop :=
  ∀ label ∈ blocks.labels, ∃ row ∈ table.rows, row.keyword = label ∧ row.role = .opener

theorem opener_of_judge {table : Table} {blocks : Blocks} {file label : Text} {number : Nat}
    {line : Line} (judged : table.judge blocks file number line = .ok (.opens label)) :
    ∃ row ∈ table.rows, row.keyword = label ∧ row.role = .opener := by
  simp only [judge] at judged
  split at judged
  next => simp at judged
  next =>
    split at judged
    next row found =>
      split at judged
      next => simp at judged
      next isOpener =>
        have isLabel : row.keyword = label := by simpa using judged
        exact ⟨row, List.mem_of_find?_eq_some found, isLabel, isOpener⟩
      next parent _ =>
        split at judged
        next => simp at judged
        next => simp at judged
    next =>
      split at judged
      next => simp at judged
      next => simp at judged

theorem labels_afterLine {table : Table} {progress : Progress} {file : Text} {number : Nat}
    {line : Line} {verdict : Verdict} (labelled : table.Labels progress.blocks)
    (judged : table.judge progress.blocks file number line = .ok verdict) :
    table.Labels (progress.afterLine line (.ok verdict)).blocks := by
  intro label member
  simp only [Progress.afterLine, ← BlockEvent.applyTo_ofLine, BlockEvent.ofLine] at member
  split at member
  next => exact labelled label (List.mem_of_mem_tail member)
  next =>
    cases verdict with
    | opens other =>
        rcases List.mem_cons.mp member with equality | inLabels
        · rw [equality]
          exact opener_of_judge judged
        · exact labelled label inLabels
    | skipped => exact labelled label member
    | valid => exact labelled label member

theorem labels_of_compileLines {table : Table} {file : Text} {number : Nat} {progress last : Progress}
    {texts outs : List Text} (labelled : table.Labels progress.blocks)
    (compiled : table.compileLines file number progress texts = .ok (outs, last)) :
    table.Labels last.blocks := by
  induction texts generalizing number progress outs with
  | nil =>
      obtain ⟨rfl, rfl⟩ := Prod.mk.inj (Except.ok.inj compiled)
      exact labelled
  | cons text others inductionHypothesis =>
      obtain ⟨out, next, more, first, later, rfl⟩ := compileLines_cons_eq_ok_iff.mp compiled
      obtain ⟨verdict, judged, rfl, rfl⟩ := compileLine_eq_ok_iff.mp first
      exact inductionHypothesis (labels_afterLine labelled judged) later

/-! ## Dependent keywords -/

theorem judge_of_dependent {table : Table} {line : Line} {row : Row} {parent : Text}
    (visible : line.code.allBlank = false)
    (first : table.rows.find? (fun row => row.fits (Mask.ofCode line.code).text) = some row)
    (dependent : row.role = .dependent parent) (blocks : Blocks) (file : Text) (number : Nat) :
    table.judge blocks file number line =
      if blocks.top? = some parent then .ok .valid
      else .error (.ofCause (.placement parent) row.keyword { file, line := number, text := line.text }
        (((Mask.ofCode line.code).text.findWord? row.keyword).bind line.locate?)) := by
  have notBlank : ¬(Mask.ofCode line.code).text.allBlank = true := by
    rw [Mask.allBlank_text_ofCode, visible]
    decide
  simp only [judge, if_neg notBlank, first, dependent]
  rfl

section Lines

variable {table : Table} {source file : Text} {count : Nat} {outs : List Text} {progress : Progress}
  (processed : table.compileLines file 1 .start (source.lines.take count) = .ok (outs, progress))
  {text : Text} (nextLine : source.lines[count]? = some text)

include processed nextLine

theorem compileLines_take_succ :
    table.compileLines file 1 .start (source.lines.take (count + 1)) =
      (table.compileLines file (count + 1) progress [text]).map fun (more, last) =>
        (outs ++ more, last) := by
  obtain ⟨inLines, _⟩ := List.getElem?_eq_some_iff.mp nextLine
  have number : 1 + (source.lines.take count).length = count + 1 := by
    rw [List.length_take, Nat.min_eq_left (Nat.le_of_lt inLines), Nat.add_comm]
  rw [List.take_add_one, nextLine, Option.toList_some, compileLines_append_of_ok [text] processed,
    number]

/-- A fault of the next line is the fault of the source. -/
theorem compile_of_judge_next {diagnostic : Diagnostic}
    (failed : table.judge progress.blocks file (count + 1) (Line.read text progress.commentOpen) =
      .error diagnostic) :
    table.compile source file = .error diagnostic := by
  have stopped : table.compileLines file 1 .start (source.lines.take (count + 1)) =
      .error diagnostic := by
    rw [compileLines_take_succ processed nextLine, compileLines, compileLine, failed]
    rfl
  rw [compile_eq_error_iff, ← List.take_append_drop (count + 1) source.lines]
  exact compileLines_append_of_error _ stopped

theorem compileLines_of_judge_next {verdict : Verdict}
    (judged : table.judge progress.blocks file (count + 1) (Line.read text progress.commentOpen) =
      .ok verdict) :
    ∃ run, table.compileLines file 1 .start (source.lines.take (count + 1)) = .ok run := by
  rw [compileLines_take_succ processed nextLine, compileLines, compileLine, judged]
  exact ⟨_, rfl⟩

end Lines

/-- A run that has come so far fails, if at all, on a later line. -/
theorem lt_line_of_compile {table : Table} {source file : Text} {count : Nat}
    {run : List Text × Progress} (short : count ≤ source.lines.length)
    (processed : table.compileLines file 1 .start (source.lines.take count) = .ok run)
    {diagnostic : Diagnostic} (failed : table.compile source file = .error diagnostic) :
    count < diagnostic.line := by
  rw [compile_eq_error_iff, ← List.take_append_drop count source.lines,
    compileLines_append_of_ok _ processed, List.length_take, Nat.min_eq_left short] at failed
  cases later : table.compileLines file (1 + count) run.2 (source.lines.drop count) with
  | ok more =>
      rw [later] at failed
      cases failed
  | error fault =>
      rw [later] at failed
      obtain rfl := Except.error.inj failed
      have bound := line_of_compileLines later
      omega

/-- After any number of lines, the innermost block is the one that the events of these lines leave
innermost, and a line whose first context is that of a dependent keyword is accepted exactly inside the
block of its parent. -/
theorem dependent_accepted_iff_innermost {table : Table} {source file : Text} {count : Nat}
    {outs : List Text} {progress : Progress}
    (processed : table.compileLines file 1 .start (source.lines.take count) = .ok (outs, progress)) :
    let events := table.blockEvents file 1 .start (source.lines.take count)
    events.length = (source.lines.take count).length ∧
      (∀ label, progress.blocks.top? = some label ↔ BlockEvent.Innermost label events) ∧
      (∀ label ∈ progress.blocks.labels,
        ∃ row ∈ table.rows, row.keyword = label ∧ row.role = .opener) ∧
      ∀ text, source.lines[count]? = some text →
        let line := Line.read text progress.commentOpen
        line.code.allBlank = false →
        ∀ row parent, table.rows.find? (fun row => row.fits (Mask.ofCode line.code).text) = some row →
          row.role = .dependent parent →
          (BlockEvent.Innermost parent events →
            (∃ run, table.compileLines file 1 .start (source.lines.take (count + 1)) = .ok run) ∧
              ∀ diagnostic, table.compile source file = .error diagnostic →
                count + 1 < diagnostic.line) ∧
          (¬BlockEvent.Innermost parent events →
            ∃ diagnostic, table.compile source file = .error diagnostic ∧
              diagnostic.cause = .placement parent ∧ diagnostic.line = count + 1) := by
  obtain ⟨blocks, length⟩ := blocks_of_compileLines processed
  have top (label : Text) : progress.blocks.top? = some label ↔ BlockEvent.Innermost label
      (table.blockEvents file 1 .start (source.lines.take count)) := by
    rw [blocks]
    exact BlockEvent.top?_foldl_applyTo_iff _ label
  have labelled : table.Labels progress.blocks :=
    labels_of_compileLines (fun label member => absurd member List.not_mem_nil) processed
  refine ⟨length, top, labelled, ?_⟩
  intro text nextLine line visible row parent first dependent
  have judged := judge_of_dependent visible first dependent progress.blocks file (count + 1)
  constructor
  · intro innermost
    rw [if_pos ((top parent).mpr innermost)] at judged
    obtain ⟨run, compiled⟩ := compileLines_of_judge_next processed nextLine judged
    obtain ⟨inLines, _⟩ := List.getElem?_eq_some_iff.mp nextLine
    exact ⟨⟨run, compiled⟩, fun diagnostic => lt_line_of_compile inLines compiled⟩
  · intro notInnermost
    rw [if_neg fun isTop => notInnermost ((top parent).mp isTop)] at judged
    exact ⟨_, compile_of_judge_next processed nextLine judged, rfl, rfl⟩

theorem builtin_dependent_behind_and_inside_pick :
    let closed : Text := "when (a) \x7b\npick (b) \x7b\n\x7d\n\x7d maybe (c) \x7b".toList
    let opened : Text := "when (a) \x7b\npick (b) \x7b\nmeh \x7b".toList
    BlockEvent.Innermost "when".toList (builtin.blockEvents [] 1 .start (closed.lines.take 3)) ∧
      (∃ run, builtin.compileLines [] 1 .start (closed.lines.take 4) = .ok run) ∧
      ¬BlockEvent.Innermost "when".toList (builtin.blockEvents [] 1 .start (opened.lines.take 2)) ∧
      ∃ diagnostic, builtin.compile opened [] = .error diagnostic ∧
        diagnostic.cause = .placement "when".toList ∧ diagnostic.line = 3 := by
  intro closed opened
  have closedRun : builtin.compileLines [] 1 .start (closed.lines.take 3) =
      .ok (["if (a) \x7b".toList, "switch (b) \x7b".toList, "\x7d".toList],
        { blocks := { labels := ["when".toList] }, commentOpen := false }) :=
    eq_ok_of_toOption (by decide +kernel)
  have openedRun : builtin.compileLines [] 1 .start (opened.lines.take 2) =
      .ok (["if (a) \x7b".toList, "switch (b) \x7b".toList],
        { blocks := { labels := ["pick".toList, "when".toList] }, commentOpen := false }) :=
    eq_ok_of_toOption (by decide +kernel)
  have first (text : Text) (found : (builtin.rows.find? fun row =>
      row.fits (Mask.ofCode (Line.read text false).code).text).map Row.role =
        some (.dependent "when".toList)) := Option.map_eq_some_iff.mp found
  obtain ⟨maybeRow, isMaybe, maybeRole⟩ := first "\x7d maybe (c) \x7b".toList (by decide +kernel)
  obtain ⟨mehRow, isMeh, mehRole⟩ := first "meh \x7b".toList (by decide +kernel)
  obtain ⟨_, closedTop, _, closedNext⟩ := dependent_accepted_iff_innermost closedRun
  obtain ⟨_, openedTop, _, openedNext⟩ := dependent_accepted_iff_innermost openedRun
  have inside := (closedTop "when".toList).mp rfl
  have outside : ¬BlockEvent.Innermost "when".toList
      (builtin.blockEvents [] 1 .start (opened.lines.take 2)) :=
    fun innermost => absurd ((openedTop "when".toList).mpr innermost) (by decide)
  refine ⟨inside, ?_, outside, ?_⟩
  · exact ((closedNext _ rfl (by decide +kernel) maybeRow _ isMaybe maybeRole).1 inside).1
  · exact (openedNext _ rfl (by decide +kernel) mehRow _ isMeh mehRole).2 outside

end Table

end Dialect
