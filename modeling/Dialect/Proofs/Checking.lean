import Dialect.Proofs.Runs
import Dialect.Proofs.Steps

/-!
# Checking and printing

Checking and compiling to the standard output differ only in what is done with a compiled text, and
neither touches the file tree. So both go through all sources, whatever faults they meet, and what is
said about a source depends on nothing but its path and its text (`workOn_of_readable`).
-/

namespace Dialect

namespace Invocation

open Session

/-! ## What is said about sources -/

/-- What a source on its own compiles to. -/
def verdict (sources : Path → Text) (file : Path) : Except Diagnostic Text :=
  Table.builtin.compile (sources file) file.text

/-- The messages about a source, given what is noted about one without a fault. -/
def messagesOn (coloured : Bool) (noted : Path → List Message) (sources : Path → Text) (file : Path) :
    List Message :=
  match verdict sources file with
  | .error diagnostic =>
      [.logged (.failed file diagnostic.cause.code), .printed (diagnostic.render coloured ++ ['\n'])]
  | .ok _ => noted file

/-- What is printed for a source, given how a compiled text is shown. -/
def shownFor (shown : Text → Text) (sources : Path → Text) (file : Path) : Text :=
  match verdict sources file with
  | .error _ => []
  | .ok compiled => shown compiled

/-- The number of sources with a fault. -/
def faultyCount (sources : Path → Text) (files : List Path) : Nat :=
  files.countP fun file => !(verdict sources file).isOk

/-- The last message of a run over all sources. -/
def closing (coloured : Bool) (sources : Path → Text) (files : List Path) : Message :=
  if faultyCount sources files = 0 then .logged (.finished files.length)
  else
    .printed (Diagnostic.Style.boldRed.paint coloured "error".toList ++ ": ".toList ++
      Text.decimal (faultyCount sources files) ++ " of ".toList ++ Text.decimal files.length ++
      " file(s) failed to compile\n".toList)

/-- A session in which compiled texts of sources have been shown and the sources have been noted. -/
def surveyed (coloured : Bool) (shown : Text → Text) (noted : Path → List Message) (sources : Path → Text)
    (session : Session) (files : List Path) : Session where
  tree := session.tree
  stdout := session.stdout ++ files.flatMap (shownFor shown sources)
  messages := session.messages ++ files.flatMap (messagesOn coloured noted sources)
  faulty := session.faulty + faultyCount sources files

/-- What is left behind by a run that shows compiled texts, notes their sources and leaves the tree
alone. -/
def survey (coloured : Bool) (shown : Text → Text) (noted : Path → List Message) (sources : Path → Text)
    (files : List Path) (tree : FileTree) : Outcome where
  exit := if faultyCount sources files = 0 then 0 else 1
  stdout := files.flatMap (shownFor shown sources)
  messages := files.flatMap (messagesOn coloured noted sources) ++ [closing coloured sources files]
  tree := tree

theorem faultyCount_append (sources : Path → Text) (files others : List Path) :
    faultyCount sources (files ++ others) =
      faultyCount sources files + faultyCount sources others :=
  List.countP_append

theorem surveyed_cons (coloured : Bool) (shown : Text → Text) (noted : Path → List Message)
    (sources : Path → Text) (session : Session) (file : Path) (files : List Path) :
    surveyed coloured shown noted sources (surveyed coloured shown noted sources session [file]) files =
      surveyed coloured shown noted sources session (file :: files) := by
  have counted := faultyCount_append sources [file] files
  rw [List.singleton_append] at counted
  simp [surveyed, counted, Nat.add_assoc]

theorem finish_surveyed (coloured : Bool) (shown : Text → Text) (noted : Path → List Message)
    (sources : Path → Text) (tree : FileTree) (files : List Path) :
    (surveyed coloured shown noted sources (.start tree) files).finish coloured files.length =
      survey coloured shown noted sources files tree := by
  by_cases clean : faultyCount sources files = 0
  · simp [finish, surveyed, Session.start, clean, survey, closing, record, exit]
  · have positive : 0 < faultyCount sources files := Nat.pos_of_ne_zero clean
    simp [finish, surveyed, Session.start, clean, positive, survey, closing, print, exit]

/-! ## Work that leaves the tree alone -/

/-- A delivery that shows a compiled text, notes its source, and does nothing else. -/
def Shows (deliver : Session → Path → Text → Except (Session × Failure) Session)
    (shown : Text → Text) (noted : Path → List Message) : Prop :=
  ∀ session file compiled, deliver session file compiled =
    .ok { session with
      stdout := session.stdout ++ shown compiled
      messages := session.messages ++ noted file }

theorem shows_printCompiled : Shows printCompiled (· ++ ['\n']) (fun _ => []) := by
  intro session file compiled
  simp [printCompiled]

theorem shows_notePassed : Shows notePassed (fun _ => []) (fun file => [.logged (.passed file)]) := by
  intro session file compiled
  simp [notePassed, record]

section Survey

variable {coloured : Bool} {deliver : Session → Path → Text → Except (Session × Failure) Session}
  {shown : Text → Text} {noted : Path → List Message} (shows : Shows deliver shown noted)
  {sources : Path → Text}

include shows

theorem attemptNow_of_readable {session : Session} {file : Path}
    (readable : session.tree.read file = .ok (sources file)) :
    attemptNow coloured deliver session file =
      .ok (surveyed coloured shown noted sources session [file]) := by
  have compiled : compileFile session.tree file = .ok (verdict sources file) :=
    compileFile_of_read readable
  rw [attemptNow, attempt, compiled]
  cases result : verdict sources file with
  | error diagnostic =>
      simp [report, record, print, surveyed, shownFor, messagesOn, faultyCount, result, Except.isOk,
        Except.toBool]
  | ok text =>
      simp [shows session file text, surveyed, shownFor, messagesOn, faultyCount, result,
        Except.isOk, Except.toBool]

/-- Work that leaves the tree alone comes to all sources. -/
theorem forEach_of_readable {files : List Path} (session : Session)
    (readable : ∀ file ∈ files, session.tree.read file = .ok (sources file)) :
    session.forEach (attemptNow coloured deliver) files =
      .ok (surveyed coloured shown noted sources session files) := by
  induction files generalizing session with
  | nil => simp [forEach, surveyed, faultyCount]
  | cons file files inductionHypothesis =>
      have others : ∀ other ∈ files, session.tree.read other = .ok (sources other) :=
        fun other member => readable other (List.mem_cons_of_mem file member)
      rw [forEach, attemptNow_of_readable shows (readable file List.mem_cons_self)]
      have rest := inductionHypothesis (surveyed coloured shown noted sources session [file]) others
      rw [surveyed_cons] at rest
      exact rest

theorem workOn_of_readable {surroundings : Surroundings} {tree : FileTree} {inputs files : List Path}
    (found : tree.discover surroundings.expand inputs = .ok files)
    (readable : ∀ file ∈ files, tree.read file = .ok (sources file)) :
    workOn surroundings (.start tree) inputs none (attemptNow surroundings.coloured deliver) =
      survey surroundings.coloured shown noted sources files tree := by
  have prepared : prepareOutput (.start tree) none = .ok (.start tree) := rfl
  rw [workOn_of_found found, workOnFiles_of_ready prepared,
    forEach_of_readable shows (.start tree) readable]
  exact finish_surveyed surroundings.coloured shown noted sources tree files

end Survey

/-! ## Both commands -/

/-- Messages that have a report more than others. The last message of each is its own. -/
def AddsReport (report fewer more : List Message) : Prop :=
  ∃ (earlier later : List Message) (last final : Message),
    fewer = earlier ++ later ++ [last] ∧ more = earlier ++ report ++ later ++ [final]

section Fault

variable {sources : Path → Text} {bad : Path} (fault : (verdict sources bad).isOk = false)

include fault

theorem exists_diagnostic : ∃ diagnostic, verdict sources bad = .error diagnostic := by
  cases result : verdict sources bad with
  | error diagnostic => exact ⟨diagnostic, rfl⟩
  | ok compiled => simp [result, Except.isOk, Except.toBool] at fault

theorem stdout_survey_without (coloured : Bool) (shown : Text → Text) (noted : Path → List Message)
    (before after : List Path) (tree without : FileTree) :
    (survey coloured shown noted sources (before ++ after) without).stdout =
      (survey coloured shown noted sources (before ++ bad :: after) tree).stdout := by
  obtain ⟨diagnostic, result⟩ := exists_diagnostic fault
  simp [survey, shownFor, result]

theorem addsReport_survey (coloured : Bool) (shown : Text → Text) (noted : Path → List Message)
    (before after : List Path) (tree without : FileTree) :
    AddsReport (messagesOn coloured (fun _ => []) sources bad)
      (survey coloured shown noted sources (before ++ after) without).messages
      (survey coloured shown noted sources (before ++ bad :: after) tree).messages := by
  obtain ⟨diagnostic, result⟩ := exists_diagnostic fault
  refine ⟨before.flatMap (messagesOn coloured noted sources),
    after.flatMap (messagesOn coloured noted sources),
    closing coloured sources (before ++ after), closing coloured sources (before ++ bad :: after), ?_, ?_⟩
  · simp only [survey, List.flatMap_append]
  · simp only [survey, List.flatMap_append, List.flatMap_cons, List.append_assoc, messagesOn, result]

end Fault

/-- Compiling to the standard output prints what each source compiles to on its own. Checking says the
same about the same sources, and notes those without a fault. Both leave the tree alone and end with
the same exit code. Without one of the faulty sources, the same is printed for the others. -/
theorem check_agrees_with_printing (surroundings : Surroundings) {tree : FileTree}
    {inputs files : List Path} {sources : Path → Text}
    (found : tree.discover surroundings.expand inputs = .ok files)
    (readable : ∀ file ∈ files, tree.read file = .ok (sources file)) :
    execute surroundings tree (.compile inputs none true) =
        survey surroundings.coloured (· ++ ['\n']) (fun _ => []) sources files tree ∧
      execute surroundings tree (.check inputs) =
        survey surroundings.coloured (fun _ => []) (fun file => [.logged (.passed file)]) sources files tree ∧
      ∀ (without : FileTree) (others before after : List Path) (bad : Path),
        files = before ++ bad :: after → (verdict sources bad).isOk = false →
        without.discover surroundings.expand others = .ok (before ++ after) →
        (∀ file ∈ before ++ after, without.read file = .ok (sources file)) →
        (execute surroundings without (.compile others none true)).stdout =
            (execute surroundings tree (.compile inputs none true)).stdout ∧
          AddsReport (messagesOn surroundings.coloured (fun _ => []) sources bad)
            (execute surroundings without (.compile others none true)).messages
            (execute surroundings tree (.compile inputs none true)).messages ∧
          AddsReport (messagesOn surroundings.coloured (fun _ => []) sources bad)
            (execute surroundings without (.check others)).messages
            (execute surroundings tree (.check inputs)).messages := by
  -- Discovery and reading are all that a run asks of its tree, so this serves both trees.
  have runs : ∀ {tree : FileTree} {inputs files : List Path},
      tree.discover surroundings.expand inputs = .ok files →
      (∀ file ∈ files, tree.read file = .ok (sources file)) →
      execute surroundings tree (.compile inputs none true) =
          survey surroundings.coloured (· ++ ['\n']) (fun _ => []) sources files tree ∧
        execute surroundings tree (.check inputs) =
          survey surroundings.coloured (fun _ => []) (fun file => [.logged (.passed file)]) sources files
            tree :=
    fun found readable => ⟨workOn_of_readable shows_printCompiled found readable,
      workOn_of_readable shows_notePassed found readable⟩
  obtain ⟨compiles, checks⟩ := runs found readable
  refine ⟨compiles, checks, fun without others before after bad split fault foundThere readThere => ?_⟩
  obtain ⟨compilesThere, checksThere⟩ := runs foundThere readThere
  rw [compiles, checks, compilesThere, checksThere, split]
  exact ⟨stdout_survey_without fault _ _ _ before after tree without,
    addsReport_survey fault _ _ _ before after tree without,
    addsReport_survey fault _ _ _ before after tree without⟩

/-- A tree with a source in a directory and another file beside it. -/
def soundTree : FileTree :=
  (FileTree.empty.withFile ["src".toList, "a.jolly".toList] (.text "lock z = 3;".toList)).withFile
    ["z.txt".toList] (.text "lock z = 3;".toList)

/-- The same with a faulty source between them. -/
def faultyTree : FileTree :=
  soundTree.withFile ["src".toList, "b.jolly".toList] (.text "option 2".toList)

theorem check_agrees_with_printing_around_fault :
    let bad : Path := ⟨"src/b.jolly".toList⟩
    let inputs : List Path := [⟨"src".toList⟩, ⟨"z.txt".toList⟩]
    let sources : Path → Text :=
      fun file => if file = bad then "option 2".toList else "lock z = 3;".toList
    let printing := execute .bare faultyTree (.compile inputs none true)
    let checking := execute .bare faultyTree (.check inputs)
    faultyTree.discover Surroundings.bare.expand inputs =
        .ok [⟨"src/a.jolly".toList⟩, bad, ⟨"z.txt".toList⟩] ∧
      printing.stdout = "const z = 3;\nconst z = 3;\n".toList ∧
      printing.exit = 1 ∧ checking.exit = 1 ∧
      checking.messages.getLast? =
        some (.printed "error: 1 of 3 file(s) failed to compile\n".toList) ∧
      (execute .bare soundTree (.compile inputs none true)).stdout = printing.stdout ∧
      AddsReport (messagesOn false (fun _ => []) sources bad)
        (execute .bare soundTree (.check inputs)).messages checking.messages := by
  intro bad inputs sources printing checking
  have found : faultyTree.discover Surroundings.bare.expand inputs =
      .ok [⟨"src/a.jolly".toList⟩, bad, ⟨"z.txt".toList⟩] :=
    FileTree.discover_of_pairwise (eq_ok_of_toOption (by decide +kernel)) (by decide)
      (by decide +kernel)
  have foundWithout : soundTree.discover Surroundings.bare.expand inputs =
      .ok ([⟨"src/a.jolly".toList⟩] ++ [⟨"z.txt".toList⟩]) :=
    FileTree.discover_of_pairwise (eq_ok_of_toOption (by decide +kernel)) (by decide)
      (by decide +kernel)
  have readable : ∀ file ∈ [⟨"src/a.jolly".toList⟩, bad, ⟨"z.txt".toList⟩],
      (faultyTree.read file).toOption = some (sources file) := by decide +kernel
  have readableWithout : ∀ file ∈ [⟨"src/a.jolly".toList⟩] ++ [⟨"z.txt".toList⟩],
      (soundTree.read file).toOption = some (sources file) := by decide +kernel
  obtain ⟨prints, checks, others⟩ := check_agrees_with_printing .bare found
    fun file member => eq_ok_of_toOption (readable file member)
  obtain ⟨same, _, adds⟩ := others soundTree inputs [⟨"src/a.jolly".toList⟩] [⟨"z.txt".toList⟩] bad rfl
    (by decide +kernel) foundWithout fun file member => eq_ok_of_toOption (readableWithout file member)
  have printed : printing.stdout = "const z = 3;\nconst z = 3;\n".toList ∧ printing.exit = 1 := by
    rw [show printing = _ from prints]
    decide +kernel
  have checked : checking.exit = 1 ∧ checking.messages.getLast? =
      some (.printed "error: 1 of 3 file(s) failed to compile\n".toList) := by
    rw [show checking = _ from checks]
    decide +kernel
  exact ⟨found, printed.1, printed.2, checked.1, checked.2, same, adds⟩

end Invocation

end Dialect
