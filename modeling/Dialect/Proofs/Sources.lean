import Dialect.Proofs.Runs
import Dialect.Proofs.Steps

/-!
# Sources that are targets

Nothing keeps the target of a source from being a source itself. A source is as it was unless one has
been compiled into it (`find?_of_not_compiledInto`), which takes a source with the extension of a
target (`extension?_of_compiledInto`).

Sources are read one by one, between the writing of targets. This is the same as reading all of them
first if none has been compiled into a later one (`forEach_eq_of_not_compiledInto`).
-/

namespace Dialect

namespace Invocation

open Session

/-- A source has been compiled into the place that a path leads to. -/
structure CompiledInto (out : Option Path) (outcome : Outcome) (source file : Path) : Prop where
  logged : .logged (.compiled source (target out source)) ∈ outcome.messages
  located : outcome.tree.locate (target out source) = outcome.tree.locate file

/-! ## What happens to a source -/

/-- What is at a place is as it was, or the place is the target of a source that has been compiled. -/
theorem Wrote.cases_of_present {out : Option Path} {place here : Location} {files : List Path}
    {earlier session : Session} (wrote : Wrote out place files earlier session)
    (output : OutputAt out earlier.tree place) (targetable : ∀ file ∈ files, Targetable file)
    (present : (earlier.tree.entryAt? here).isSome = true) :
    session.tree.entryAt? here = earlier.tree.entryAt? here ∨
      ∃ source ∈ files, .logged (.compiled source (target out source)) ∈ session.messages ∧
        session.tree.locate (target out source) = .ok here := by
  rcases wrote.changed here with same | ⟨source, member, logged, named, rfl, _⟩
  · exact Or.inl same
  · exact Or.inr ⟨source, member, logged, locate_target (output.of_keeps wrote.keeps)
      (targetable source member).slashFree named (wrote.keeps.present present)⟩

section Run

variable {coloured : Bool} {tree : FileTree} (wellFormed : tree.WellFormed) {out : Option Path}
  {files : List Path} (targetable : ∀ file ∈ files, Targetable file)

include wellFormed targetable

theorem find?_of_not_compiledInto {file : Path} {entry : Entry} (found : tree.find? file = some entry)
    (toStdout : Bool)
    (untouched : ∀ source ∈ files, ¬ CompiledInto out
      (workOnFiles coloured (.start tree) files out (attemptNow coloured (delivery out toStdout)))
        source file) :
    (workOnFiles coloured (.start tree) files out
      (attemptNow coloured (delivery out toStdout))).tree.find? file = some entry := by
  cases prepared : prepareOutput (.start tree) out with
  | error stuck =>
      obtain ⟨stuck, failure⟩ := stuck
      rw [workOnFiles_of_stuck prepared]
      exact (makesOnly_of_failed prepared).find?_eq_some found
  | ok ready =>
      obtain ⟨place, output⟩ := exists_outputAt wellFormed prepared
      have wrote := wrote_attemptNow output targetable coloured toStdout
      obtain ⟨sameTree, _⟩ := workOnFiles_reached prepared files (attemptNow coloured (delivery out toStdout))
      obtain ⟨here, located, there⟩ :=
        FileTree.find?_eq_some_iff.mp ((makesOnly_prepareOutput prepared).find?_eq_some found)
      have locatedThen := wrote.keeps.locate located
      rw [sameTree, FileTree.find?_eq_some_iff]
      refine ⟨here, locatedThen, ?_⟩
      rcases wrote.cases_of_present output targetable (by rw [there]; rfl) with
        same | ⟨source, member, logged, isTarget⟩
      · rw [same, there]
      · refine absurd ⟨(logged_workOnFiles_iff prepared files _ rfl).mpr logged, ?_⟩
          (untouched source member)
        rw [sameTree, isTarget, locatedThen]

/-- A file that a source has been compiled into has the name of the target. -/
theorem fileName?_of_compiledInto {source file : Path} (member : source ∈ files)
    (isFile : tree.isFile file = true) {toStdout : Bool}
    (into : CompiledInto out
      (workOnFiles coloured (.start tree) files out (attemptNow coloured (delivery out toStdout)))
        source file) :
    Path.isName (targetName source) = true ∧ file.fileName? = some (targetName source) := by
  cases prepared : prepareOutput (.start tree) out with
  | error stuck =>
      -- Nothing has been compiled yet.
      obtain ⟨stuck, failure⟩ := stuck
      have silent : stuck.messages = [] := congrArg messages (eq_of_failed prepared)
      have logged := into.logged
      rw [workOnFiles_of_stuck prepared] at logged
      simp [fail, print, exit, silent] at logged
  | ok ready =>
      obtain ⟨place, output⟩ := exists_outputAt wellFormed prepared
      have wrote := wrote_attemptNow output targetable coloured toStdout
      obtain ⟨sameTree, _⟩ := workOnFiles_reached prepared files (attemptNow coloured (delivery out toStdout))
      have silent : ready.messages = [] := congrArg messages (eq_of_ready prepared)
      obtain ⟨named, present⟩ : Path.isName (targetName source) = true ∧ _ :=
        (wrote.written source ((logged_workOnFiles_iff prepared files _ rfl).mp into.logged)).resolve_left
          (by simp [silent])
      obtain ⟨around, name, _, fileNamed, _, located, _⟩ :=
        tree.exists_fileName_of_isFile wellFormed isFile
      have isTarget := locate_target (output.of_keeps wrote.keeps) (targetable source member).slashFree
        named present
      have isSource := ((makesOnly_prepareOutput prepared).keeps.trans wrote.keeps).locate located
      have same := into.located
      rw [sameTree, isTarget, isSource] at same
      have sameName : targetName source = name :=
        List.singleton_inj.mp (List.append_inj' (Except.ok.inj same) rfl).2
      exact ⟨named, sameName ▸ fileNamed⟩

/-- Only what has the extension of a target can be overwritten. -/
theorem extension?_of_compiledInto {source file : Path} (member : source ∈ files)
    (isFile : tree.isFile file = true) {toStdout : Bool}
    (into : CompiledInto out
      (workOnFiles coloured (.start tree) files out (attemptNow coloured (delivery out toStdout)))
        source file) :
    file.extension? = some "js".toList := by
  obtain ⟨named, fileNamed⟩ := fileName?_of_compiledInto wellFormed targetable member isFile into
  rw [Path.extension?, fileNamed, Option.bind_some]
  exact Path.cutExtension_replaceExtension named (by decide) (by decide)

/-- When its turn comes, a source reads as it did at the start, unless an earlier one has been compiled
into it. -/
theorem read_of_not_compiledInto {ready later : Session} {before after : List Path} {file : Path}
    {toStdout : Bool} (prepared : prepareOutput (.start tree) out = .ok ready)
    (split : files = before ++ file :: after)
    (done : ready.forEach (attemptNow coloured (delivery out toStdout)) before = .ok later)
    (isFile : tree.isFile file = true)
    (untouched : ∀ source ∈ before, ¬ CompiledInto out
      (workOnFiles coloured (.start tree) files out (attemptNow coloured (delivery out toStdout)))
        source file) :
    later.tree.read file = tree.read file := by
  obtain ⟨place, output⟩ := exists_outputAt wellFormed prepared
  have earlier : ∀ source ∈ before, Targetable source :=
    fun source member => targetable source (split ▸ List.mem_append_left _ member)
  have others : ∀ source ∈ file :: after, Targetable source :=
    fun source member => targetable source (split ▸ List.mem_append_right _ member)
  have wrote : Wrote out place before ready later := by
    have sofar := wrote_attemptNow output earlier coloured toStdout
    rwa [done] at sofar
  have onward := wrote_attemptNow (output.of_keeps wrote.keeps) others coloured toStdout
  have ends : (reached (later.forEach (attemptNow coloured (delivery out toStdout)) (file :: after))).tree =
      (workOnFiles coloured (.start tree) files out (attemptNow coloured (delivery out toStdout))).tree := by
    rw [(workOnFiles_reached prepared files _).1, split, forEach_append_of_ok done]
  obtain ⟨here, content, located, there⟩ := FileTree.isFile_iff.mp isFile
  have makes := makesOnly_prepareOutput prepared
  have inReady : ready.tree.entryAt? here = tree.entryAt? here :=
    makes.entryAt?_of_isSome (by simp [Session.start, there])
  have inLater := wrote.keeps.locate (makes.keeps.locate located)
  refine FileTree.read_congr located inLater ?_
  rcases wrote.cases_of_present output earlier (by rw [inReady, there]; rfl) with
    same | ⟨source, member, logged, isTarget⟩
  · rw [same, inReady]
  · have said : .logged (.compiled source (target out source)) ∈
        (reached (ready.forEach (attemptNow coloured (delivery out toStdout)) files)).messages := by
      rw [split, forEach_append_of_ok done]
      exact mem_messages_forEach (fun session _ => ⟨session.tree, rfl⟩) (file :: after) logged
    refine absurd ⟨(logged_workOnFiles_iff prepared files _ rfl).mpr said, ?_⟩
      (untouched source member)
    rw [← ends, onward.keeps.locate isTarget, onward.keeps.locate inLater]

/-- Reading each source when its turn comes is reading all of them at the start, if none has been
compiled into a later one. -/
theorem forEach_eq_of_not_compiledInto {ready : Session}
    (prepared : prepareOutput (.start tree) out = .ok ready)
    (isFile : ∀ file ∈ files, tree.isFile file = true) {toStdout : Bool}
    (untouched : files.Pairwise fun source file => ¬ CompiledInto out
      (workOnFiles coloured (.start tree) files out (attemptNow coloured (delivery out toStdout)))
        source file) :
    ready.forEach (attemptNow coloured (delivery out toStdout)) files =
      ready.forEach (attempt coloured (delivery out toStdout) tree) files := by
  refine forEach_congr fun before file after split later done => ?_
  have apart : ∀ {relation : Path → Path → Prop}, files.Pairwise relation →
      ∀ source ∈ before, relation source file := by
    intro relation pairwise source member
    rw [split] at pairwise
    exact (List.pairwise_append.mp pairwise).2.2 source member file List.mem_cons_self
  have sameRead := read_of_not_compiledInto wellFormed targetable prepared split done
    (isFile file (by simp [split])) (apart untouched)
  rw [attemptNow, attempt, attempt, compileFile, compileFile, sameRead]

end Run

/-! ## Runs -/

/-- A source is as it was unless one has been compiled into it, which takes a source with the
extension of a target. If none has been compiled into a later one, the run is one that reads all
sources at its start. -/
theorem sources_kept_unless_targets (surroundings : Surroundings) {tree : FileTree}
    (wellFormed : tree.WellFormed) {inputs files : List Path}
    (found : tree.discover surroundings.expand inputs = .ok files) (out : Option Path) (toStdout : Bool) :
    (∀ file ∈ files,
        (∀ source ∈ files,
          ¬ CompiledInto out (execute surroundings tree (.compile inputs out toStdout)) source file) →
        (execute surroundings tree (.compile inputs out toStdout)).tree.find? file = tree.find? file) ∧
      (∀ source ∈ files, ∀ file ∈ files,
        CompiledInto out (execute surroundings tree (.compile inputs out toStdout)) source file →
        file.extension? = some "js".toList) ∧
      ((files.Pairwise fun source file =>
          ¬ CompiledInto out (execute surroundings tree (.compile inputs out toStdout)) source file) →
        execute surroundings tree (.compile inputs out toStdout) =
          workOn surroundings (.start tree) inputs out
            (attempt surroundings.coloured (delivery out toStdout) tree)) := by
  have targetable := targetable_of_discover wellFormed found
  have isFile := tree.isFile_of_discover wellFormed found
  have readFirst : workOn surroundings (.start tree) inputs out
      (attempt surroundings.coloured (delivery out toStdout) tree) = _ :=
    @workOn_of_found surroundings (.start tree) inputs files found out _
  rw [execute_compile_of_found surroundings found, readFirst]
  refine ⟨fun file member untouched => ?_, fun source inFiles file member into => ?_,
    fun untouched => ?_⟩
  · obtain ⟨here, content, located, there⟩ := FileTree.isFile_iff.mp (isFile file member)
    have before := FileTree.find?_eq_some_iff.mpr ⟨here, located, there⟩
    rw [before]
    exact find?_of_not_compiledInto wellFormed targetable before toStdout untouched
  · exact extension?_of_compiledInto wellFormed targetable inFiles (isFile file member) into
  · cases prepared : prepareOutput (.start tree) out with
    | error stuck =>
        obtain ⟨stuck, failure⟩ := stuck
        rw [workOnFiles_of_stuck prepared, workOnFiles_of_stuck prepared]
    | ok ready =>
        rw [workOnFiles_of_ready prepared, workOnFiles_of_ready prepared,
          forEach_eq_of_not_compiledInto wellFormed targetable prepared isFile untouched]

/-- A tree with a source and with a file that has the extension of targets. -/
def withScript (name : Text) : FileTree :=
  (FileTree.empty.withFile ["a.jolly".toList] (.text "free x;".toList)).withFile
    [name] (.text "lock q;".toList)

theorem source_kept_beside_one_compiled_into_itself :
    let inputs : List Path := [⟨"a.jolly".toList⟩, ⟨"b.js".toList⟩]
    let outcome := execute .bare (withScript "b.js".toList) (.compile inputs none false)
    (withScript "b.js".toList).WellFormed ∧
      (withScript "b.js".toList).discover Surroundings.bare.expand inputs = .ok inputs ∧
      outcome.tree.find? ⟨"a.jolly".toList⟩ = some (.file (.text "free x;".toList)) ∧
      outcome.tree.find? ⟨"b.js".toList⟩ = some (.file (.text "const q;".toList)) ∧
      outcome = workOn .bare (.start (withScript "b.js".toList)) inputs none
        (attempt Surroundings.bare.coloured (delivery none false) (withScript "b.js".toList)) := by
  intro inputs outcome
  have wellFormed : (withScript "b.js".toList).WellFormed := by decide +kernel
  have found : (withScript "b.js".toList).discover Surroundings.bare.expand inputs = .ok inputs :=
    FileTree.discover_of_pairwise (eq_ok_of_toOption (by decide +kernel)) (by decide)
      (by decide +kernel)
  have unfolded : outcome = _ := execute_compile_of_found _ found none false
  obtain ⟨kept, extension, readFirst⟩ :=
    sources_kept_unless_targets .bare wellFormed found none false
  refine ⟨wellFormed, found, ?_, ?_, ?_⟩
  · refine (kept ⟨"a.jolly".toList⟩ (by decide) fun source member into => ?_).trans
      (by decide +kernel)
    exact absurd (extension source member _ (by decide) into) (by decide +kernel)
  · rw [unfolded]
    decide +kernel
  · refine readFirst ?_
    simp only [inputs, List.pairwise_cons, List.mem_singleton, forall_eq, List.not_mem_nil,
      false_implies, implies_true, List.Pairwise.nil, and_true]
    intro into
    have same := congrArg Except.toOption into.located
    rw [show execute _ _ _ = _ from unfolded] at same
    exact absurd same (by decide +kernel)

/-- A source that is the target of an earlier one is overwritten before it is read. -/
theorem source_overwritten_by_earlier_one :
    let inputs : List Path := [⟨"a.jolly".toList⟩, ⟨"a.js".toList⟩]
    let outcome := execute .bare (withScript "a.js".toList) (.compile inputs none false)
    (withScript "a.js".toList).discover Surroundings.bare.expand inputs = .ok inputs ∧ outcome.exit = 0 ∧
      (withScript "a.js".toList).find? ⟨"a.js".toList⟩ = some (.file (.text "lock q;".toList)) ∧
      outcome.tree.find? ⟨"a.js".toList⟩ = some (.file (.text "let x;".toList)) := by
  intro inputs outcome
  have found : (withScript "a.js".toList).discover Surroundings.bare.expand inputs = .ok inputs :=
    FileTree.discover_of_pairwise (eq_ok_of_toOption (by decide +kernel)) (by decide)
      (by decide +kernel)
  rw [show outcome = _ from execute_compile_of_found _ found none false]
  exact ⟨found, by decide +kernel⟩

end Invocation

end Dialect
