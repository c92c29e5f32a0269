import Dialect.Proofs.Sources

/-!
# No output is lost

The target of a source is named after its stem: the extension of the stem is replaced. A stem with a
dot behind its first character loses what follows its last dot, so sources with different stems can
share a target, and then the last one compiled is the one that is kept.

Without such stems each target is the stem with the new extension (`targetName_eq_stem_iff`), no
source is compiled into a later one (`not_compiledInto_of_stem_ne`), and all that is compiled is there
in the end (`forEach_writes`).
-/

namespace Dialect

namespace Invocation

open Session

/-! ## Names of targets -/

theorem stem_ne_nil_of_isFile {tree : FileTree} (wellFormed : tree.WellFormed) {file : Path}
    (isFile : tree.isFile file = true) : file.stem ≠ [] := by
  obtain ⟨_, name, _, named, isName, _⟩ := tree.exists_fileName_of_isFile wellFormed isFile
  exact stem_ne_nil named isName

theorem inOutput_inj {out : Option Path} {left right : Text} :
    inOutput out left = inOutput out right ↔ left = right := by
  rw [inOutput_eq_join, inOutput_eq_join, Path.join_inj]

/-- A target is named by the stem and the new extension unless the stem has a dot to be taken for the
start of an extension, or is the name of a directory. -/
theorem targetName_eq_stem_iff {file : Path} (nonempty : file.stem ≠ []) :
    targetName file = file.stem ++ ".js".toList ↔ '.' ∉ file.stem.tail ∧ file.stem ≠ ['.'] :=
  Path.replaceExtension_eq_append_iff nonempty

theorem isName_of_eq_stem {file : Path}
    (plain : targetName file = file.stem ++ ".js".toList) : Path.isName (targetName file) = true := by
  have long : 3 ≤ (targetName file).length := by
    rw [plain, List.length_append]
    exact Nat.le_add_left 3 _
  have notShort : ∀ part : Text, part.length < 3 → targetName file ≠ part := by
    intro part short same
    rw [same] at long
    omega
  simp [Path.isName, Path.isStep, notShort]

section Run

variable {tree : FileTree} (wellFormed : tree.WellFormed) {out : Option Path} {files : List Path}
  (isFile : ∀ file ∈ files, tree.isFile file = true)
  (plain : ∀ file ∈ files, targetName file = file.stem ++ ".js".toList)

include wellFormed isFile plain

/-- A source that another one is compiled into has the stem of the other one. -/
theorem not_compiledInto_of_stem_ne {source file : Path} (inFiles : source ∈ files)
    (member : file ∈ files) (different : source.stem ≠ file.stem)
    (coloured toStdout : Bool) :
    ¬ CompiledInto out
      (workOnFiles coloured (.start tree) files out (attemptNow coloured (delivery out toStdout)))
        source file := by
  intro into
  have targetable : ∀ file ∈ files, Targetable file :=
    fun file member => targetable_of_isFile wellFormed (isFile file member)
  have nonempty := stem_ne_nil_of_isFile wellFormed (isFile source inFiles)
  obtain ⟨isName, named⟩ :=
    fileName?_of_compiledInto wellFormed targetable inFiles (isFile file member) into
  rw [plain source inFiles] at isName named
  have cut : Path.cutExtension (source.stem ++ ".js".toList) = (source.stem, some "js".toList) :=
    Path.cutExtension_append nonempty (by decide) (Path.isName_iff.mp isName).2
  have stem := Path.stem_of_fileName? named
  rw [cut] at stem
  exact different stem.symm

end Run

/-! ## Writing all targets -/

theorem ne_directory_of_isDirectory {out : Option Path} {tree : FileTree} {place : Location}
    {file : Path} (targetable : Targetable file) (named : Path.isName (targetName file) = true)
    (output : OutputAt out tree place) (free : tree.isDirectory (target out file) = false) :
    tree.entryAt? (place ++ [targetName file]) ≠ some .directory := by
  intro directory
  have located := locate_target output targetable.slashFree named (by rw [directory]; rfl)
  have isDirectory := FileTree.isDirectory_iff.mpr ⟨_, located, directory⟩
  rw [free] at isDirectory
  exact Bool.false_ne_true isDirectory

theorem attempt_writes (coloured : Bool) {sources : FileTree} {out : Option Path} {place : Location}
    {session : Session} {file : Path} {text : Text} (result : compileFile sources file = .ok (.ok text))
    (targetable : Targetable file) (named : Path.isName (targetName file) = true)
    (output : OutputAt out session.tree place)
    (free : session.tree.entryAt? (place ++ [targetName file]) ≠ some .directory) :
    attempt coloured (delivery out false) sources session file =
      .ok (delivered out place session file text) := by
  rw [attempt, result, delivery, if_neg Bool.false_ne_true]
  exact (writeTarget_eq targetable output text).trans
    (if_neg (not_or.mpr ⟨by simp [named], free⟩))

/-- Sources that compile into different places that can be written are all compiled, and each target
holds what its own source has been compiled to. -/
theorem forEach_writes (coloured : Bool) {sources : FileTree} {out : Option Path} {place : Location}
    {files : List Path} {session : Session}
    (compiles : ∀ file ∈ files, ∃ compiled, compileFile sources file = .ok (.ok compiled))
    (targetable : ∀ file ∈ files, Targetable file)
    (named : ∀ file ∈ files, Path.isName (targetName file) = true)
    (distinct : files.Pairwise fun left right => targetName left ≠ targetName right)
    (output : OutputAt out session.tree place)
    (free : ∀ file ∈ files, session.tree.entryAt? (place ++ [targetName file]) ≠ some .directory) :
    ∃ done, session.forEach (attempt coloured (delivery out false) sources) files = .ok done ∧
      done.faulty = session.faulty ∧ session.tree.Keeps done.tree ∧
      ∀ file ∈ files, ∀ compiled, compileFile sources file = .ok (.ok compiled) →
        done.tree.entryAt? (place ++ [targetName file]) = some (.file (.text compiled)) := by
  induction files generalizing session with
  | nil => exact ⟨session, rfl, rfl, .refl _, fun file member => absurd member List.not_mem_nil⟩
  | cons file files inductionHypothesis =>
      obtain ⟨different, othersDistinct⟩ := List.pairwise_cons.mp distinct
      rw [List.forall_mem_cons] at compiles targetable named free
      obtain ⟨text, result⟩ := compiles.1
      have here := attempt_writes coloured result targetable.1 named.1 output free.1
      have keeps : session.tree.Keeps (delivered out place session file text).tree :=
        keeps_delivered free.1
      have apart : ∀ other ∈ files, place ++ [targetName other] ≠ place ++ [targetName file] :=
        fun other member same => different other member
          (List.singleton_inj.mp (List.append_cancel_left same)).symm
      obtain ⟨done, runs, faulty, keepsOn, holds⟩ := inductionHypothesis compiles.2 targetable.2
        named.2 othersDistinct (output.of_keeps keeps) fun other member => by
          rw [entryAt?_delivered, if_neg (apart other member)]
          exact free.2 other member
      have wrote : Wrote out place files (delivered out place session file text) done := by
        have sofar : Wrote out place files (delivered out place session file text) (reached
            ((delivered out place session file text).forEach
              (attempt coloured (delivery out false) sources) files)) :=
          wrote_reached_forEach (output.of_keeps keeps) targetable.2 fun _ _ => ⟨sources, rfl⟩
        rwa [runs] at sofar
      refine ⟨done, by rw [forEach, here]; exact runs, faulty, keeps.trans keepsOn, ?_⟩
      rw [List.forall_mem_cons]
      refine ⟨fun compiled isResult => ?_, holds⟩
      rw [result, Except.ok.injEq, Except.ok.injEq] at isResult
      rcases wrote.changed (place ++ [targetName file]) with kept | ⟨other, member, _, _, same, _⟩
      · rw [kept, entryAt?_delivered, if_pos rfl, isResult]
      · exact absurd same.symm (apart other member)

/-! ## When nothing is lost -/

/-- Each source has a target of its own, named after its stem, which holds what the source compiles to
as it was when the run started. -/
structure NothingLost (out : Option Path) (files : List Path) (tree : FileTree)
    (outcome : Outcome) : Prop where
  exit : outcome.exit = 0
  named : ∀ file ∈ files, target out file = inOutput out (file.stem ++ ".js".toList)
  apart : files.Pairwise fun left right =>
    outcome.tree.locate (target out left) ≠ outcome.tree.locate (target out right)
  holds : ∀ file ∈ files, ∀ compiled, compileFile tree file = .ok (.ok compiled) →
    outcome.tree.read (target out file) = .ok compiled

/-- The targets can be written: the output directory is there, and no directory is in their place. -/
def Writable (out : Option Path) (files : List Path) (tree : FileTree) : Prop :=
  ∃ ready, prepareOutput (.start tree) out = .ok ready ∧
    ∀ file ∈ files, ready.tree.isDirectory (target out file) = false

section Run

variable {coloured : Bool} {tree : FileTree} (wellFormed : tree.WellFormed) {out : Option Path}
  {files : List Path} (isFile : ∀ file ∈ files, tree.isFile file = true)
  (compiles : ∀ file ∈ files, ∃ compiled, compileFile tree file = .ok (.ok compiled))

include wellFormed isFile compiles

theorem writable_of_nothingLost
    (nothingLost : NothingLost out files tree
      (workOnFiles coloured (.start tree) files out (attemptNow coloured (delivery out false)))) :
    Writable out files tree := by
  have targetable : ∀ file ∈ files, Targetable file :=
    fun file member => targetable_of_isFile wellFormed (isFile file member)
  cases prepared : prepareOutput (.start tree) out with
  | error stuck =>
      obtain ⟨stuck, failure⟩ := stuck
      have succeeds := nothingLost.exit
      rw [workOnFiles_of_stuck prepared] at succeeds
      simp [fail, exit] at succeeds
  | ok ready =>
      refine ⟨ready, prepared, fun file member => ?_⟩
      obtain ⟨place, output⟩ := exists_outputAt wellFormed prepared
      have keeps := (wrote_attemptNow output targetable coloured false).keeps
      obtain ⟨sameTree, _⟩ := workOnFiles_reached prepared files (attemptNow coloured (delivery out false))
      obtain ⟨compiled, result⟩ := compiles file member
      have reads := nothingLost.holds file member compiled result
      rw [sameTree] at reads
      by_cases directory : ready.tree.isDirectory (target out file) = true
      · -- A directory would still be there, and could not be read.
        obtain ⟨here, located, there⟩ := FileTree.isDirectory_iff.mp directory
        rw [FileTree.read, keeps.locate located] at reads
        simp [keeps.directory there] at reads
      · simpa using directory

omit wellFormed isFile compiles in
theorem pairwise_targetName_ne
    (distinct : files.Pairwise fun left right => left.stem ≠ right.stem)
    (plain : ∀ file ∈ files, targetName file = file.stem ++ ".js".toList) :
    files.Pairwise fun left right => targetName left ≠ targetName right := by
  refine distinct.imp_of_mem fun {left right} inFiles alsoIn different same => different ?_
  rw [plain left inFiles, plain right alsoIn] at same
  exact List.append_cancel_right same

theorem nothingLost_of_writable (distinct : files.Pairwise fun left right => left.stem ≠ right.stem)
    (plain : ∀ file ∈ files, targetName file = file.stem ++ ".js".toList)
    (writable : Writable out files tree) :
    NothingLost out files tree
      (workOnFiles coloured (.start tree) files out (attemptNow coloured (delivery out false))) := by
  obtain ⟨ready, prepared, free⟩ := writable
  obtain ⟨place, output⟩ := exists_outputAt wellFormed prepared
  have targetable : ∀ file ∈ files, Targetable file :=
    fun file member => targetable_of_isFile wellFormed (isFile file member)
  have named : ∀ file ∈ files, Path.isName (targetName file) = true :=
    fun file member => isName_of_eq_stem (plain file member)
  have namesDistinct := pairwise_targetName_ne distinct plain
  have placesFree : ∀ file ∈ files,
      ready.tree.entryAt? (place ++ [targetName file]) ≠ some .directory :=
    fun file member => ne_directory_of_isDirectory (targetable file member) (named file member) output
      (free file member)
  have readFirst := forEach_eq_of_not_compiledInto wellFormed targetable prepared isFile
    (distinct.imp_of_mem fun inFiles alsoIn different =>
      not_compiledInto_of_stem_ne wellFormed isFile plain inFiles alsoIn different coloured false)
  obtain ⟨done, runs, faulty, keeps, holds⟩ :=
    forEach_writes coloured compiles targetable named namesDistinct output placesFree
  have clean : done.faulty = 0 := faulty.trans (congrArg Session.faulty (eq_of_ready prepared))
  have ends : workOnFiles coloured (.start tree) files out (attemptNow coloured (delivery out false)) =
      (done.record (.finished files.length)).exit 0 := by
    rw [workOnFiles_of_ready prepared, readFirst, runs]
    simp [conclude, finish, clean]
  have located : ∀ file ∈ files,
      done.tree.locate (target out file) = .ok (place ++ [targetName file]) := by
    intro file member
    obtain ⟨compiled, result⟩ := compiles file member
    exact locate_target (output.of_keeps keeps) (targetable file member).slashFree
      (named file member) (by rw [holds file member compiled result]; rfl)
  rw [ends]
  refine ⟨rfl, fun file member => by rw [target, plain file member], ?_,
    fun file member compiled result => ?_⟩
  · refine namesDistinct.imp_of_mem fun {left right} inFiles alsoIn different same => different ?_
    have samePlace := (located left inFiles).symm.trans (same.trans (located right alsoIn))
    exact List.singleton_inj.mp (List.append_cancel_left (Except.ok.inj samePlace))
  · exact FileTree.read_of_entryAt? (located file member) (holds file member compiled result)

end Run

/-- A run over sources with different stems that all compile loses nothing exactly if no stem has a dot
behind its first character or is a single dot, and the targets can be written. -/
theorem compile_loses_nothing_iff (surroundings : Surroundings) {tree : FileTree}
    (wellFormed : tree.WellFormed) {inputs files : List Path}
    (found : tree.discover surroundings.expand inputs = .ok files) (out : Option Path)
    (distinct : files.Pairwise fun left right => left.stem ≠ right.stem)
    (compiles : ∀ file ∈ files, ∃ compiled, compileFile tree file = .ok (.ok compiled)) :
    NothingLost out files tree (execute surroundings tree (.compile inputs out false)) ↔
      (∀ file ∈ files, '.' ∉ file.stem.tail ∧ file.stem ≠ ['.']) ∧ Writable out files tree := by
  have isFile := tree.isFile_of_discover wellFormed found
  have plain_iff : ∀ file ∈ files, targetName file = file.stem ++ ".js".toList ↔
      '.' ∉ file.stem.tail ∧ file.stem ≠ ['.'] :=
    fun file member => targetName_eq_stem_iff (stem_ne_nil_of_isFile wellFormed (isFile file member))
  rw [execute_compile_of_found surroundings found]
  constructor
  · intro nothingLost
    refine ⟨fun file member => ?_, writable_of_nothingLost wellFormed isFile compiles nothingLost⟩
    rw [← plain_iff file member, ← inOutput_inj]
    exact nothingLost.named file member
  · intro conditions
    exact nothingLost_of_writable wellFormed isFile compiles distinct
      (fun file member => (plain_iff file member).mpr (conditions.1 file member)) conditions.2

/-- A tree with two sources. The names are those of the sources. -/
def twoSources (first second : Text) : FileTree :=
  (FileTree.empty.withFile [first] (.text "free a = 1;".toList)).withFile
    [second] (.text "lock b = 2;".toList)

theorem nothing_lost_for_hidden_source :
    let files : List Path := [⟨".b.jolly".toList⟩, ⟨"a.jolly".toList⟩]
    let tree := twoSources "a.jolly".toList ".b.jolly".toList
    let outcome := execute .bare tree (.compile files (some ⟨"out/js".toList⟩) false)
    tree.WellFormed ∧ tree.discover Surroundings.bare.expand files = .ok files ∧
      (files.Pairwise fun left right => left.stem ≠ right.stem) ∧ outcome.exit = 0 ∧
      outcome.tree.read ⟨"out/js/.b.js".toList⟩ = .ok "const b = 2;".toList ∧
      outcome.tree.read ⟨"out/js/a.js".toList⟩ = .ok "let a = 1;".toList := by
  intro files tree outcome
  have wellFormed : tree.WellFormed := by decide +kernel
  have found : tree.discover Surroundings.bare.expand files = .ok files :=
    FileTree.discover_of_pairwise (eq_ok_of_toOption (by decide +kernel)) (by decide)
      (by decide +kernel)
  have distinct : files.Pairwise fun left right => left.stem ≠ right.stem := by decide +kernel
  have hidden : compileFile tree ⟨".b.jolly".toList⟩ = .ok (.ok "const b = 2;".toList) := by
    have read : tree.read ⟨".b.jolly".toList⟩ = .ok "lock b = 2;".toList :=
      eq_ok_of_toOption (by decide +kernel)
    rw [compileFile_of_read read]
    exact congrArg Except.ok (eq_ok_of_toOption (by decide +kernel))
  have shown : compileFile tree ⟨"a.jolly".toList⟩ = .ok (.ok "let a = 1;".toList) := by
    have read : tree.read ⟨"a.jolly".toList⟩ = .ok "free a = 1;".toList :=
      eq_ok_of_toOption (by decide +kernel)
    rw [compileFile_of_read read]
    exact congrArg Except.ok (eq_ok_of_toOption (by decide +kernel))
  have compiles : ∀ file ∈ files, ∃ compiled, compileFile tree file = .ok (.ok compiled) :=
    List.forall_mem_cons.mpr ⟨⟨_, hidden⟩, List.forall_mem_singleton.mpr ⟨_, shown⟩⟩
  have writable : Writable (some ⟨"out/js".toList⟩) files tree :=
    ⟨{ Session.start tree with tree := (tree.makeDirectories ⟨"out/js".toList⟩).1 },
      eq_ok_of_toOption (by decide +kernel), by decide +kernel⟩
  have nothingLost := (compile_loses_nothing_iff .bare wellFormed found
    (some ⟨"out/js".toList⟩) distinct compiles).mpr ⟨by decide +kernel, writable⟩
  exact ⟨wellFormed, found, distinct, nothingLost.exit,
    nothingLost.holds _ List.mem_cons_self _ hidden,
    nothingLost.holds _ (List.mem_cons_of_mem _ List.mem_cons_self) _ shown⟩

/-- Sources whose stems differ behind a dot share a target, and one of them is lost. -/
theorem output_lost_behind_second_dot :
    let files : List Path := [⟨"a.b.jolly".toList⟩, ⟨"a.c.jolly".toList⟩]
    let tree := twoSources "a.b.jolly".toList "a.c.jolly".toList
    let outcome := execute .bare tree (.compile files none false)
    tree.discover Surroundings.bare.expand files = .ok files ∧
      (files.Pairwise fun left right => left.stem ≠ right.stem) ∧
      outcome.exit = 0 ∧ files.map (target none) = [⟨"a.js".toList⟩, ⟨"a.js".toList⟩] ∧
      outcome.tree.find? ⟨"a.js".toList⟩ = some (.file (.text "const b = 2;".toList)) ∧
      outcome.tree.find? ⟨"a.b.js".toList⟩ = none := by
  intro files tree outcome
  have found : tree.discover Surroundings.bare.expand files = .ok files :=
    FileTree.discover_of_pairwise (eq_ok_of_toOption (by decide +kernel)) (by decide)
      (by decide +kernel)
  rw [show outcome = _ from execute_compile_of_found _ found none false]
  exact ⟨found, by decide +kernel⟩

end Invocation

end Dialect
