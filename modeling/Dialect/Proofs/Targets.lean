import Dialect.Command.Execution
import Dialect.Proofs.Directories
import Dialect.Proofs.Discovery

/-!
# Targets

The target of a source is a file in the output directory. A source that has been found has a target
name that can stand in a directory (`targetable_of_discover`). Once the output directory has been
prepared it is at some place (`exists_outputAt`), and a target is written there unless a directory is
in the way (`writeTarget_eq`).
-/

namespace Dialect

/-! ## Names of sources and targets -/

namespace Path

theorem stem_of_fileName? {file : Path} {name : Text} (named : file.fileName? = some name) :
    file.stem = (cutExtension name).1 := by
  rw [stem, named]

theorem replaceExtension_ne_nil {name extension : Text} (nonempty : name ≠ []) :
    replaceExtension name extension ≠ [] := by
  have kept : cutBehindDot name ≠ [] := by
    rw [cutBehindDot]
    rcases cutExtension_cases name with whole | ⟨stem, ending, _, _, _, cut⟩
    · rwa [whole]
    · simp [cut]
  simp only [replaceExtension]
  split
  · exact kept
  · simp

end Path

namespace FileTree

/-- A file has a file name, which is the last name on the way to it. -/
theorem exists_fileName_of_isFile {tree : FileTree} (wellFormed : tree.WellFormed) {file : Path}
    (isFile : tree.isFile file = true) :
    ∃ around name content, file.fileName? = some name ∧ Path.isName name = true ∧
      tree.locate file = .ok (around ++ [name]) ∧
      tree.entryAt? (around ++ [name]) = some (.file content) := by
  obtain ⟨place, content, located, found⟩ := isFile_iff.mp isFile
  obtain ⟨before, around, name, split, named, rfl, _⟩ :=
    exists_name_of_follow wellFormed file.parts_ne_nil (follow_of_locate located) found
  exact ⟨around, name, content, Path.fileName?_of_parts split named, named, located, found⟩

end FileTree

namespace Invocation

/-- The directory that targets are put in. Without an output directory it is the empty path, from
which the working directory is reached. -/
def outputDirectory (out : Option Path) : Path := out.getD { text := [] }

theorem inOutput_eq_join (out : Option Path) (name : Text) :
    inOutput out name = (outputDirectory out).join name := by
  cases out with
  | none => rfl
  | some directory => rfl

theorem targetName_ne_nil {file : Path} (nonempty : file.stem ≠ []) : targetName file ≠ [] :=
  Path.replaceExtension_ne_nil nonempty

theorem stem_ne_nil {file : Path} {name : Text} (named : file.fileName? = some name)
    (isName : Path.isName name = true) : file.stem ≠ [] := by
  have nonempty : name ≠ [] := by
    intro empty
    simp [empty, Path.isName, Path.isStep] at isName
  rw [Path.stem_of_fileName? named]
  exact Path.fst_cutExtension_ne_nil nonempty

theorem slashFree_targetName {file : Path} {name : Text} (named : file.fileName? = some name) :
    '/' ∉ targetName file := by
  refine Path.slashFree_replaceExtension (fun inStem => ?_)
    (fun inExtension => absurd inExtension (by decide))
  rw [Path.stem_of_fileName? named] at inStem
  exact Path.slashFree_of_fileName? named (Path.mem_of_mem_fst_cutExtension inStem)

/-- A source whose target can be put into a directory under a name of its own. -/
structure Targetable (file : Path) : Prop where
  nonempty : targetName file ≠ []
  slashFree : '/' ∉ targetName file

theorem targetable_of_isFile {tree : FileTree} (wellFormed : tree.WellFormed) {file : Path}
    (isFile : tree.isFile file = true) : Targetable file := by
  obtain ⟨_, name, _, named, isName, _⟩ := tree.exists_fileName_of_isFile wellFormed isFile
  exact ⟨targetName_ne_nil (stem_ne_nil named isName), slashFree_targetName named⟩

theorem targetable_of_discover {tree : FileTree} (wellFormed : tree.WellFormed) {expand : Expansion}
    {inputs files : List Path} (found : tree.discover expand inputs = .ok files) :
    ∀ file ∈ files, Targetable file :=
  fun file member => targetable_of_isFile wellFormed (tree.isFile_of_discover wellFormed found file member)

/-! ## Preparing the output directory -/

/-- The output directory is at a place. -/
def OutputAt (out : Option Path) (tree : FileTree) (place : Location) : Prop :=
  tree.Leads (tree.start (outputDirectory out)) (outputDirectory out).parts place

theorem OutputAt.of_keeps {out : Option Path} {tree later : FileTree} {place : Location}
    (output : OutputAt out tree place) (keeps : tree.Keeps later) : OutputAt out later place := by
  rw [OutputAt, keeps.start]
  exact keeps.leads output

theorem prepareOutput_eq_ok {session ready : Session} {out : Option Path}
    (prepared : prepareOutput session out = .ok ready) :
    out = none ∧ ready = session ∨
      ∃ directory, out = some directory ∧ (session.tree.makeDirectories directory).2 = none ∧
        ready = { session with tree := (session.tree.makeDirectories directory).1 } := by
  cases out with
  | none => exact Or.inl ⟨rfl, (Except.ok.inj prepared).symm⟩
  | some directory =>
      rw [prepareOutput] at prepared
      split at prepared
      next => simp at prepared
      next =>
        split at prepared
        next tree made =>
          refine Or.inr ⟨directory, rfl, ?_⟩
          rw [made]
          exact ⟨rfl, (Except.ok.inj prepared).symm⟩
        next => simp at prepared

theorem prepareOutput_eq_error {session stuck : Session} {out : Option Path} {failure : Failure}
    (failed : prepareOutput session out = .error (stuck, failure)) :
    ∃ directory, out = some directory ∧
      (stuck = session ∨ (session.tree.makeDirectories directory).2 ≠ none ∧
        stuck = { session with tree := (session.tree.makeDirectories directory).1 }) := by
  cases out with
  | none => simp [prepareOutput] at failed
  | some directory =>
      refine ⟨directory, rfl, ?_⟩
      rw [prepareOutput] at failed
      split at failed
      next => exact Or.inl (Prod.mk.inj (Except.error.inj failed)).1.symm
      next =>
        split at failed
        next => simp at failed
        next tree obstacle made =>
          rw [made]
          exact Or.inr ⟨by simp, (Prod.mk.inj (Except.error.inj failed)).1.symm⟩

/-- Preparing the output directory makes no difference but to the tree. -/
theorem eq_of_ready {session ready : Session} {out : Option Path}
    (prepared : prepareOutput session out = .ok ready) :
    ready = { session with tree := ready.tree } := by
  rcases prepareOutput_eq_ok prepared with ⟨_, rfl⟩ | ⟨directory, _, _, rfl⟩
  · rfl
  · rfl

theorem eq_of_failed {session stuck : Session} {out : Option Path} {failure : Failure}
    (failed : prepareOutput session out = .error (stuck, failure)) :
    stuck = { session with tree := stuck.tree } := by
  obtain ⟨directory, _, rfl | ⟨_, rfl⟩⟩ := prepareOutput_eq_error failed
  · rfl
  · rfl

theorem makesOnly_prepareOutput {session ready : Session} {out : Option Path}
    (prepared : prepareOutput session out = .ok ready) :
    FileTree.MakesOnly (fun _ => True) session.tree ready.tree := by
  rcases prepareOutput_eq_ok prepared with ⟨_, rfl⟩ | ⟨directory, _, _, rfl⟩
  · exact .refl _
  · exact FileTree.makesOnly_makeAround (fun _ _ _ _ _ _ _ => trivial) session.tree

theorem makesOnly_of_failed {session stuck : Session} {out : Option Path} {failure : Failure}
    (failed : prepareOutput session out = .error (stuck, failure)) :
    FileTree.MakesOnly (fun _ => True) session.tree stuck.tree := by
  obtain ⟨directory, _, same | ⟨_, same⟩⟩ := prepareOutput_eq_error failed
  · rw [same]
    exact .refl _
  · rw [same]
    exact FileTree.makesOnly_makeAround (fun _ _ _ _ _ _ _ => trivial) session.tree

theorem exists_outputAt {session ready : Session} {out : Option Path}
    (wellFormed : session.tree.WellFormed) (prepared : prepareOutput session out = .ok ready) :
    ∃ place, OutputAt out ready.tree place := by
  rcases prepareOutput_eq_ok prepared with ⟨rfl, same⟩ | ⟨directory, rfl, finished, rfl⟩
  · have stays : session.tree.Leads session.tree.working [] session.tree.working :=
      ⟨by simp [FileTree.follow], wellFormed.working⟩
    have noSteps : Path.steps [] = Path.steps (outputDirectory none).parts := rfl
    rw [same]
    exact ⟨session.tree.working, (FileTree.leads_congr noSteps).mp stays⟩
  · obtain ⟨place, leads⟩ := FileTree.leads_of_makeDirectories finished
    refine ⟨place, ?_⟩
    rw [OutputAt, outputDirectory, Option.getD_some,
      (makesOnly_prepareOutput prepared).keeps.start directory]
    exact leads

/-! ## Writing a target -/

theorem target_eq_join (out : Option Path) (file : Path) :
    target out file = (outputDirectory out).join (targetName file) :=
  inOutput_eq_join out (targetName file)

theorem locate_target {out : Option Path} {tree : FileTree} {place : Location} {file : Path}
    (output : OutputAt out tree place) (slashFree : '/' ∉ targetName file)
    (named : Path.isName (targetName file) = true)
    (present : (tree.entryAt? (place ++ [targetName file])).isSome = true) :
    tree.locate (target out file) = .ok (place ++ [targetName file]) := by
  rw [target_eq_join]
  exact FileTree.locate_join slashFree named output present

/-- A session in which a compiled text has been put into the output directory. -/
def delivered (out : Option Path) (place : Location) (session : Session) (file : Path)
    (compiled : Text) : Session :=
  { session with tree :=
      session.tree.put (place ++ [targetName file]) (.file (.text compiled)) }.record
    (.compiled file (target out file))

section Delivered

variable {out : Option Path} {place : Location} {session : Session} {file : Path} {compiled : Text}

theorem entryAt?_delivered (location : Location) :
    (delivered out place session file compiled).tree.entryAt? location =
      if location = place ++ [targetName file] then some (.file (.text compiled))
      else session.tree.entryAt? location :=
  FileTree.entryAt?_put (by simp) _ location

theorem messages_delivered : (delivered out place session file compiled).messages =
    session.messages ++ [.logged (.compiled file (target out file))] := rfl

theorem keeps_delivered
    (free : session.tree.entryAt? (place ++ [targetName file]) ≠ some .directory) :
    session.tree.Keeps (delivered out place session file compiled).tree :=
  .put (by simp) free

/-- A compiled text goes to the target unless a directory is there. -/
theorem writeTarget_eq (targetable : Targetable file) (output : OutputAt out session.tree place)
    (compiled : Text) :
    writeTarget out session file compiled =
      if Path.isName (targetName file) = false ∨
          session.tree.entryAt? (place ++ [targetName file]) = some .directory then
        .error (session, .cannotWrite (target out file) .isDirectory)
      else .ok (delivered out place session file compiled) := by
  have written := FileTree.write_join targetable.slashFree targetable.nonempty output compiled
  rw [writeTarget, target_eq_join, written]
  by_cases refused : Path.isName (targetName file) = false ∨
      session.tree.entryAt? (place ++ [targetName file]) = some .directory
  · rw [if_pos refused, if_pos refused]
  · rw [if_neg refused, if_neg refused, delivered, target_eq_join]

end Delivered

end Invocation

end Dialect
