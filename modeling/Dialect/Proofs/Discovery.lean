import Dialect.Command.Discovery
import Dialect.Proofs.FileTrees

/-!
# Sources that are found

The paths of a file tree are ordered by their components, so sorting puts the spellings of one path
side by side, and the sources that are found are strictly increasing (`pairwise_discover`). In a
well-formed tree each of them is a file (`isFile_of_discover`).
-/

namespace Dialect

/-! ## The order of paths -/

theorem Component.rank_inj {left right : Component} (same : left.rank = right.rank) :
    left = right := by
  cases left with
  | name text =>
      cases right with
      | name other =>
          have characters : text.map Char.toNat = other.map Char.toNat := (List.cons.inj same).2
          rw [List.map_inj_right fun _ _ => Char.toNat_inj.mp] at characters
          rw [characters]
      | _ => simp [rank] at same
  | _ =>
      cases right with
      | name other => simp [rank] at same
      | _ => simp_all [rank]

namespace Path

/-- A path comes before another one. -/
def Before (left right : Path) : Prop := compare left.rank right.rank = .lt

instance (left right : Path) : Decidable (Before left right) :=
  inferInstanceAs (Decidable (compare left.rank right.rank = .lt))

theorem components_eq_of_rank {left right : Path} (same : left.rank = right.rank) :
    left.components = right.components :=
  (List.map_inj_right fun _ _ => Component.rank_inj).mp same

theorem le_trans (left middle right : Path) (first : le left middle = true)
    (second : le middle right = true) : le left right = true :=
  Std.TransCmp.isLE_trans first second

theorem le_total (left right : Path) : (le left right || le right left) = true := by
  have swapped : compare right.rank left.rank = (compare left.rank right.rank).swap :=
    Std.OrientedCmp.eq_swap
  rw [le, le, swapped]
  cases compare left.rank right.rank <;> rfl

theorem Before.le {left right : Path} (before : Before left right) : le left right = true := by
  rw [Path.le, before]
  rfl

theorem Before.components_ne {left right : Path} (before : Before left right) :
    left.components ≠ right.components := by
  intro same
  have equal : compare left.rank right.rank = .eq := by
    rw [rank, same]
    exact Std.ReflCmp.compare_self
  rw [Before, equal] at before
  exact Ordering.noConfusion before

/-- A path that comes before another one or is the same comes before it if they differ in a
component. -/
theorem before_of_le {left right : Path} (ordered : le left right = true)
    (different : left.components ≠ right.components) : Before left right := by
  rcases Ordering.isLE_iff_eq_lt_or_eq_eq.mp ordered with before | equal
  · exact before
  · exact absurd (components_eq_of_rank (Std.LawfulEqCmp.eq_of_compare equal)) different

/-! ## Sorting -/

theorem mem_of_mem_distinctAfter {previous : Option Path} {paths : List Path} {path : Path}
    (member : path ∈ distinctAfter previous paths) : path ∈ paths := by
  induction paths generalizing previous with
  | nil => simp [distinctAfter] at member
  | cons first others inductionHypothesis =>
      rw [distinctAfter] at member
      split at member
      · exact List.mem_cons_of_mem first (inductionHypothesis member)
      · rcases List.mem_cons.mp member with here | later
        · exact here ▸ List.mem_cons_self
        · exact List.mem_cons_of_mem first (inductionHypothesis later)

theorem mem_of_mem_sortDistinct {paths : List Path} {path : Path}
    (member : path ∈ sortDistinct paths) : path ∈ paths :=
  List.mem_mergeSort.mp (mem_of_mem_distinctAfter member)

/-- In a sorted list the paths that are kept are strictly increasing, behind the one kept before. -/
theorem pairwise_distinctAfter {previous : Option Path} {paths : List Path}
    (sorted : paths.Pairwise fun left right => le left right = true)
    (behind : ∀ kept ∈ previous, ∀ path ∈ paths, le kept path = true) :
    (distinctAfter previous paths).Pairwise Before ∧
      ∀ kept ∈ previous, ∀ path ∈ distinctAfter previous paths, Before kept path := by
  induction paths generalizing previous with
  | nil => simp [distinctAfter]
  | cons first others inductionHypothesis =>
      obtain ⟨firstLe, othersSorted⟩ := List.pairwise_cons.mp sorted
      rw [distinctAfter]
      split
      next same =>
        exact inductionHypothesis othersSorted fun kept isKept path member =>
          behind kept isKept path (List.mem_cons_of_mem first member)
      next different =>
        obtain ⟨increasing, afterFirst⟩ := @inductionHypothesis (some first) othersSorted
          fun kept isKept path member => Option.some.inj isKept ▸ firstLe path member
        have isBehind : ∀ kept ∈ previous, Before kept first := by
          intro kept isKept
          refine before_of_le (behind kept isKept first List.mem_cons_self) fun same => different ?_
          rw [Option.mem_def.mp isKept]
          simpa using same
        refine ⟨List.pairwise_cons.mpr ⟨afterFirst first rfl, increasing⟩, ?_⟩
        intro kept isKept path member
        rcases List.mem_cons.mp member with here | later
        · exact here ▸ isBehind kept isKept
        · exact Std.TransCmp.lt_trans (isBehind kept isKept) (afterFirst first rfl path later)

theorem pairwise_sortDistinct (paths : List Path) : (sortDistinct paths).Pairwise Before := by
  have sorted : (paths.mergeSort le).Pairwise fun left right => le left right = true :=
    List.pairwise_mergeSort le_trans le_total paths
  exact (pairwise_distinctAfter sorted (by simp)).1

theorem distinctAfter_of_pairwise {previous : Option Path} {paths : List Path}
    (increasing : paths.Pairwise Before)
    (behind : ∀ kept ∈ previous, ∀ path ∈ paths, Before kept path) :
    distinctAfter previous paths = paths := by
  induction paths generalizing previous with
  | nil => rfl
  | cons first others inductionHypothesis =>
      obtain ⟨firstBefore, othersIncreasing⟩ := List.pairwise_cons.mp increasing
      have different : ¬(previous.any fun kept => kept.components == first.components) = true := by
        cases previous with
        | none => simp
        | some kept => simpa using (behind kept rfl first List.mem_cons_self).components_ne
      rw [distinctAfter, if_neg different, inductionHypothesis othersIncreasing]
      exact fun kept isKept => Option.some.inj isKept ▸ firstBefore

/-- Strictly increasing paths are left as they are. -/
theorem sortDistinct_of_pairwise {paths : List Path} (increasing : paths.Pairwise Before) :
    sortDistinct paths = paths := by
  rw [sortDistinct, List.mergeSort_of_pairwise (increasing.imp Before.le),
    distinctAfter_of_pairwise increasing (by simp)]

end Path

namespace FileTree

/-! ## Sources below a directory -/

/-- Names behind a directory lead down to what is below it. -/
theorem locate_foldl_join {tree : FileTree} (wellFormed : tree.WellFormed) {directory : Path}
    {place : Location} {names : List Text} (nonempty : names ≠ [])
    (leads : tree.Leads (tree.start directory) directory.parts place)
    (present : (tree.entryAt? (place ++ names)).isSome = true) :
    tree.locate (names.foldl Path.join directory) = .ok (place ++ names) := by
  induction names generalizing directory place with
  | nil => exact absurd rfl nonempty
  | cons name names inductionHypothesis =>
      have named := wellFormed.isName_of_mem present (by simp : name ∈ place ++ name :: names)
      have split : place ++ name :: names = place ++ [name] ++ names := by simp
      rw [split] at present ⊢
      rw [List.foldl_cons]
      cases names with
      | nil =>
          rw [List.append_nil] at present ⊢
          exact locate_join named.2 named.1 leads present
      | cons next names =>
          have below := wellFormed.entryAt?_of_append present
          have located := locate_join named.2 named.1 leads (by rw [below]; rfl)
          exact inductionHypothesis (List.cons_ne_nil next names) ⟨follow_of_locate located, below⟩
            present

theorem exists_of_mem_below {tree : FileTree} {location : Location} {names : List Text}
    {entry : Entry} (member : (names, entry) ∈ tree.below location) :
    names ≠ [] ∧ (location ++ names, entry) ∈ tree.entries := by
  obtain ⟨⟨place, found⟩, inEntries, picked⟩ := List.mem_filterMap.mp member
  simp only [Option.ite_none_right_eq_some, Option.some.injEq, Prod.mk.injEq] at picked
  obtain ⟨⟨isPrefix, longer⟩, rfl, rfl⟩ := picked
  have split := List.prefix_iff_eq_append.mp (List.isPrefixOf_iff_prefix.mp isPrefix)
  rw [split]
  refine ⟨fun empty => ?_, inEntries⟩
  have shorter := List.drop_eq_nil_iff.mp empty
  omega

theorem isFile_of_mem_sourcesBelow {tree : FileTree} (wellFormed : tree.WellFormed)
    {directory path : Path} (isDirectory : tree.isDirectory directory = true)
    (member : path ∈ tree.sourcesBelow directory) : tree.isFile path = true := by
  obtain ⟨place, located, found⟩ := isDirectory_iff.mp isDirectory
  have leads : tree.Leads (tree.start directory) directory.parts place :=
    ⟨follow_of_locate located, found⟩
  rw [sourcesBelow, located] at member
  obtain ⟨⟨names, entry⟩, isBelow, picked⟩ := List.mem_filterMap.mp member
  obtain ⟨nonempty, inEntries⟩ := exists_of_mem_below isBelow
  have present := wellFormed.once _ inEntries
  cases entry with
  | directory => simp at picked
  | file content =>
      have same : names.foldl Path.join directory = path := by
        simp only [Option.ite_none_right_eq_some, Option.some.injEq] at picked
        exact picked.2
      rw [isFile_iff, ← same]
      exact ⟨_, content, locate_foldl_join wellFormed nonempty leads (by rw [present]; rfl), present⟩

/-! ## All sources -/

variable {expand : Expansion}

theorem isFile_of_mem_sourcesOf {tree : FileTree} (wellFormed : tree.WellFormed) {input path : Path}
    {paths : List Path} (found : tree.sourcesOf expand input = .ok paths) (member : path ∈ paths) :
    tree.isFile path = true := by
  rw [sourcesOf] at found
  split at found
  next isDirectory =>
    rw [← Except.ok.inj found] at member
    exact isFile_of_mem_sourcesBelow wellFormed isDirectory member
  next =>
    split at found
    next isFile =>
      rw [← Except.ok.inj found, List.mem_singleton] at member
      rw [member, isFile]
    next =>
      split at found
      next => simp at found
      next expanded _ =>
        simp only at found
        split at found
        · simp at found
        · rw [← Except.ok.inj found] at member
          exact (List.mem_filter.mp member).2

theorem isFile_of_mem_sourcesOfAll {tree : FileTree} (wellFormed : tree.WellFormed)
    {inputs paths : List Path} (found : tree.sourcesOfAll expand inputs = .ok paths) :
    ∀ path ∈ paths, tree.isFile path = true := by
  induction inputs generalizing paths with
  | nil =>
      rw [← Except.ok.inj found]
      simp
  | cons input inputs inductionHypothesis =>
      rw [sourcesOfAll] at found
      split at found
      next => simp at found
      next first firstFound =>
        split at found
        next => simp at found
        next others othersFound =>
          rw [← Except.ok.inj found]
          intro path member
          rcases List.mem_append.mp member with inFirst | inOthers
          · exact isFile_of_mem_sourcesOf wellFormed firstFound inFirst
          · exact inductionHypothesis othersFound path inOthers

theorem discover_eq_ok_iff {tree : FileTree} {inputs files : List Path} :
    tree.discover expand inputs = .ok files ↔
      ∃ paths, tree.sourcesOfAll expand inputs = .ok paths ∧ paths ≠ [] ∧
        Path.sortDistinct paths = files := by
  rw [discover]
  cases tree.sourcesOfAll expand inputs with
  | error failure => simp
  | ok paths =>
      by_cases none : paths = []
      · simp [none]
      · simp [none]

/-- What is found are files. -/
theorem isFile_of_discover {tree : FileTree} (wellFormed : tree.WellFormed)
    {inputs files : List Path} (found : tree.discover expand inputs = .ok files) :
    ∀ file ∈ files, tree.isFile file = true := by
  obtain ⟨paths, collected, _, rfl⟩ := discover_eq_ok_iff.mp found
  exact fun file member =>
    isFile_of_mem_sourcesOfAll wellFormed collected file (Path.mem_of_mem_sortDistinct member)

theorem discover_of_pairwise {tree : FileTree} {inputs files : List Path}
    (collected : tree.sourcesOfAll expand inputs = .ok files) (nonempty : files ≠ [])
    (increasing : files.Pairwise Path.Before) : tree.discover expand inputs = .ok files :=
  discover_eq_ok_iff.mpr ⟨files, collected, nonempty, Path.sortDistinct_of_pairwise increasing⟩

end FileTree

end Dialect
