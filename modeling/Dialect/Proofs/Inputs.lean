import Mathlib.Data.List.Nodup
import Mathlib.Data.List.Perm.Basic
import Dialect.Glob.Expansion
import Dialect.Proofs.Discovery
import Dialect.Proofs.Steps

/-!
# What inputs stand for

An input stands for the file that it names, for the sources below the directory that it names, or for
the files that it matches as a pattern, whatever it is that patterns match. What is found is said by the
components of paths, because the same file can be written in several ways. Main statement: the sources
that are found are those of all inputs, in the order of their components and each one once, whatever the
order and the number of times in which the inputs are given (`FileTree.discover_sorted_union`).
-/

namespace Dialect

/-! ## The order of components -/

theorem compare_map_eq_lt_iff {α β : Type} [Ord β] {key : α → β}
    (same : ∀ left right, compare (key left) (key right) = .eq ↔ left = right) (left right : List α) :
    compare (left.map key) (right.map key) = .lt ↔
      List.Lex (fun first second => compare (key first) (key second) = .lt) left right := by
  induction left generalizing right with
  | nil => cases right <;> simp
  | cons first others inductionHypothesis =>
      cases right with
      | nil => simp
      | cons second more =>
          rw [List.map_cons, List.map_cons, List.compare_cons_cons, List.cons_lex_cons_iff,
            Ordering.then_eq_lt, inductionHypothesis, same]

namespace Component

/-- What comes first among components: the root, the current directory, the parent directory, names. -/
def kind : Component → Nat
  | .root => 0
  | .current => 1
  | .parent => 2
  | .name _ => 3

/-- A component comes before another one. Names are ordered by their characters. -/
inductive Precedes : Component → Component → Prop
  | ofKind {left right : Component} : left.kind < right.kind → Precedes left right
  | ofName {left right : Text} :
      List.Lex (fun c d => c.toNat < d.toNat) left right → Precedes (.name left) (.name right)

theorem compare_rank_eq_iff (left right : Component) :
    compare left.rank right.rank = .eq ↔ left = right :=
  ⟨fun equal => rank_inj (Std.LawfulEqCmp.eq_of_compare equal),
    fun same => same ▸ Std.ReflCmp.compare_self⟩

theorem precedes_name_iff {left right : Text} :
    Precedes (.name left) (.name right) ↔ List.Lex (fun c d => c.toNat < d.toNat) left right := by
  constructor
  · intro precedes
    cases precedes with
    | ofKind smaller => exact absurd smaller (Nat.lt_irrefl 3)
    | ofName ordered => exact ordered
  · exact .ofName

theorem kind_le_of_precedes {left right : Component} (precedes : left.Precedes right) :
    left.kind ≤ right.kind := by
  cases precedes with
  | ofKind smaller => exact Nat.le_of_lt smaller
  | ofName _ => exact Nat.le_refl 3

theorem compare_rank (left right : Component) :
    compare left.rank right.rank =
      (compare left.kind right.kind).then (compare left.rank.tail right.rank.tail) := by
  have split (component : Component) : component.rank = component.kind :: component.rank.tail := by
    cases component <;> rfl
  rw [split left, split right, List.compare_cons_cons]
  rfl

theorem eq_or_names_of_kind_eq {left right : Component} (same : left.kind = right.kind) :
    left = right ∧ left.kind < 3 ∨ ∃ text other, left = .name text ∧ right = .name other := by
  cases left <;> cases right <;> simp_all [kind]

theorem compare_rank_eq_lt_iff (left right : Component) :
    compare left.rank right.rank = .lt ↔ left.Precedes right := by
  rcases Nat.lt_trichotomy left.kind right.kind with smaller | same | larger
  · rw [compare_rank, Nat.compare_eq_lt.mpr smaller]
    exact iff_of_true rfl (.ofKind smaller)
  · rcases eq_or_names_of_kind_eq same with ⟨rfl, notName⟩ | ⟨text, other, rfl, rfl⟩
    · rw [(compare_rank_eq_iff left left).mpr rfl]
      refine iff_of_false (by simp) fun precedes => ?_
      cases precedes with
      | ofKind smaller => exact Nat.lt_irrefl _ smaller
      | ofName _ => exact absurd notName (Nat.lt_irrefl 3)
    · have characters := @compare_map_eq_lt_iff _ _ _ Char.toNat
        (fun c d => Nat.compare_eq_eq.trans Char.toNat_inj) text other
      simp only [Nat.compare_eq_lt] at characters
      rw [compare_rank, Nat.compare_eq_eq.mpr same, Ordering.eq_then, precedes_name_iff]
      exact characters
  · rw [compare_rank, Nat.compare_eq_gt.mpr larger]
    exact iff_of_false (by simp) fun precedes => absurd (kind_le_of_precedes precedes) (by omega)

end Component

namespace Path

theorem before_iff {left right : Path} :
    Before left right ↔ List.Lex Component.Precedes left.components right.components := by
  rw [Before, rank, rank, compare_map_eq_lt_iff Component.compare_rank_eq_iff]
  simp only [Component.compare_rank_eq_lt_iff]

theorem nodup_map_components {paths : List Path} (increasing : paths.Pairwise Before) :
    (paths.map Path.components).Nodup :=
  List.pairwise_map.mpr (increasing.imp Before.components_ne)

/-- Strictly increasing paths are the same up to their spelling if they have the same components. -/
theorem map_components_eq_of_pairwise {left right : List Path} (leftIncreasing : left.Pairwise Before)
    (rightIncreasing : right.Pairwise Before)
    (same : ∀ components, components ∈ left.map Path.components ↔ components ∈ right.map Path.components) :
    left.map Path.components = right.map Path.components := by
  have sorted {paths : List Path} (increasing : paths.Pairwise Before) :
      (paths.map Path.components).Pairwise fun first second =>
        compare (first.map Component.rank) (second.map Component.rank) = .lt :=
    List.pairwise_map.mpr increasing
  have reordered := (List.perm_ext_iff_of_nodup (nodup_map_components leftIncreasing)
    (nodup_map_components rightIncreasing)).mpr same
  refine reordered.eq_of_pairwise ?_ (sorted leftIncreasing) (sorted rightIncreasing)
  intro first second _ _ before after
  exact absurd after (Std.OrientedCmp.not_lt_of_lt before)

/-! ## Keeping one spelling of each path -/

theorem components_kept_of_mem {previous : Option Path} {paths : List Path} {path : Path}
    (member : path ∈ paths) :
    path.components ∈ (distinctAfter previous paths).map components ∨
      ∃ kept ∈ previous, kept.components = path.components := by
  induction paths generalizing previous with
  | nil => simp at member
  | cons first others inductionHypothesis =>
      rw [distinctAfter]
      split
      next same =>
        rcases List.mem_cons.mp member with rfl | later
        · obtain ⟨kept, isKept, sameComponents⟩ := (Option.any_eq_true ..).mp same
          exact Or.inr ⟨kept, isKept, beq_iff_eq.mp sameComponents⟩
        · exact inductionHypothesis later
      next =>
        rcases List.mem_cons.mp member with rfl | later
        · exact Or.inl (by simp)
        · rcases @inductionHypothesis (some first) later with inOthers | ⟨kept, isFirst, sameComponents⟩
          · exact Or.inl (List.mem_cons_of_mem _ inOthers)
          · obtain rfl := Option.some.inj isFirst
            exact Or.inl (by simp [sameComponents])

theorem mem_map_components_sortDistinct_iff {paths : List Path} {components : List Component} :
    components ∈ (sortDistinct paths).map Path.components ↔
      components ∈ paths.map Path.components := by
  constructor
  · intro member
    obtain ⟨path, kept, rfl⟩ := List.mem_map.mp member
    exact List.mem_map_of_mem (mem_of_mem_sortDistinct kept)
  · intro member
    obtain ⟨path, given, rfl⟩ := List.mem_map.mp member
    rcases @components_kept_of_mem none _ _ (List.mem_mergeSort.mpr given) with kept | ⟨_, none, _⟩
    · exact kept
    · exact absurd none (by simp)

/-! ## Names behind a directory -/

/-- The component that the first part of a path stands for. -/
def ofFirst (part : Text) : List Component :=
  if part = [] then [.root] else if part = ['.'] then [.current] else (Component.ofPart? part).toList

theorem components_of_parts {path : Path} (nonempty : path.text ≠ []) {first : Text}
    {others : List Text} (split : path.parts = first :: others) :
    path.components = ofFirst first ++ others.filterMap Component.ofPart? := by
  have notAlone : first = [] → others ≠ [] := by
    rintro rfl rfl
    apply nonempty
    rw [← Text.joinWith_splitOn '/' path.text, ← parts, split]
    rfl
  rw [components, split]
  by_cases empty : first = []
  · simp [ofFirst, empty, notAlone empty]
  · simp [ofFirst, empty]

theorem components_join (directory : Path) {name : Text} (slashFree : '/' ∉ name)
    (named : isName name = true) :
    (directory.join name).components = directory.components ++ [.name name] := by
  have alone : Text.splitOn '/' name = [name] := Text.splitOn_of_not_mem slashFree
  have component := ofPart?_of_isName named
  have nonempty : name ≠ [] := by
    rintro rfl
    simp [isName, isStep] at named
  have joinedNonempty := text_join_ne_nil directory nonempty
  by_cases empty : directory.text = []
  · have joinedParts : (directory.join name).parts = [name] := by simp [parts, join, empty, alone]
    have directoryComponents : directory.components = [] := by
      simp [components, parts, empty, Text.splitOn]
    have notDot : name ≠ ['.'] := by
      rintro rfl
      simp [isName, isStep] at named
    rw [components_of_parts joinedNonempty joinedParts, directoryComponents]
    simp [ofFirst, nonempty, notDot, component]
  · by_cases slash : directory.text.getLast? = some '/'
    · -- The directory has an empty part behind its last slash, which the name takes the place of.
      obtain ⟨before, split⟩ := List.getLast?_eq_some_iff.mp slash
      obtain ⟨first, others, beforeParts⟩ :=
        List.exists_cons_of_ne_nil (Text.splitOn_ne_nil '/' before)
      have directoryParts : directory.parts = first :: (others ++ [[]]) := by
        rw [parts, split, Text.splitOn_append_separator, beforeParts]
        rfl
      have joinedParts : (directory.join name).parts = first :: (others ++ [name]) := by
        rw [parts, join, if_pos (Or.inr slash), split, List.append_assoc, List.singleton_append,
          Text.splitOn_append_separator, alone, beforeParts]
        rfl
      have nothing : Component.ofPart? [] = none := rfl
      rw [components_of_parts joinedNonempty joinedParts, components_of_parts empty directoryParts]
      simp [component, nothing]
    · obtain ⟨first, others, directoryParts⟩ := List.exists_cons_of_ne_nil directory.parts_ne_nil
      have joinedParts : (directory.join name).parts = first :: (others ++ [name]) := by
        rw [parts, join, if_neg (by simp [empty, slash]), Text.splitOn_append_separator, alone, ← parts,
          directoryParts]
        rfl
      rw [components_of_parts joinedNonempty joinedParts, components_of_parts empty directoryParts]
      simp [component]

theorem components_foldl_join (directory : Path) {names : List Text}
    (named : ∀ name ∈ names, isName name = true ∧ '/' ∉ name) :
    (names.foldl join directory).components = directory.components ++ names.map .name := by
  induction names generalizing directory with
  | nil => simp
  | cons name names inductionHypothesis =>
      obtain ⟨isName, slashFree⟩ := named name List.mem_cons_self
      rw [List.foldl_cons,
        inductionHypothesis _ fun other member => named other (List.mem_cons_of_mem name member),
        components_join directory slashFree isName, List.append_assoc, List.map_cons,
        List.singleton_append]

end Path

/-- A name that ends in a dot and an extension has that extension, unless nothing stands before the
dot. -/
theorem Path.snd_cutExtension_eq_some_iff {name extension : Text} (dotFree : '.' ∉ extension)
    (nonempty : extension ≠ []) :
    (cutExtension name).2 = some extension ↔ ∃ stem, stem ≠ [] ∧ name = stem ++ '.' :: extension := by
  constructor
  · intro found
    rcases cutExtension_cases name with whole | ⟨stem, ending, stemNonempty, _, split, cut⟩
    · simp [whole] at found
    · rw [cut] at found
      obtain rfl := Option.some.inj found
      exact ⟨stem, stemNonempty, split⟩
  · rintro ⟨stem, stemNonempty, rfl⟩
    rw [cutExtension_append stemNonempty dotFree]
    intro parent
    have lengths := congrArg List.length parent
    have stemLength := List.length_pos_iff.mpr stemNonempty
    have extensionLength := List.length_pos_iff.mpr nonempty
    simp only [List.length_append, List.length_cons, List.length_nil] at lengths
    omega

namespace FileTree

/-! ## What one input stands for -/

/-- An input stands for a file, which is given by the components of its path: for the file that it
names, for a source at any depth below the directory that it names, or for a file that it matches. -/
inductive StandsFor (tree : FileTree) (expand : Expansion) (input : Path) : List Component → Prop
  | file : tree.isFile input = true → StandsFor tree expand input input.components
  | below {place names : Location} {stem : Text} {content : Content} :
      tree.locate input = .ok place → tree.entryAt? place = some .directory →
      tree.entryAt? (place ++ (names ++ [stem ++ '.' :: sourceExtension])) = some (.file content) →
      stem ≠ [] →
      StandsFor tree expand input
        (input.components ++ (names ++ [stem ++ '.' :: sourceExtension]).map .name)
  | matched {paths : List Path} {path : Path} :
      tree.contains input = false → expand tree input = .ok paths → path ∈ paths →
      tree.isFile path = true → StandsFor tree expand input path.components

/-- An input can be expanded: it names a directory or a file, or it is a pattern that matches a file. -/
def Expands (tree : FileTree) (expand : Expansion) (input : Path) : Prop :=
  tree.contains input = true ∨
    ∃ paths, expand tree input = .ok paths ∧ ∃ path ∈ paths, tree.isFile path = true

variable {expand : Expansion}

theorem contains_eq (tree : FileTree) (path : Path) :
    tree.contains path = (tree.isDirectory path || tree.isFile path) := by
  rw [contains, isDirectory, isFile]
  cases tree.find? path with
  | none => rfl
  | some entry => cases entry <;> rfl

theorem mem_below_iff {tree : FileTree} {location names : Location} {entry : Entry} :
    (names, entry) ∈ tree.below location ↔
      names ≠ [] ∧ (location ++ names, entry) ∈ tree.entries := by
  refine ⟨exists_of_mem_below, ?_⟩
  rintro ⟨nonempty, member⟩
  refine List.mem_filterMap.mpr ⟨_, member, ?_⟩
  have isPrefix : location.isPrefixOf (location ++ names) = true :=
    List.isPrefixOf_iff_prefix.mpr (List.prefix_append location names)
  simp [isPrefix, List.length_pos_iff.mpr nonempty]

section Below

variable {tree : FileTree} (wellFormed : tree.WellFormed)

include wellFormed

theorem mem_below_file_iff {location names : Location} {content : Content} :
    (names, .file content) ∈ tree.below location ↔
      names ≠ [] ∧ tree.entryAt? (location ++ names) = some (.file content) := by
  rw [mem_below_iff]
  refine and_congr_right fun nonempty => ⟨wellFormed.once _, mem_entries_of_entryAt? ?_⟩
  simp [nonempty]

theorem extension?_of_entryAt? {directory : Path} {location names : Location} {last : Text}
    (present : (tree.entryAt? (location ++ (names ++ [last]))).isSome = true) :
    ((names ++ [last]).foldl Path.join directory).extension? = (Path.cutExtension last).2 := by
  obtain ⟨named, slashFree⟩ := wellFormed.isName_of_mem present (by simp : last ∈ _)
  obtain ⟨before, split, _⟩ := Path.exists_parts_join (names.foldl Path.join directory) slashFree
  rw [List.foldl_append, List.foldl_cons, List.foldl_nil, Path.extension?,
    Path.fileName?_of_parts split named, Option.bind_some]

/-- The sources below a directory are the files at any depth below it that have the extension of
sources. -/
theorem mem_sourcesBelow_iff {directory path : Path} {place : Location}
    (located : tree.locate directory = .ok place) :
    path ∈ tree.sourcesBelow directory ↔
      ∃ names stem content, stem ≠ [] ∧
        tree.entryAt? (place ++ (names ++ [stem ++ '.' :: sourceExtension])) = some (.file content) ∧
        path = (names ++ [stem ++ '.' :: sourceExtension]).foldl Path.join directory := by
  have hasExtension (name : Text) := @Path.snd_cutExtension_eq_some_iff name sourceExtension
    (by decide) (by decide)
  rw [sourcesBelow, located]
  simp only [List.mem_filterMap, Prod.exists]
  constructor
  · rintro ⟨names, entry, isBelow, picked⟩
    cases entry with
    | directory => simp at picked
    | file content =>
        obtain ⟨nonempty, found⟩ := (mem_below_file_iff wellFormed).mp isBelow
        obtain ⟨front, last, rfl⟩ : ∃ front last, names = front ++ [last] :=
          ⟨names.dropLast, names.getLast nonempty, (List.dropLast_concat_getLast nonempty).symm⟩
        simp only [Option.ite_none_right_eq_some, Option.some.injEq] at picked
        rw [extension?_of_entryAt? wellFormed (by rw [found]; rfl), hasExtension] at picked
        obtain ⟨⟨stem, stemNonempty, rfl⟩, rfl⟩ := picked
        exact ⟨front, stem, content, stemNonempty, found, rfl⟩
  · rintro ⟨names, stem, content, nonempty, found, rfl⟩
    refine ⟨_, _, (mem_below_file_iff wellFormed).mpr ⟨by simp, found⟩, if_pos ?_⟩
    rw [extension?_of_entryAt? wellFormed (by rw [found]; rfl), hasExtension]
    exact ⟨stem, nonempty, rfl⟩

theorem components_of_entryAt? {directory : Path} {location names : Location}
    (present : (tree.entryAt? (location ++ names)).isSome = true) :
    (names.foldl Path.join directory).components = directory.components ++ names.map .name :=
  Path.components_foldl_join directory fun _ member =>
    wellFormed.isName_of_mem present (List.mem_append_right location member)

end Below

/-! ## The three kinds of inputs -/

section Kinds

variable {tree : FileTree} {input : Path}

theorem isFile_of_isDirectory (isDirectory : tree.isDirectory input = true) :
    tree.isFile input = false := by
  rw [FileTree.isDirectory] at isDirectory
  rw [isFile]
  split at isDirectory
  next found => rw [found]
  next => simp at isDirectory

theorem standsFor_directory_iff (isDirectory : tree.isDirectory input = true) {place : Location}
    (located : tree.locate input = .ok place) {components : List Component} :
    tree.StandsFor expand input components ↔
      ∃ names stem content, stem ≠ [] ∧
        tree.entryAt? (place ++ (names ++ [stem ++ '.' :: sourceExtension])) = some (.file content) ∧
        components = input.components ++ (names ++ [stem ++ '.' :: sourceExtension]).map .name := by
  constructor
  · intro standsFor
    cases standsFor with
    | file isFile => simp [isFile_of_isDirectory isDirectory] at isFile
    | @below other names stem content otherLocated _ found nonempty =>
        obtain rfl := Except.ok.inj (located.symm.trans otherLocated)
        exact ⟨names, stem, content, nonempty, found, rfl⟩
    | matched absent => simp [contains_eq, isDirectory] at absent
  · rintro ⟨names, stem, content, nonempty, found, rfl⟩
    obtain ⟨other, otherLocated, directory⟩ := isDirectory_iff.mp isDirectory
    obtain rfl := Except.ok.inj (located.symm.trans otherLocated)
    exact .below located directory found nonempty

theorem standsFor_file_iff (isFile : tree.isFile input = true) {components : List Component} :
    tree.StandsFor expand input components ↔ components = input.components := by
  constructor
  · intro standsFor
    cases standsFor with
    | file => rfl
    | below located directory =>
        simp [isFile_of_isDirectory (isDirectory_iff.mpr ⟨_, located, directory⟩)] at isFile
    | matched absent => simp [contains_eq, isFile] at absent
  · rintro rfl
    exact .file isFile

theorem standsFor_pattern_iff (absent : tree.contains input = false) {paths : List Path}
    (expanded : expand tree input = .ok paths) {components : List Component} :
    tree.StandsFor expand input components ↔
      components ∈ (paths.filter tree.isFile).map Path.components := by
  constructor
  · intro standsFor
    cases standsFor with
    | file isFile => simp [contains_eq, isFile] at absent
    | below located directory =>
        simp [contains_eq, isDirectory_iff.mpr ⟨_, located, directory⟩] at absent
    | matched _ otherExpanded member isFile =>
        obtain rfl := Except.ok.inj (expanded.symm.trans otherExpanded)
        exact List.mem_map_of_mem (List.mem_filter.mpr ⟨member, isFile⟩)
  · intro member
    obtain ⟨path, isPath, rfl⟩ := List.mem_map.mp member
    obtain ⟨inPaths, isFile⟩ := List.mem_filter.mp isPath
    exact .matched absent expanded inPaths isFile

end Kinds

/-- The step lemma: an input that can be expanded gives what it stands for. -/
theorem exists_sourcesOf {tree : FileTree} (wellFormed : tree.WellFormed) {input : Path}
    (expands : tree.Expands expand input) :
    ∃ paths, tree.sourcesOf expand input = .ok paths ∧
      ∀ components, components ∈ paths.map Path.components ↔ tree.StandsFor expand input components := by
  rw [sourcesOf]
  cases isDirectory : tree.isDirectory input with
  | true =>
      obtain ⟨place, located, _⟩ := isDirectory_iff.mp isDirectory
      refine ⟨_, rfl, fun components => ?_⟩
      rw [standsFor_directory_iff isDirectory located, List.mem_map]
      simp only [mem_sourcesBelow_iff wellFormed located]
      constructor
      · rintro ⟨_, ⟨names, stem, content, nonempty, found, rfl⟩, rfl⟩
        exact ⟨names, stem, content, nonempty, found,
          components_of_entryAt? wellFormed (by rw [found]; rfl)⟩
      · rintro ⟨names, stem, content, nonempty, found, rfl⟩
        exact ⟨_, ⟨names, stem, content, nonempty, found, rfl⟩,
          components_of_entryAt? wellFormed (by rw [found]; rfl)⟩
  | false =>
      cases isFile : tree.isFile input with
      | true =>
          refine ⟨[input], rfl, fun components => ?_⟩
          rw [standsFor_file_iff isFile, List.map_singleton, List.mem_singleton]
      | false =>
          have absent : tree.contains input = false := by rw [contains_eq, isDirectory, isFile]; rfl
          rcases expands with present | ⟨paths, expanded, path, member, pathIsFile⟩
          · simp [absent] at present
          · have nonempty : paths.filter tree.isFile ≠ [] :=
              List.ne_nil_of_mem (List.mem_filter.mpr ⟨member, pathIsFile⟩)
            refine ⟨paths.filter tree.isFile, ?_, fun components => ?_⟩
            · simp [expanded, nonempty]
            · exact (standsFor_pattern_iff absent expanded).symm

/-! ## What all inputs stand for -/

/-- The run lemma over the inputs. -/
theorem exists_sourcesOfAll {tree : FileTree} (wellFormed : tree.WellFormed) {inputs : List Path}
    (expandable : ∀ input ∈ inputs, tree.Expands expand input) :
    ∃ paths, tree.sourcesOfAll expand inputs = .ok paths ∧
      ∀ components, components ∈ paths.map Path.components ↔
        ∃ input ∈ inputs, tree.StandsFor expand input components := by
  induction inputs with
  | nil => exact ⟨[], rfl, by simp⟩
  | cons input inputs inductionHypothesis =>
      obtain ⟨first, firstFound, inFirst⟩ := exists_sourcesOf wellFormed (expandable input List.mem_cons_self)
      obtain ⟨others, othersFound, inOthers⟩ :=
        inductionHypothesis fun other member => expandable other (List.mem_cons_of_mem input member)
      refine ⟨first ++ others, by simp only [sourcesOfAll, firstFound, othersFound], ?_⟩
      intro components
      rw [List.map_append, List.mem_append, inFirst, inOthers]
      simp only [List.mem_cons, or_and_right, exists_or, exists_eq_left]

/-- Inputs that can be expanded stand for nothing, and then there are no sources, or their sources are
found. -/
theorem discover_cases {tree : FileTree} (wellFormed : tree.WellFormed) {inputs : List Path}
    (expandable : ∀ input ∈ inputs, tree.Expands expand input) :
    (tree.discover expand inputs = .error .noSources ∧
        ∀ components, ¬∃ input ∈ inputs, tree.StandsFor expand input components) ∨
      ∃ files, tree.discover expand inputs = .ok files ∧ files.Pairwise Path.Before ∧
        (∀ components, components ∈ files.map Path.components ↔
          ∃ input ∈ inputs, tree.StandsFor expand input components) ∧
        ∃ components, ∃ input ∈ inputs, tree.StandsFor expand input components := by
  obtain ⟨paths, found, standsFor⟩ := exists_sourcesOfAll wellFormed expandable
  cases paths with
  | nil =>
      refine Or.inl ⟨by simp [discover, found], fun components => ?_⟩
      rw [← standsFor]
      exact List.not_mem_nil
  | cons path others =>
      refine Or.inr ⟨Path.sortDistinct (path :: others), by simp [discover, found],
        Path.pairwise_sortDistinct _, fun components => ?_, path.components, ?_⟩
      · rw [Path.mem_map_components_sortDistinct_iff, standsFor]
      · exact (standsFor _).mp List.mem_cons_self

/-- The sources of inputs that can be expanded are found in the order of their components and each one
once; they are what the inputs stand for. Other inputs that are the same up to order and repetition
give the same, up to the spelling of paths. There are no sources exactly if the inputs stand for
nothing. -/
theorem discover_sorted_union {tree : FileTree} (wellFormed : tree.WellFormed) {inputs : List Path}
    (expandable : ∀ input ∈ inputs, tree.Expands expand input) :
    (∀ files, tree.discover expand inputs = .ok files →
        (files.Pairwise fun left right =>
          List.Lex Component.Precedes left.components right.components) ∧
        (files.map Path.components).Nodup ∧
        ∀ components, components ∈ files.map Path.components ↔
          ∃ input ∈ inputs, tree.StandsFor expand input components) ∧
      (∀ others : List Path, (∀ input, input ∈ others ↔ input ∈ inputs) →
        (tree.discover expand others).map (List.map Path.components) =
          (tree.discover expand inputs).map (List.map Path.components)) ∧
      ((∃ failure, tree.discover expand inputs = .error failure) ↔
        ∀ components, ¬∃ input ∈ inputs, tree.StandsFor expand input components) := by
  refine ⟨?_, ?_, ?_⟩
  · intro files found
    rcases discover_cases wellFormed expandable with ⟨nothing, _⟩ |
      ⟨_, isFound, increasing, standFor, _⟩
    · simp [nothing] at found
    · obtain rfl := Except.ok.inj (isFound.symm.trans found)
      exact ⟨increasing.imp Path.before_iff.mp, Path.nodup_map_components increasing, standFor⟩
  · intro others same
    have expandableOthers : ∀ input ∈ others, tree.Expands expand input :=
      fun input member => expandable input ((same input).mp member)
    have sameUnion (components : List Component) :
        (∃ input ∈ others, tree.StandsFor expand input components) ↔
          ∃ input ∈ inputs, tree.StandsFor expand input components := by
      simp only [same]
    rcases discover_cases wellFormed expandable with ⟨nothing, standForNothing⟩ |
        ⟨files, found, increasing, standFor, components, standsFor⟩ <;>
      rcases discover_cases wellFormed expandableOthers with ⟨otherNothing, othersStandForNothing⟩ |
        ⟨otherFiles, otherFound, otherIncreasing, othersStandFor, otherComponents, otherStandsFor⟩
    · rw [nothing, otherNothing]
    · exact absurd ((sameUnion _).mp otherStandsFor) (standForNothing _)
    · exact absurd ((sameUnion _).mpr standsFor) (othersStandForNothing _)
    · have sameComponents := Path.map_components_eq_of_pairwise otherIncreasing increasing
        fun components => by rw [othersStandFor, sameUnion, standFor]
      rw [found, otherFound]
      exact congrArg Except.ok sameComponents
  · rcases discover_cases wellFormed expandable with ⟨nothing, standForNothing⟩ |
      ⟨files, found, _, _, components, standsFor⟩
    · exact iff_of_true ⟨_, nothing⟩ standForNothing
    · refine iff_of_false ?_ fun standForNothing => standForNothing components standsFor
      rintro ⟨failure, failed⟩
      simp [found] at failed

/-- A directory with a source in it, and below it a directory with another file. -/
def nestedTree : FileTree :=
  (FileTree.empty.withFile ["s".toList, "a.jolly".toList] (.text [])).withFile
    ["s".toList, "d".toList, "b.txt".toList] (.text [])

/-- A source that is given as a file and with its directory is found once, beside what a pattern
matches. -/
theorem discover_sorted_union_overlapping :
    let inputs : List Path := [⟨"s".toList⟩, ⟨"s//a.jolly".toList⟩, ⟨"s/**/*.txt".toList⟩]
    nestedTree.WellFormed ∧ (∀ input ∈ inputs, nestedTree.Expands Glob.expansion input) ∧
      ∃ files, nestedTree.discover Glob.expansion inputs = .ok files ∧ (files.map Path.components).Nodup ∧
        [.name "s".toList, .name "a.jolly".toList] ∈ files.map Path.components ∧
        [.name "s".toList, .name "d".toList, .name "b.txt".toList] ∈ files.map Path.components := by
  intro inputs
  have wellFormed : nestedTree.WellFormed := by decide +kernel
  have absent : nestedTree.contains ⟨"s/**/*.txt".toList⟩ = false := by decide +kernel
  have expanded : Glob.expansion nestedTree ⟨"s/**/*.txt".toList⟩ = .ok [⟨"s/d/b.txt".toList⟩] :=
    eq_ok_of_toOption (by decide +kernel)
  have isFile : nestedTree.isFile ⟨"s/d/b.txt".toList⟩ = true := by decide +kernel
  have expandable : ∀ input ∈ inputs, nestedTree.Expands Glob.expansion input := by
    simp only [inputs, List.forall_mem_cons]
    exact ⟨Or.inl (by decide +kernel), Or.inl (by decide +kernel),
      Or.inr ⟨_, expanded, _, List.mem_singleton_self _, isFile⟩, by simp⟩
  obtain ⟨sorted, _, failure⟩ := discover_sorted_union wellFormed expandable
  have source : nestedTree.StandsFor Glob.expansion ⟨"s//a.jolly".toList⟩
      [.name "s".toList, .name "a.jolly".toList] :=
    .file (by decide +kernel)
  have matched : nestedTree.StandsFor Glob.expansion ⟨"s/**/*.txt".toList⟩
      [.name "s".toList, .name "d".toList, .name "b.txt".toList] :=
    .matched absent expanded (List.mem_singleton_self _) isFile
  cases found : nestedTree.discover Glob.expansion inputs with
  | error reason => exact absurd ⟨_, by simp [inputs], source⟩ (failure.mp ⟨reason, found⟩ _)
  | ok files =>
      obtain ⟨_, once, standFor⟩ := sorted files found
      exact ⟨wellFormed, expandable, files, rfl, once, (standFor _).mpr ⟨_, by simp [inputs], source⟩,
        (standFor _).mpr ⟨_, by simp [inputs], matched⟩⟩

end FileTree

end Dialect
