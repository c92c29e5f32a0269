import Dialect.FileTree
import Dialect.Proofs.Paths

/-!
# What paths lead to

One step along a path stays where it is, goes up, or goes down to something that is there
(`follow_cons_eq_ok_iff`); everything about paths in a file tree is proved from this. Parts that are no
steps make no difference to the directory that a path leads to (`leads_steps_iff`), and a path leads to
the same place as long as directories stay directories and nothing is taken away (`Keeps`).
-/

namespace Dialect

namespace FileTree

/-! ## Entries -/

@[simp]
theorem entryAt?_root (tree : FileTree) : tree.entryAt? [] = some .directory := rfl

theorem lookup_filter_of_ne {entries : List (Location × Entry)} {location other : Location}
    (different : other ≠ location) :
    (entries.filter fun old => old.1 != location).lookup other = entries.lookup other := by
  induction entries with
  | nil => rfl
  | cons old others inductionHypothesis =>
      by_cases same : old.1 = location
      · have otherKey : (other == old.1) = false := by simpa [same] using different
        rw [List.filter_cons_of_neg (by simp [same]), inductionHypothesis, List.lookup_cons, otherKey]
      · rw [List.filter_cons_of_pos (by simp [same]), List.lookup_cons, List.lookup_cons,
          inductionHypothesis]

theorem lookup_filter_self (entries : List (Location × Entry)) (location : Location) :
    (entries.filter fun old => old.1 != location).lookup location = none := by
  rw [List.lookup_eq_none_iff]
  intro old member
  have different : old.1 ≠ location := by simpa using (List.mem_filter.mp member).2
  exact bne_iff_ne.mpr different.symm

/-- Putting an entry at a place changes nothing anywhere else. -/
theorem entryAt?_put {tree : FileTree} {location : Location} (notRoot : location ≠ []) (entry : Entry)
    (other : Location) :
    (tree.put location entry).entryAt? other =
      if other = location then some entry else tree.entryAt? other := by
  by_cases same : other = location
  · rw [if_pos same, same, entryAt?, if_neg notRoot, put, List.lookup_append, lookup_filter_self]
    simp
  · by_cases root : other = []
    · rw [if_neg same, root]
      rfl
    · have otherKey : (other == location) = false := by simpa using same
      rw [if_neg same, entryAt?, entryAt?, if_neg root, if_neg root, put, List.lookup_append,
        lookup_filter_of_ne same, List.lookup_cons, otherKey]
      simp

/-! ## Well-formed trees -/

/-- Each thing is in a directory, under a name, and once; the working directory is there. -/
structure WellFormed (tree : FileTree) : Prop where
  working : tree.entryAt? tree.working = some .directory
  once : ∀ item ∈ tree.entries, tree.entryAt? item.1 = some item.2
  held : ∀ item ∈ tree.entries, tree.entryAt? item.1.dropLast = some .directory
  named : ∀ item ∈ tree.entries, ∀ name ∈ item.1, Path.isName name = true ∧ '/' ∉ name

/-- Well-formedness can be checked item by item. -/
theorem wellFormed_iff_all (tree : FileTree) :
    (tree.entryAt? tree.working = some .directory ∧
        tree.entries.all (fun item => tree.entryAt? item.1 == some item.2 &&
          tree.entryAt? item.1.dropLast == some .directory &&
          item.1.all fun name => Path.isName name && !name.contains '/') = true) ↔
      tree.WellFormed := by
  simp only [List.all_eq_true, Bool.and_eq_true, beq_iff_eq, Bool.not_eq_true', List.contains_eq_mem,
    decide_eq_false_iff_not]
  constructor
  · rintro ⟨working, items⟩
    exact ⟨working, fun item member => (items item member).1.1,
      fun item member => (items item member).1.2, fun item member => (items item member).2⟩
  · intro wellFormed
    exact ⟨wellFormed.working, fun item member => ⟨⟨wellFormed.once item member,
      wellFormed.held item member⟩, wellFormed.named item member⟩⟩

instance (tree : FileTree) : Decidable tree.WellFormed :=
  decidable_of_iff _ tree.wellFormed_iff_all

theorem mem_entries_of_entryAt? {tree : FileTree} {location : Location} {entry : Entry}
    (notRoot : location ≠ []) (found : tree.entryAt? location = some entry) :
    (location, entry) ∈ tree.entries := by
  rw [entryAt?, if_neg notRoot, List.lookup_eq_some_iff] at found
  obtain ⟨before, after, split, _⟩ := found
  simp [split]

namespace WellFormed

variable {tree : FileTree} (wellFormed : tree.WellFormed)

include wellFormed

theorem entryAt?_dropLast {location : Location} (present : (tree.entryAt? location).isSome = true) :
    tree.entryAt? location.dropLast = some .directory := by
  by_cases root : location = []
  · rw [root]
    rfl
  · obtain ⟨entry, found⟩ := Option.isSome_iff_exists.mp present
    exact wellFormed.held _ (mem_entries_of_entryAt? root found)

theorem isName_of_mem {location : Location} (present : (tree.entryAt? location).isSome = true)
    {name : Text} (member : name ∈ location) : Path.isName name = true ∧ '/' ∉ name := by
  obtain ⟨entry, found⟩ := Option.isSome_iff_exists.mp present
  exact wellFormed.named _ (mem_entries_of_entryAt? (List.ne_nil_of_mem member) found) name member

/-- What lies above something that is there is a directory. -/
theorem entryAt?_of_append {location : Location} {name : Text} {names : List Text}
    (present : (tree.entryAt? (location ++ name :: names)).isSome = true) :
    tree.entryAt? location = some .directory := by
  induction names generalizing location name with
  | nil =>
      have above := wellFormed.entryAt?_dropLast present
      rwa [List.dropLast_concat] at above
  | cons next names inductionHypothesis =>
      have split : location ++ name :: next :: names = location ++ [name] ++ next :: names := by simp
      rw [split] at present
      have below := inductionHypothesis present
      have above := wellFormed.entryAt?_dropLast (by rw [below]; rfl : _ = true)
      rwa [List.dropLast_concat] at above

end WellFormed

/-! ## Following parts -/

/-- One step along a path: it stays, it goes up, or it goes down to something that is there. -/
theorem follow_cons_eq_ok_iff {tree : FileTree} {here place : Location} {part : Text}
    {parts : List Text} :
    tree.follow here (part :: parts) = .ok place ↔
      tree.entryAt? here = some .directory ∧
        (Path.isStep part = false ∧ tree.follow here parts = .ok place ∨
          part = ['.', '.'] ∧ tree.follow here.dropLast parts = .ok place ∨
          Path.isName part = true ∧ (tree.entryAt? (here ++ [part])).isSome = true ∧
            tree.follow (here ++ [part]) parts = .ok place) := by
  rw [follow]
  cases found : tree.entryAt? here with
  | none => simp
  | some entry =>
      cases entry with
      | file content => simp
      | directory =>
          by_cases stays : Path.isStep part = false
          · have notParent : part ≠ ['.', '.'] := by
              intro parent
              simp [parent, Path.isStep] at stays
            have notName : Path.isName part = false := by simp [Path.isName, stays]
            simp [stays, notParent, notName]
          · have moves : Path.isStep part = true := by simpa using stays
            by_cases parent : part = ['.', '.']
            · simp [parent, Path.isStep, Path.isName]
            · have named : Path.isName part = true := Path.isName_iff.mpr ⟨moves, parent⟩
              cases below : tree.entryAt? (here ++ [part]) with
              | none => simp [moves, parent]
              | some entry => simp [moves, parent, named]

theorem follow_append_eq_ok_iff {tree : FileTree} {start place : Location} {left right : List Text} :
    tree.follow start (left ++ right) = .ok place ↔
      ∃ here, tree.follow start left = .ok here ∧ tree.follow here right = .ok place := by
  induction left generalizing start with
  | nil => simp [follow]
  | cons part parts inductionHypothesis =>
      simp only [List.cons_append, follow_cons_eq_ok_iff, inductionHypothesis]
      constructor
      · rintro ⟨directory, ⟨stays, here, first, later⟩ | ⟨parent, here, first, later⟩ |
          ⟨named, present, here, first, later⟩⟩
        · exact ⟨here, ⟨directory, Or.inl ⟨stays, first⟩⟩, later⟩
        · exact ⟨here, ⟨directory, Or.inr (Or.inl ⟨parent, first⟩)⟩, later⟩
        · exact ⟨here, ⟨directory, Or.inr (Or.inr ⟨named, present, first⟩)⟩, later⟩
      · rintro ⟨here, ⟨directory, ⟨stays, first⟩ | ⟨parent, first⟩ | ⟨named, present, first⟩⟩, later⟩
        · exact ⟨directory, Or.inl ⟨stays, here, first, later⟩⟩
        · exact ⟨directory, Or.inr (Or.inl ⟨parent, here, first, later⟩)⟩
        · exact ⟨directory, Or.inr (Or.inr ⟨named, present, here, first, later⟩)⟩

/-- Parts lead from a location to a directory. -/
def Leads (tree : FileTree) (start : Location) (parts : List Text) (place : Location) : Prop :=
  tree.follow start parts = .ok place ∧ tree.entryAt? place = some .directory

theorem Leads.start {tree : FileTree} {start place : Location} {parts : List Text}
    (leads : tree.Leads start parts place) : tree.entryAt? start = some .directory := by
  cases parts with
  | nil =>
      have here : start = place := Except.ok.inj leads.1
      exact here ▸ leads.2
  | cons part parts => exact (follow_cons_eq_ok_iff.mp leads.1).1

theorem leads_cons_iff {tree : FileTree} {here place : Location} {part : Text} {parts : List Text} :
    tree.Leads here (part :: parts) place ↔
      tree.entryAt? here = some .directory ∧
        (Path.isStep part = false ∧ tree.Leads here parts place ∨
          part = ['.', '.'] ∧ tree.Leads here.dropLast parts place ∨
          Path.isName part = true ∧ (tree.entryAt? (here ++ [part])).isSome = true ∧
            tree.Leads (here ++ [part]) parts place) := by
  simp only [Leads, follow_cons_eq_ok_iff, and_assoc, or_and_right]

/-- Parts that are no steps make no difference to the directory that a path leads to. -/
theorem leads_steps_iff {tree : FileTree} {start place : Location} {parts : List Text} :
    tree.Leads start (Path.steps parts) place ↔ tree.Leads start parts place := by
  induction parts generalizing start with
  | nil => exact Iff.rfl
  | cons part parts inductionHypothesis =>
      by_cases moves : Path.isStep part = true
      · rw [Path.steps, List.filter_cons_of_pos moves, ← Path.steps, leads_cons_iff, leads_cons_iff,
          inductionHypothesis, inductionHypothesis, inductionHypothesis]
      · have stays : Path.isStep part = false := by simpa using moves
        have notParent : part ≠ ['.', '.'] := by
          intro parent
          simp [parent, Path.isStep] at stays
        rw [Path.steps, List.filter_cons_of_neg moves, ← Path.steps, inductionHypothesis,
          leads_cons_iff]
        constructor
        · exact fun leads => ⟨leads.start, Or.inl ⟨stays, leads⟩⟩
        · rintro ⟨_, ⟨_, leads⟩ | ⟨parent, _⟩ | ⟨named, _⟩⟩
          · exact leads
          · exact absurd parent notParent
          · simp [Path.isName, stays] at named

theorem leads_congr {tree : FileTree} {start place : Location} {left right : List Text}
    (same : Path.steps left = Path.steps right) :
    tree.Leads start left place ↔ tree.Leads start right place := by
  rw [← leads_steps_iff, same, leads_steps_iff]

/-- The last part of a path to a file is the name of the file. -/
theorem exists_name_of_follow {tree : FileTree} (wellFormed : tree.WellFormed)
    {start place : Location} {parts : List Text} {content : Content} (nonempty : parts ≠ [])
    (found : tree.follow start parts = .ok place) (isFile : tree.entryAt? place = some (.file content)) :
    ∃ before around name, parts = before ++ [name] ∧ Path.isName name = true ∧
      place = around ++ [name] ∧ tree.Leads start before around := by
  have split := (List.dropLast_concat_getLast nonempty).symm
  rw [split, follow_append_eq_ok_iff] at found
  obtain ⟨here, first, last⟩ := found
  obtain ⟨directory, stays | parent | ⟨named, _, below⟩⟩ := follow_cons_eq_ok_iff.mp last
  · have same : here = place := Except.ok.inj stays.2
    simp [← same, directory] at isFile
  · have above : here.dropLast = place := Except.ok.inj parent.2
    have aboveDirectory := wellFormed.entryAt?_dropLast (by rw [directory]; rfl : _ = true)
    simp [← above, aboveDirectory] at isFile
  · exact ⟨parts.dropLast, here, parts.getLast nonempty, split, named, (Except.ok.inj below).symm,
      first, directory⟩

/-! ## Trees that keep what is there -/

/-- Directories stay directories, and nothing is taken away. -/
structure Keeps (tree later : FileTree) : Prop where
  working : later.working = tree.working
  directory : ∀ {location : Location}, tree.entryAt? location = some .directory →
    later.entryAt? location = some .directory
  present : ∀ {location : Location}, (tree.entryAt? location).isSome = true →
    (later.entryAt? location).isSome = true

namespace Keeps

theorem refl (tree : FileTree) : tree.Keeps tree := ⟨rfl, id, id⟩

theorem trans {tree later last : FileTree} (first : tree.Keeps later) (second : later.Keeps last) :
    tree.Keeps last where
  working := second.working.trans first.working
  directory := fun found => second.directory (first.directory found)
  present := fun found => second.present (first.present found)

theorem put {tree : FileTree} {location : Location} {entry : Entry} (notRoot : location ≠ [])
    (free : tree.entryAt? location ≠ some .directory) : tree.Keeps (tree.put location entry) where
  working := rfl
  directory := by
    intro other found
    have different : other ≠ location := fun same => free (same ▸ found)
    rw [entryAt?_put notRoot, if_neg different, found]
  present := by
    intro other found
    rw [entryAt?_put notRoot]
    by_cases same : other = location
    · rw [if_pos same]
      rfl
    · rw [if_neg same, found]

variable {tree later : FileTree} (keeps : tree.Keeps later)

include keeps

theorem follow {start place : Location} {parts : List Text}
    (found : tree.follow start parts = .ok place) : later.follow start parts = .ok place := by
  induction parts generalizing start with
  | nil => exact found
  | cons part parts inductionHypothesis =>
      obtain ⟨directory, step⟩ := follow_cons_eq_ok_iff.mp found
      refine follow_cons_eq_ok_iff.mpr ⟨keeps.directory directory, ?_⟩
      rcases step with ⟨stays, rest⟩ | ⟨parent, rest⟩ | ⟨named, present, rest⟩
      · exact Or.inl ⟨stays, inductionHypothesis rest⟩
      · exact Or.inr (Or.inl ⟨parent, inductionHypothesis rest⟩)
      · exact Or.inr (Or.inr ⟨named, keeps.present present, inductionHypothesis rest⟩)

theorem leads {start place : Location} {parts : List Text} (found : tree.Leads start parts place) :
    later.Leads start parts place :=
  ⟨keeps.follow found.1, keeps.directory found.2⟩

theorem start (path : Path) : later.start path = tree.start path := by
  rw [FileTree.start, FileTree.start, keeps.working]

theorem locate {path : Path} {place : Location} (found : tree.locate path = .ok place) :
    later.locate path = .ok place := by
  rw [FileTree.locate] at found ⊢
  by_cases empty : path.text = []
  · simp [empty] at found
  · rw [if_neg empty] at found ⊢
    rw [keeps.start]
    exact keeps.follow found

end Keeps

theorem follow_of_locate {tree : FileTree} {path : Path} {place : Location}
    (located : tree.locate path = .ok place) :
    tree.follow (tree.start path) path.parts = .ok place := by
  rw [locate] at located
  split at located
  · simp at located
  · exact located

/-! ## Reading -/

theorem find?_eq_some_iff {tree : FileTree} {path : Path} {entry : Entry} :
    tree.find? path = some entry ↔
      ∃ place, tree.locate path = .ok place ∧ tree.entryAt? place = some entry := by
  rw [find?]
  cases tree.locate path with
  | error obstacle => simp
  | ok place => simp

theorem isFile_iff {tree : FileTree} {path : Path} :
    tree.isFile path = true ↔
      ∃ place content, tree.locate path = .ok place ∧ tree.entryAt? place = some (.file content) := by
  rw [isFile]
  cases found : tree.find? path with
  | none =>
      refine iff_of_false (by simp) ?_
      rintro ⟨place, content, located, isFile⟩
      simp [find?_eq_some_iff.mpr ⟨place, located, isFile⟩] at found
  | some entry =>
      obtain ⟨place, located, isThere⟩ := find?_eq_some_iff.mp found
      cases entry with
      | directory => simp [located, isThere]
      | file content => simp [located, isThere]

theorem isDirectory_iff {tree : FileTree} {path : Path} :
    tree.isDirectory path = true ↔
      ∃ place, tree.locate path = .ok place ∧ tree.entryAt? place = some .directory := by
  rw [← find?_eq_some_iff, isDirectory]
  cases tree.find? path with
  | none => simp
  | some entry => cases entry <;> simp

/-- What is read depends on what is at the place that the path leads to. -/
theorem read_congr {tree later : FileTree} {path : Path} {place : Location}
    (located : tree.locate path = .ok place) (laterLocated : later.locate path = .ok place)
    (same : later.entryAt? place = tree.entryAt? place) : later.read path = tree.read path := by
  rw [read, read, located, laterLocated]
  simp only [same]

theorem read_of_entryAt? {tree : FileTree} {path : Path} {place : Location} {text : Text}
    (located : tree.locate path = .ok place)
    (found : tree.entryAt? place = some (.file (.text text))) : tree.read path = .ok text := by
  rw [read, located]
  simp only [found]

/-! ## Names behind a directory -/

section Joined

variable {tree : FileTree} {directory : Path} {place : Location} {name : Text}

theorem start_join (tree : FileTree) (directory : Path) (slashFree : '/' ∉ name) :
    tree.start (directory.join name) = tree.start directory := by
  rw [start, start, Path.isAbsolute_join directory slashFree]

theorem holder_append {start : Location} {before : List Text}
    (leads : tree.Leads start before place) :
    tree.holder start (before ++ [name]) = .ok (place, name) := by
  rw [holder, List.dropLast_concat, leads.1]
  simp [leads.2]

theorem holder_join (slashFree : '/' ∉ name)
    (leads : tree.Leads (tree.start directory) directory.parts place) :
    tree.holder (tree.start (directory.join name)) (directory.join name).parts =
      .ok (place, name) := by
  obtain ⟨before, split, same⟩ := Path.exists_parts_join directory slashFree
  rw [start_join tree directory slashFree, split]
  exact holder_append ((leads_congr same).mpr leads)

theorem locate_join (slashFree : '/' ∉ name) (named : Path.isName name = true)
    (leads : tree.Leads (tree.start directory) directory.parts place)
    (present : (tree.entryAt? (place ++ [name])).isSome = true) :
    tree.locate (directory.join name) = .ok (place ++ [name]) := by
  have nonempty : name ≠ [] := by
    intro empty
    simp [empty, Path.isName, Path.isStep] at named
  obtain ⟨before, split, same⟩ := Path.exists_parts_join directory slashFree
  rw [locate, if_neg (Path.text_join_ne_nil directory nonempty), start_join tree directory slashFree,
    split, follow_append_eq_ok_iff]
  have around := (leads_congr same).mpr leads
  exact ⟨place, around.1, follow_cons_eq_ok_iff.mpr
    ⟨around.2, Or.inr (Or.inr ⟨named, present, by simp [follow]⟩)⟩⟩

/-- A file is written under its name unless there is a directory of that name. -/
theorem write_join (slashFree : '/' ∉ name) (nonempty : name ≠ [])
    (leads : tree.Leads (tree.start directory) directory.parts place) (text : Text) :
    tree.write (directory.join name) text =
      if Path.isName name = false ∨ tree.entryAt? (place ++ [name]) = some .directory then
        .error .isDirectory
      else .ok (tree.put (place ++ [name]) (.file (.text text))) := by
  rw [write, if_neg (Path.text_join_ne_nil directory nonempty), holder_join slashFree leads]

end Joined

end FileTree

end Dialect
