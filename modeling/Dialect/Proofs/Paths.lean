import Dialect.Path
import Dialect.Proofs.Lines

/-!
# Parts and names of paths

A name that is put behind a directory is the last part of the path it gives, and the parts before it
lead where the directory leads. The last part of a path is its file name, which its last dot cuts into
a stem and an extension.

Main statement: putting an extension in place of the one a name has adds it to the name exactly if the
name has no dot behind its first character and is not a single dot (`replaceExtension_eq_append_iff`).
-/

namespace Dialect

namespace Path

/-! ## Parts -/

theorem isName_iff {part : Text} :
    isName part = true ↔ isStep part = true ∧ part ≠ ['.', '.'] := by
  simp [isName]

theorem isStep_eq_false_iff {part : Text} : isStep part = false ↔ part = [] ∨ part = ['.'] := by
  by_cases empty : part = []
  · simp [isStep, empty]
  · simp [isStep, empty]

@[simp]
theorem steps_append (left right : List Text) : steps (left ++ right) = steps left ++ steps right :=
  List.filter_append left right

@[simp]
theorem steps_empty_part : steps [[]] = [] := rfl

theorem slashFree_of_mem_parts {path : Path} {part : Text} (member : part ∈ path.parts) :
    '/' ∉ part :=
  fun inPart => (Text.mem_of_mem_splitOn inPart member).2 rfl

theorem parts_ne_nil (path : Path) : path.parts ≠ [] := Text.splitOn_ne_nil '/' path.text

/-- A name behind a directory is the last part, and the parts before it make the steps of the
directory. -/
theorem exists_parts_join (directory : Path) {name : Text} (slashFree : '/' ∉ name) :
    ∃ before, (directory.join name).parts = before ++ [name] ∧
      steps before = steps directory.parts := by
  have alone : Text.splitOn '/' name = [name] := Text.splitOn_of_not_mem slashFree
  by_cases empty : directory.text = []
  · exact ⟨[], by simp [parts, join, empty, alone], by simp [parts, empty, Text.splitOn, steps, isStep]⟩
  · by_cases slash : directory.text.getLast? = some '/'
    · obtain ⟨before, split⟩ := List.getLast?_eq_some_iff.mp slash
      have directoryParts : directory.parts = Text.splitOn '/' before ++ [[]] := by
        rw [parts, split, Text.splitOn_append_separator]
        rfl
      refine ⟨Text.splitOn '/' before, ?_, by simp [directoryParts]⟩
      rw [parts, join, if_pos (Or.inr slash), split, List.append_assoc, List.singleton_append,
        Text.splitOn_append_separator, alone]
    · refine ⟨directory.parts, ?_, rfl⟩
      rw [parts, join, if_neg (by simp [empty, slash]), Text.splitOn_append_separator, alone]
      rfl

theorem isAbsolute_join (directory : Path) {name : Text} (slashFree : '/' ∉ name) :
    (directory.join name).isAbsolute = directory.isAbsolute := by
  cases characters : directory.text with
  | nil =>
      have notFirst : name.head? ≠ some '/' := fun first => slashFree (List.mem_of_mem_head? first)
      simp [isAbsolute, join, characters, notFirst]
  | cons first rest =>
      rw [isAbsolute, isAbsolute, join, characters]
      split <;> rfl

theorem text_join_ne_nil (directory : Path) {name : Text} (nonempty : name ≠ []) :
    (directory.join name).text ≠ [] := by
  rw [join]
  split <;> simp [nonempty]

theorem join_inj {directory : Path} {left right : Text} :
    directory.join left = directory.join right ↔ left = right := by
  rw [join, join]
  split <;> simp

/-! ## File names -/

theorem ofPart?_of_isName {name : Text} (named : isName name = true) :
    Component.ofPart? name = some (.name name) := by
  have step := (isName_iff.mp named).1
  rw [Component.ofPart?, if_neg, if_neg (isName_iff.mp named).2]
  rw [← isStep_eq_false_iff, step]
  exact Bool.noConfusion

theorem fileName?_of_parts {path : Path} {before : List Text} {name : Text}
    (split : path.parts = before ++ [name]) (named : isName name = true) :
    path.fileName? = some name := by
  have component := ofPart?_of_isName named
  rw [fileName?, components, split]
  cases before with
  | nil =>
      have nonempty : name ≠ [] := by
        intro empty
        simp [empty, isName, isStep] at named
      have notDot : name ≠ ['.'] := by
        intro dot
        simp [dot, isName, isStep] at named
      simp [nonempty, notDot, component]
  | cons first others => simp [List.filterMap_append, component]

theorem slashFree_of_fileName? {path : Path} {name : Text} (named : path.fileName? = some name) :
    '/' ∉ name := by
  have ofPart : ∀ {part : Text}, Component.ofPart? part = some (.name name) → part = name := by
    intro part
    rw [Component.ofPart?]
    split
    next => simp
    next => split <;> simp
  have inComponents : Component.name name ∈ path.components := by
    rw [fileName?] at named
    split at named
    next last found => exact Option.some.inj named ▸ List.mem_of_getLast? found
    next => simp at named
  rw [components] at inComponents
  cases split : path.parts with
  | nil => exact absurd split path.parts_ne_nil
  | cons first others =>
      have inParts : name ∈ path.parts := by
        rw [split] at inComponents ⊢
        rcases List.mem_append.mp inComponents with atStart | later
        · split at atStart
          next => split at atStart <;> simp at atStart
          next =>
            split at atStart
            next => simp at atStart
            next => simp [ofPart (Option.mem_toList.mp atStart)]
        · obtain ⟨part, member, found⟩ := List.mem_filterMap.mp later
          exact List.mem_cons_of_mem first (ofPart found ▸ member)
      exact slashFree_of_mem_parts inParts

/-! ## Extensions -/

theorem cutExtension_of_no_dot {name : Text} (dotFree : '.' ∉ name.tail) :
    cutExtension name = (name, none) := by
  cases name with
  | nil => rfl
  | cons first rest =>
      have passes : ∀ c ∈ rest.reverse, (c != '.') = true := by
        intro c member
        simp only [List.mem_reverse] at member
        simpa using fun equality : c = '.' => dotFree (equality ▸ member)
      have tail : (first :: rest).reverse.dropWhile (· != '.') = [first].dropWhile (· != '.') := by
        rw [List.reverse_cons, List.dropWhile_append_of_pos passes]
      rw [cutExtension, tail]
      by_cases dot : first = '.'
      · simp [dot]
      · simp [dot]

theorem cutExtension_append {stem extension : Text} (nonempty : stem ≠ [])
    (dotFree : '.' ∉ extension) (notParent : stem ++ '.' :: extension ≠ ['.', '.']) :
    cutExtension (stem ++ '.' :: extension) = (stem, some extension) := by
  have passes : ∀ c ∈ extension.reverse, (c != '.') = true := by
    intro c member
    simp only [List.mem_reverse] at member
    simpa using fun equality : c = '.' => dotFree (equality ▸ member)
  have reversed : (stem ++ '.' :: extension).reverse = extension.reverse ++ '.' :: stem.reverse := by
    simp
  rw [cutExtension, reversed, List.dropWhile_append_of_pos passes,
    List.takeWhile_append_of_pos passes]
  simp [nonempty, notParent]

/-- A name with a dot behind its first character is cut at the last dot. -/
theorem exists_last_dot {name : Text} (dotted : '.' ∈ name.tail) :
    ∃ stem extension, stem ≠ [] ∧ '.' ∉ extension ∧ name = stem ++ '.' :: extension := by
  cases name with
  | nil => simp at dotted
  | cons first rest =>
      obtain ⟨after, before, split, free⟩ :=
        List.eq_append_cons_of_mem (List.mem_reverse.mpr dotted)
      refine ⟨first :: before.reverse, after.reverse, List.cons_ne_nil _ _, by simpa using free, ?_⟩
      have unreversed : rest = (after ++ '.' :: before).reverse := by
        rw [← split, List.reverse_reverse, List.tail_cons]
      simp [unreversed]

theorem cutExtension_cases (name : Text) :
    cutExtension name = (name, none) ∨
      ∃ stem extension, stem ≠ [] ∧ '.' ∉ extension ∧ name = stem ++ '.' :: extension ∧
        cutExtension name = (stem, some extension) := by
  by_cases dotted : '.' ∈ name.tail
  · obtain ⟨stem, extension, nonempty, dotFree, rfl⟩ := exists_last_dot dotted
    by_cases parent : stem ++ '.' :: extension = ['.', '.']
    · exact Or.inl (by rw [parent]; rfl)
    · exact Or.inr ⟨stem, extension, nonempty, dotFree, rfl,
        cutExtension_append nonempty dotFree parent⟩
  · exact Or.inl (cutExtension_of_no_dot dotted)

theorem fst_cutExtension_ne_nil {name : Text} (nonempty : name ≠ []) :
    (cutExtension name).1 ≠ [] := by
  rcases cutExtension_cases name with whole | ⟨stem, extension, stemNonempty, _, _, cut⟩
  · rwa [whole]
  · rwa [cut]

theorem mem_of_mem_fst_cutExtension {name : Text} {c : Char} (member : c ∈ (cutExtension name).1) :
    c ∈ name := by
  rcases cutExtension_cases name with whole | ⟨stem, extension, _, _, split, cut⟩
  · rwa [whole] at member
  · rw [cut] at member
    exact split ▸ List.mem_append_left _ member

theorem cutBehindDot_of_no_dot {name : Text} (dotFree : '.' ∉ name.tail) :
    cutBehindDot name = name := by
  rw [cutBehindDot, cutExtension_of_no_dot dotFree]

theorem cutBehindDot_append {stem extension : Text} (nonempty : stem ≠ [])
    (dotFree : '.' ∉ extension) (notParent : stem ++ '.' :: extension ≠ ['.', '.']) :
    cutBehindDot (stem ++ '.' :: extension) = stem ++ ['.'] := by
  rw [cutBehindDot, cutExtension_append nonempty dotFree notParent]

theorem mem_of_mem_cutBehindDot {name : Text} {c : Char} (member : c ∈ cutBehindDot name) :
    c ∈ name ∨ c = '.' := by
  rw [cutBehindDot] at member
  rcases cutExtension_cases name with whole | ⟨stem, ending, _, _, split, cut⟩
  · rw [whole] at member
    exact Or.inl member
  · rw [cut] at member
    rcases List.mem_append.mp member with inStem | dot
    · exact Or.inl (split ▸ List.mem_append_left _ inStem)
    · exact Or.inr (List.mem_singleton.mp dot)

/-- A name with a dot behind its first character loses what stands behind the dot. -/
theorem replaceExtension_ne_append {name extension : Text} (dotted : '.' ∈ name.tail) :
    replaceExtension name extension ≠ name ++ '.' :: extension := by
  obtain ⟨stem, ending, nonempty, dotFree, rfl⟩ := exists_last_dot dotted
  intro replaced
  by_cases parent : stem ++ '.' :: ending = ['.', '.']
  · simp [parent, replaceExtension, cutBehindDot, cutExtension] at replaced
  · simp only [replaceExtension, cutBehindDot_append nonempty dotFree parent] at replaced
    by_cases special : stem ++ ['.'] = [] ∨ stem ++ ['.'] = ['.'] ∨ stem ++ ['.'] = ['.', '.']
    · rw [if_pos special] at replaced
      have lengths := congrArg List.length replaced
      simp at lengths
    · rw [if_neg special, cutExtension_append nonempty (by simp) fun parent =>
        special (Or.inr (Or.inr parent))] at replaced
      have lengths := congrArg List.length (List.append_cancel_right replaced)
      simp at lengths

/-- Replacing the extension of a name adds it exactly if the name has none. -/
theorem replaceExtension_eq_append_iff {name extension : Text} (nonempty : name ≠ []) :
    replaceExtension name extension = name ++ '.' :: extension ↔
      '.' ∉ name.tail ∧ name ≠ ['.'] := by
  constructor
  · intro replaced
    refine ⟨fun dotted => replaceExtension_ne_append dotted replaced, fun dot => ?_⟩
    simp [dot, replaceExtension, cutBehindDot, cutExtension] at replaced
  · intro plain
    have notParent : name ≠ ['.', '.'] := by
      intro parent
      simp [parent] at plain
    simp [replaceExtension, cutBehindDot_of_no_dot plain.1, cutExtension_of_no_dot plain.1, nonempty,
      plain.2, notParent]

/-- A name whose extension has been replaced has the new one, unless it is the name of a directory. -/
theorem cutExtension_replaceExtension {name extension : Text}
    (named : isName (replaceExtension name extension) = true) (nonempty : extension ≠ [])
    (dotFree : '.' ∉ extension) :
    (cutExtension (replaceExtension name extension)).2 = some extension := by
  simp only [replaceExtension] at named ⊢
  by_cases special : cutBehindDot name = [] ∨ cutBehindDot name = ['.'] ∨
      cutBehindDot name = ['.', '.']
  · rw [if_pos special] at named
    rcases special with empty | dot | parent
    · simp [empty, isName, isStep] at named
    · simp [dot, isName, isStep] at named
    · simp [parent, isName, isStep] at named
  · rw [if_neg special]
    have kept := fst_cutExtension_ne_nil fun empty => special (Or.inl empty)
    rw [cutExtension_append kept dotFree]
    intro parent
    have lengths := congrArg List.length parent
    have keptLength := List.length_pos_iff.mpr kept
    have extensionLength := List.length_pos_iff.mpr nonempty
    simp only [List.length_append, List.length_cons, List.length_nil] at lengths
    omega

theorem slashFree_replaceExtension {name extension : Text} (nameFree : '/' ∉ name)
    (extensionFree : '/' ∉ extension) : '/' ∉ replaceExtension name extension := by
  have keptFree : '/' ∉ cutBehindDot name := by
    intro inKept
    rcases mem_of_mem_cutBehindDot inKept with inName | dot
    · exact nameFree inName
    · simp at dot
  simp only [replaceExtension]
  split
  next => exact keptFree
  next =>
    intro inResult
    rcases List.mem_append.mp inResult with inStem | later
    · exact keptFree (mem_of_mem_fst_cutExtension inStem)
    · simp [extensionFree] at later

end Path

end Dialect
