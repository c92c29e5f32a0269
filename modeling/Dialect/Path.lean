import Dialect.Text.Basic

/-!
# Paths

A path is kept as it was written, because it is shown that way. Two paths are the same when their
components are: doubled slashes, slashes at the end and single dots after the start make no
difference. Paths are ordered by their components.
-/

namespace Dialect

inductive Component where
  | root
  | current
  | parent
  | name (text : Text)
  deriving DecidableEq, Repr

namespace Component

/-- The component that a part of a path stands for, if it is not the first part. -/
def ofPart? (part : Text) : Option Component :=
  if part = [] ∨ part = ['.'] then none
  else if part = ['.', '.'] then some .parent
  else some (.name part)

/-- What components are ordered by: the root, the current directory, the parent directory, and then
the names by their characters. -/
def rank : Component → List Nat
  | .root => [0]
  | .current => [1]
  | .parent => [2]
  | .name text => 3 :: text.map Char.toNat

end Component

/-- A path as it was written. -/
structure Path where
  text : Text
  deriving DecidableEq, Repr

namespace Path

def current : Path where
  text := ['.']

def root : Path where
  text := ['/']

def parts (path : Path) : List Text := path.text.splitOn '/'

/-- Whether a part leads away from where one is. An empty part and a single dot do not. -/
def isStep (part : Text) : Bool := part != [] && part != ['.']

/-- Whether a part is the name of something in a directory. -/
def isName (part : Text) : Bool := isStep part && part != ['.', '.']

def steps (parts : List Text) : List Text := parts.filter isStep

/-- The parts of a path without empty ones at the end. -/
def partsToMake (path : Path) : List Text :=
  (path.parts.reverse.dropWhile fun part => part.isEmpty).reverse

/-- Some steps without the last one, without the last two, and so on down to the first. The steps are
given last one first. -/
def shortened : List Text → List (List Text)
  | [] => []
  | last :: around => (last :: around).reverse :: shortened around

/-- The directories to make for a path, each as its parts: that of the path, the one around it, and so
on. -/
def partsAround (path : Path) : List (List Text) :=
  path.partsToMake :: shortened (steps path.parts).dropLast.reverse

/-- The components of a path. A dot is one only at the start of a relative path. -/
def components (path : Path) : List Component :=
  match path.parts with
  | [] => []
  | first :: others =>
      let start :=
        if first = [] then (if others = [] then [] else [Component.root])
        else if first = ['.'] then [.current]
        else (Component.ofPart? first).toList
      start ++ others.filterMap Component.ofPart?

def isAbsolute (path : Path) : Bool := path.text.head? == some '/'

def join (directory : Path) (name : Text) : Path where
  text :=
    if directory.text = [] ∨ directory.text.getLast? = some '/' then directory.text ++ name
    else directory.text ++ '/' :: name

/-! ## File names -/

def fileName? (path : Path) : Option Text :=
  match path.components.getLast? with
  | some (.name name) => some name
  | _ => none

/-- Cuts a file name at its last dot into a stem and an extension. A dot at the start of the name
does not count. -/
def cutExtension (name : Text) : Text × Option Text :=
  let ending := (name.reverse.takeWhile (· != '.')).reverse
  match name.reverse.dropWhile (· != '.') with
  | [] => (name, none)
  | _ :: stem =>
      if stem = [] ∨ name = ['.', '.'] then (name, none) else (stem.reverse, some ending)

/-- The file name up to its last dot. A path without a file name is taken whole. -/
def stem (path : Path) : Text :=
  match path.fileName? with
  | none => path.text
  | some name => (cutExtension name).1

def extension? (path : Path) : Option Text :=
  path.fileName?.bind fun name => (cutExtension name).2

/-- A file name up to its last dot, with the dot. -/
def cutBehindDot (name : Text) : Text :=
  match cutExtension name with
  | (_, none) => name
  | (stem, some _) => stem ++ ['.']

/-- Replaces the extension of a file name, or adds one. The name is first cut behind its last dot;
if that leaves the name of a directory, it is left at that. -/
def replaceExtension (name extension : Text) : Text :=
  let kept := cutBehindDot name
  if kept = [] ∨ kept = ['.'] ∨ kept = ['.', '.'] then kept
  else (cutExtension kept).1 ++ '.' :: extension

/-! ## Order -/

def rank (path : Path) : List (List Nat) := path.components.map Component.rank

def le (left right : Path) : Bool := (compare left.rank right.rank).isLE

/-- Leaves out each path that is the same as the one kept before it. -/
def distinctAfter (previous : Option Path) : List Path → List Path
  | [] => []
  | path :: paths =>
      if previous.any fun kept => kept.components == path.components then
        distinctAfter previous paths
      else path :: distinctAfter (some path) paths

/-- Sorts paths and keeps one spelling of each, the first one given. -/
def sortDistinct (paths : List Path) : List Path := distinctAfter none (paths.mergeSort le)

end Path

end Dialect
