import Dialect.Path

/-!
# File trees

The files and directories of a file system without links. A path is followed part by part, from the
root or from the working directory; every part but the last has to lead to a directory.
-/

namespace Dialect

/-- The names from the root down to a file or directory. -/
abbrev Location := List Text

/-- What a file holds: a text, or bytes that are not the UTF-8 form of any text. -/
inductive Content where
  | text (text : Text)
  | binary (bytes : List UInt8)
  deriving DecidableEq, Repr

namespace Content

def ofBytes (bytes : ByteArray) : Content :=
  match String.fromUTF8? bytes with
  | some string => .text string.toList
  | none => .binary bytes.toList

end Content

inductive Entry where
  | directory
  | file (content : Content)
  deriving DecidableEq, Repr

/-- What keeps an operation on files from being carried out. -/
inductive Obstacle where
  | notFound
  | alreadyExists
  | notDirectory
  | isDirectory
  | notText
  deriving DecidableEq, Repr

namespace Obstacle

def message : Obstacle → Text
  | .notFound => "No such file or directory (os error 2)".toList
  | .alreadyExists => "File exists (os error 17)".toList
  | .notDirectory => "Not a directory (os error 20)".toList
  | .isDirectory => "Is a directory (os error 21)".toList
  | .notText => "stream did not contain valid UTF-8".toList

end Obstacle

/-- The files and directories of a file system, and where the working directory is. -/
structure FileTree where
  working : Location
  entries : List (Location × Entry)
  deriving DecidableEq, Repr

namespace FileTree

/-- A file system with nothing but an empty working directory. -/
def empty : FileTree where
  working := ["work".toList]
  entries := [(["work".toList], .directory)]

/-- What is at a location. The root is always there. -/
def entryAt? (tree : FileTree) (location : Location) : Option Entry :=
  if location = [] then some .directory else tree.entries.lookup location

/-- Puts an entry at a location, in place of what was there. -/
def put (tree : FileTree) (location : Location) (entry : Entry) : FileTree where
  working := tree.working
  entries := tree.entries.filter (fun old => old.1 != location) ++ [(location, entry)]

/-- What lies below a location, with the names from there. -/
def below (tree : FileTree) (location : Location) : List (Location × Entry) :=
  tree.entries.filterMap fun (place, entry) =>
    if location.isPrefixOf place ∧ location.length < place.length then
      some (place.drop location.length, entry)
    else none

/-! ## Following paths -/

/-- Follows the parts of a path from a location. From the root, the way up leads to the root. -/
def follow (tree : FileTree) : Location → List Text → Except Obstacle Location
  | here, [] => .ok here
  | here, part :: parts =>
      match tree.entryAt? here with
      | none => .error .notFound
      | some (.file _) => .error .notDirectory
      | some .directory =>
          if Path.isStep part = false then follow tree here parts
          else if part = ['.', '.'] then follow tree here.dropLast parts
          else
            match tree.entryAt? (here ++ [part]) with
            | none => .error .notFound
            | some _ => follow tree (here ++ [part]) parts

def start (tree : FileTree) (path : Path) : Location :=
  if path.isAbsolute then [] else tree.working

def locate (tree : FileTree) (path : Path) : Except Obstacle Location :=
  if path.text = [] then .error .notFound else tree.follow (tree.start path) path.parts

def find? (tree : FileTree) (path : Path) : Option Entry :=
  match tree.locate path with
  | .error _ => none
  | .ok location => tree.entryAt? location

def isDirectory (tree : FileTree) (path : Path) : Bool :=
  match tree.find? path with
  | some .directory => true
  | _ => false

def isFile (tree : FileTree) (path : Path) : Bool :=
  match tree.find? path with
  | some (.file _) => true
  | _ => false

def contains (tree : FileTree) (path : Path) : Bool := (tree.find? path).isSome

/-! ## Reading and writing -/

def read (tree : FileTree) (path : Path) : Except Obstacle Text :=
  match tree.locate path with
  | .error obstacle => .error obstacle
  | .ok location =>
      match tree.entryAt? location with
      | none => .error .notFound
      | some .directory => .error .isDirectory
      | some (.file (.binary _)) => .error .notText
      | some (.file (.text text)) => .ok text

/-- The directory that the parts of a path before the last one lead to, and the last part. -/
def holder (tree : FileTree) (start : Location) (parts : List Text) :
    Except Obstacle (Location × Text) :=
  match tree.follow start parts.dropLast with
  | .error obstacle => .error obstacle
  | .ok location =>
      match tree.entryAt? location with
      | some .directory => .ok (location, parts.getLast?.getD [])
      | _ => .error .notDirectory

/-- Writes a text file, in place of an older one. -/
def write (tree : FileTree) (path : Path) (text : Text) : Except Obstacle FileTree :=
  if path.text = [] then .error .notFound
  else
    match tree.holder (tree.start path) path.parts with
    | .error obstacle => .error obstacle
    | .ok (location, name) =>
        if Path.isName name = false ∨ tree.entryAt? (location ++ [name]) = some .directory then
          .error .isDirectory
        else .ok (tree.put (location ++ [name]) (.file (.text text)))

/-! ## Making directories -/

/-- Makes one directory in a directory that is there. -/
def makeDirectory (tree : FileTree) (start : Location) (parts : List Text) :
    Except Obstacle FileTree :=
  match tree.holder start parts with
  | .error obstacle => .error obstacle
  | .ok (location, name) =>
      if Path.isName name = false ∨ (tree.entryAt? (location ++ [name])).isSome then
        .error .alreadyExists
      else .ok (tree.put (location ++ [name]) .directory)

def leadToDirectory (tree : FileTree) (start : Location) (parts : List Text) : Bool :=
  match tree.follow start parts with
  | .error _ => false
  | .ok location => tree.entryAt? location == some .directory

/-- Makes a directory once those around it are there. It may be there already. -/
def makeInside (tree : FileTree) (start : Location) (parts : List Text) :
    FileTree × Option Obstacle :=
  match tree.makeDirectory start parts with
  | .ok made => (made, none)
  | .error obstacle =>
      (tree, if tree.leadToDirectory start parts then none else some obstacle)

/-- Makes a directory. If a directory around it is not there, those around it are made first. Returns
the tree as it then is, and what kept the directory from being made. -/
def makeAround (tree : FileTree) (start : Location) : List (List Text) → FileTree × Option Obstacle
  | [] => (tree, none)
  | parts :: around =>
      match tree.makeDirectory start parts with
      | .error .notFound =>
          match makeAround tree start around with
          | (made, none) => made.makeInside start parts
          | stuck => stuck
      | _ => tree.makeInside start parts

def makeDirectories (tree : FileTree) (path : Path) : FileTree × Option Obstacle :=
  tree.makeAround (tree.start path) path.partsAround

/-! ## Building and comparing -/

/-- Puts a directory, and those around it, at names from the working directory. -/
def withDirectory (tree : FileTree) (names : List Text) : FileTree :=
  (List.range names.length).foldl
    (fun tree count =>
      let place := tree.working ++ names.take (count + 1)
      if (tree.entryAt? place).isSome then tree else tree.put place .directory)
    tree

/-- Puts a file, and the directories around it, at names from the working directory. -/
def withFile (tree : FileTree) (names : List Text) (content : Content) : FileTree :=
  (tree.withDirectory names.dropLast).put (tree.working ++ names) (.file content)

/-- The parts that lead from a location to another one: up to where they part, and down from there. -/
def route : Location → Location → List Text
  | here :: start, name :: goal =>
      if here = name then route start goal
      else (here :: start).map (fun _ => ['.', '.']) ++ name :: goal
  | start, goal => start.map (fun _ => ['.', '.']) ++ goal

/-- The files of a tree that another tree does not hold in the same form, each with the way from the
working directory. -/
def filesSince (tree earlier : FileTree) : List (List Text × Content) :=
  tree.entries.filterMap fun (location, entry) =>
    match entry with
    | .directory => none
    | .file content =>
        if earlier.entryAt? location = some entry then none
        else some (route tree.working location, content)

/-- The ways from the working directory to the directories of a tree that another tree does not hold,
in the order of their paths as texts. -/
def directoriesSince (tree earlier : FileTree) : List (List Text) :=
  let made := tree.entries.filterMap fun (location, entry) =>
    if entry = .directory ∧ earlier.entryAt? location ≠ some .directory then
      some (route tree.working location)
    else none
  made.mergeSort fun left right =>
    (compare (Text.joinWith ['/'] left) (Text.joinWith ['/'] right)).isLE

end FileTree

end Dialect
