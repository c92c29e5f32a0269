import Dialect.Command.Outcome

/-!
# Finding sources

An input that is a directory stands for the sources below it, and one that is a file for itself. Any
other input is a glob pattern that has to stand for a file at least; what such patterns stand for is
given. The sources of all inputs are sorted, and each is taken once.
-/

namespace Dialect

def sourceExtension : Text := "jolly".toList

/-- What patterns stand for in a file tree. A pattern that cannot be read has a reason. -/
abbrev Expansion := FileTree → Path → Except Text (List Path)

namespace FileTree

def sourcesBelow (tree : FileTree) (directory : Path) : List Path :=
  match tree.locate directory with
  | .error _ => []
  | .ok location =>
      (tree.below location).filterMap fun (names, entry) =>
        let path := names.foldl Path.join directory
        match entry with
        | .directory => none
        | .file _ => if path.extension? = some sourceExtension then some path else none

def sourcesOf (tree : FileTree) (expand : Expansion) (input : Path) : Except Failure (List Path) :=
  if tree.isDirectory input then .ok (tree.sourcesBelow input)
  else if tree.isFile input then .ok [input]
  else
    match expand tree input with
    | .error reason => .error (.badGlob input reason)
    | .ok paths =>
        let files := paths.filter tree.isFile
        if files = [] then .error (.noMatch input) else .ok files

/-- The sources that inputs stand for, one input after the other. -/
def sourcesOfAll (tree : FileTree) (expand : Expansion) : List Path → Except Failure (List Path)
  | [] => .ok []
  | input :: inputs =>
      match tree.sourcesOf expand input with
      | .error failure => .error failure
      | .ok first =>
          match sourcesOfAll tree expand inputs with
          | .error failure => .error failure
          | .ok others => .ok (first ++ others)

/-- The sources to work on. There has to be one at least. -/
def discover (tree : FileTree) (expand : Expansion) (inputs : List Path) : Except Failure (List Path) :=
  match tree.sourcesOfAll expand inputs with
  | .error failure => .error failure
  | .ok paths => if paths = [] then .error .noSources else .ok (Path.sortDistinct paths)

end FileTree

end Dialect
