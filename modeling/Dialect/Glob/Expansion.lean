import Dialect.FileTree
import Dialect.Glob.Basic

/-!
# Expanding glob patterns

The paths in a file tree that a glob pattern stands for. A part without wildcards is put behind the
path as it is; any other part is compared with the names in the directory. Names that start with a
dot are like any other. The special names `.` and `..` are compared only with parts that start with a
dot.
-/

namespace Dialect.Glob

/-- The path of an entry of a directory. In the current directory it is the name alone. -/
def pathInside (directory : Path) (name : Text) : Path :=
  if directory.components = [.current] then { text := name } else directory.join name

/-- The last name of a location and the path to it from a directory. -/
def pathBelow (directory : Path) (names : Location) : Path :=
  names.foldl pathInside directory

/-- The paths of the entries below a directory, each with its names from there. -/
def pathsBelow (tree : FileTree) (directory : Path) : List (Location × Path) :=
  if tree.isDirectory directory then
    match tree.locate directory with
    | .error _ => []
    | .ok location =>
        (tree.below location).map fun (names, _) => (names, pathBelow directory names)
  else []

/-- The special names that tokens which start with a dot stand for. -/
def specialNames (tokens : List Token) : List Text :=
  if tokens.head? = some (.char '.') then
    [['.'], ['.', '.']].filter fun name => matchesName tokens name
  else []

/-- The paths that the parts of a pattern stand for, from a directory. -/
def expandFrom (tree : FileTree) (onlyDirectories : Bool) : List (List Token) → Path → List Path
  | [], path => if onlyDirectories ∧ tree.isDirectory path = false then [] else [path]
  | [.anyDepth] :: [] , path =>
      ((pathsBelow tree path).map Prod.snd).filter tree.isDirectory
  | [.anyDepth] :: [.anyDepth] :: parts, path =>
      expandFrom tree onlyDirectories ([.anyDepth] :: parts) path
  | [.anyDepth] :: tokens :: parts, path =>
      (pathsBelow tree path).flatMap fun (names, child) =>
        if names.getLast?.any (matchesName tokens) then
          expandFrom tree onlyDirectories parts child
        else []
  | tokens :: parts, path =>
      match literal? tokens with
      | some name =>
          let next := pathInside path name
          let present :=
            if name = ['.'] ∨ name = ['.', '.'] then tree.isDirectory path
            else tree.contains next
          if present then expandFrom tree onlyDirectories parts next else []
      | none =>
          let children := (pathsBelow tree path).filter fun (names, _) =>
            names.length == 1 && names.getLast?.any (matchesName tokens)
          let special :=
            if tree.isDirectory path then (specialNames tokens).map path.join else []
          (children.map Prod.snd ++ special).flatMap fun child =>
            expandFrom tree onlyDirectories parts child

def readParts : List Text → Except Fault (List (List Token))
  | [] => .ok []
  | part :: parts =>
      match read part with
      | .error fault => .error fault
      | .ok tokens =>
          match readParts parts with
          | .error fault => .error fault
          | .ok others => .ok (tokens :: others)

def expand (tree : FileTree) (pattern : Path) : Except Fault (List Path) :=
  match read pattern.text with
  | .error fault => .error fault
  | .ok _ =>
      let endsWithSlash := pattern.text.getLast? == some '/'
      let parts := if endsWithSlash then pattern.parts.dropLast else pattern.parts
      match readParts parts with
      | .error fault => .error fault
      | .ok parts =>
          if pattern.isAbsolute then
            .ok (expandFrom tree endsWithSlash (parts.dropWhile List.isEmpty) .root)
          else .ok (expandFrom tree endsWithSlash parts .current)

/-- The paths that a pattern stands for, or the reason why it stands for none. -/
def expansion (tree : FileTree) (pattern : Path) : Except Text (List Path) :=
  match expand tree pattern with
  | .error fault => .error fault.message
  | .ok paths => .ok paths

end Dialect.Glob
