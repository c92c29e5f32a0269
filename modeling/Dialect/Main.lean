import Dialect.Command.Execution
import Dialect.Glob.Expansion

/-!
# The command line

Reads the file tree below the working directory, carries out what the arguments ask for, and brings
the changes back to the file system. Of what lies outside the working directory, only the directories
around it are read. The programs that can be started are few and built in. Everything else is decided
by `Invocation.executeArguments`.
-/

namespace Dialect

/-- The entries of a directory listing and of the directories in it. -/
partial def entriesBelow (location : Location) (listing : Array IO.FS.DirEntry) :
    IO (List (Location × Entry)) := do
  let mut entries := []
  for item in listing do
    let place := location ++ [item.fileName.toList]
    if ← item.path.isDir then
      entries := entries ++ (place, .directory) :: (← entriesBelow place (← item.path.readDir))
    else
      let content := Content.ofBytes (← IO.FS.readBinFile item.path)
      entries := entries ++ [(place, .file content)]
  return entries

/-- The file tree below the working directory, with the directories around it. -/
def readTree : IO FileTree := do
  let directory ← IO.currentDir
  let working := Path.steps (Path.parts { text := directory.toString.toList })
  let around := (List.range working.length).map fun count =>
    (working.take (count + 1), Entry.directory)
  return { working, entries := around ++ (← entriesBelow working (← directory.readDir)) }

def partsString (parts : List Text) : String :=
  String.ofList (Text.joinWith ['/'] parts)

def writeChanges (earlier later : FileTree) : IO Unit := do
  for parts in later.directoriesSince earlier do
    IO.FS.createDirAll (partsString parts)
  for (parts, content) in later.filesSince earlier do
    match content with
    | .text text => IO.FS.writeFile (partsString parts) (String.ofList text)
    | .binary _ => pure ()

namespace Program

def printing : Program := fun script => { stdout := script, exit := some 0 }

def ending (exit : Nat) : Program := fun _ => { stdout := [], exit := some exit }

/-- Runs a script of one command that ends the shell, with a status or by a signal. Any other
command is not found. -/
def shell : Program := fun script =>
  let command := Text.trim script
  if command = [] ∨ command = "exit".toList then { stdout := [], exit := some 0 }
  else if command = "kill -9 $$".toList then { stdout := [], exit := none }
  else if "exit ".toList.isPrefixOf command then
    match Text.readDecimal? (Text.trim (command.drop "exit ".length)) with
    | some status => { stdout := [], exit := some (status % 256) }
    | none => { stdout := [], exit := some 2 }
  else { stdout := [], exit := some 127 }

def named? (name : Text) : Option Program :=
  if name = "cat".toList then some printing
  else if name = "true".toList then some (ending 0)
  else if name = "false".toList then some (ending 1)
  else if name = "sh".toList then some shell
  else none

end Program

end Dialect

open Dialect in
def main (arguments : List String) : IO UInt32 := do
  let tree ← readTree
  let terminal ← (← IO.getStderr).isTty
  let coloured := (← IO.getEnv "NO_COLOR").isNone && terminal
  let surroundings : Surroundings :=
    { programs := Program.named?, expand := Glob.expansion, coloured }
  let outcome := Invocation.executeArguments surroundings tree (arguments.map String.toList)
  writeChanges tree outcome.tree
  for message in outcome.messages do
    IO.eprint (String.ofList message.text)
  IO.print (String.ofList outcome.stdout)
  return outcome.exit.toUInt32
