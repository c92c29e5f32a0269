import Dialect.FileTree
import Dialect.Text.Decimal
import Dialect.Text.Quoted

/-!
# Outcomes

What a run of the program leaves behind: an exit code, what it wrote to the standard output and to the
standard error, and the file tree. The log goes to the standard error as well.
-/

namespace Dialect

inductive LogEntry where
  | compiled (file target : Path)
  | passed (file : Path)
  | failed (file : Path) (code : Text)
  | finished (count : Nat)
  deriving DecidableEq, Repr

namespace LogEntry

def text : LogEntry → Text
  | .compiled file target =>
      "INFO jolly: ".toList ++ Text.inMessage file.text ++ " -> ".toList ++
        Text.inMessage target.text
  | .passed file => "INFO jolly: ".toList ++ Text.inMessage file.text ++ " ok".toList
  | .failed file code =>
      "WARN jolly: compile failed file=".toList ++ Text.quoted file.text ++ " code=".toList ++
        Text.quoted code
  | .finished count =>
      "INFO jolly: ".toList ++ Text.decimal count ++ " file(s) compiled".toList

def line (entry : LogEntry) : Text := entry.text.takeWhile (· != '\n')

/-- The lines behind the first one. A path with a line feed in it breaks a line of the log. -/
def overflow (entry : LogEntry) : Text :=
  match entry.text.dropWhile (· != '\n') with
  | [] => []
  | _ :: lines => lines ++ ['\n']

end LogEntry

/-- What is written to the standard error: an entry of the log, or a text. -/
inductive Message where
  | logged (entry : LogEntry)
  | printed (text : Text)
  deriving DecidableEq, Repr

namespace Message

/-- The text of a message, with the line feed behind an entry of the log. -/
def text : Message → Text
  | .logged entry => entry.text ++ ['\n']
  | .printed text => text

def logLine? : Message → Option Text
  | .logged entry => some entry.line
  | .printed _ => none

/-- The text of a message without its line of the log. -/
def unlogged : Message → Text
  | .logged entry => entry.overflow
  | .printed text => text

end Message

/-- What ends a run before its work is done. -/
inductive Failure where
  | noSources
  | noMatch (input : Path)
  | badGlob (input : Path) (reason : Text)
  | outputNotDirectory (out : Path)
  | cannotCreate (out : Path) (obstacle : Obstacle)
  | cannotRead (file : Path) (obstacle : Obstacle)
  | cannotWrite (target : Path) (obstacle : Obstacle)
  | notSource (file : Path)
  | cannotStart (runtime : Text) (obstacle : Obstacle)
  deriving DecidableEq, Repr

namespace Failure

def message : Failure → Text
  | .noSources => "no .jolly files found".toList
  | .noMatch input => "no such file, directory, or matching files: ".toList ++ input.text
  | .badGlob input _ => "invalid glob pattern `".toList ++ input.text ++ ['`']
  | .outputNotDirectory out => out.text ++ " exists and is not a directory".toList
  | .cannotCreate out _ => "failed to create ".toList ++ out.text
  | .cannotRead file _ => "failed to read ".toList ++ file.text
  | .cannotWrite target _ => "failed to write ".toList ++ target.text
  | .notSource file => file.text ++ " is not a .jolly file".toList
  | .cannotStart runtime _ => "failed to start `".toList ++ runtime ++ ['`']

def cause? : Failure → Option Text
  | .badGlob _ reason => some reason
  | .cannotCreate _ obstacle => some obstacle.message
  | .cannotRead _ obstacle => some obstacle.message
  | .cannotWrite _ obstacle => some obstacle.message
  | .cannotStart _ obstacle => some obstacle.message
  | _ => none

def report (failure : Failure) : Text :=
  "Error: ".toList ++ failure.message ++
    (match failure.cause? with
      | none => []
      | some cause => "\n\nCaused by:\n    ".toList ++ cause) ++ ['\n']

end Failure

structure Outcome where
  exit : Nat
  stdout : Text
  messages : List Message
  tree : FileTree
  deriving DecidableEq, Repr

namespace Outcome

def log (outcome : Outcome) : List Text := outcome.messages.filterMap Message.logLine?

/-- What is written to the standard error beside the lines of the log. -/
def stderr (outcome : Outcome) : Text := outcome.messages.flatMap Message.unlogged

end Outcome

end Dialect
