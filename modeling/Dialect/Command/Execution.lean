import Dialect.Command.Arguments
import Dialect.Command.Discovery
import Dialect.Command.Program
import Dialect.Compile

/-!
# Carrying out an invocation

Sources are worked on one by one in sorted order. A source with a fault is reported and counted, and
the work goes on. A failure to read or write ends the run where it stands.
-/

namespace Dialect

/-- What a run finds around it: the programs that can be started, what patterns stand for, and whether
reports can be in colour. -/
structure Surroundings where
  programs : Text → Option Program
  expand : Expansion
  coloured : Bool

/-- The file tree and what has been written so far, with the number of faulty sources. -/
structure Session where
  tree : FileTree
  stdout : Text
  messages : List Message
  faulty : Nat
  deriving DecidableEq, Repr

namespace Session

def start (tree : FileTree) : Session where
  tree := tree
  stdout := []
  messages := []
  faulty := 0

def record (session : Session) (entry : LogEntry) : Session :=
  { session with messages := session.messages ++ [.logged entry] }

def print (session : Session) (text : Text) : Session :=
  { session with messages := session.messages ++ [.printed text] }

def exit (session : Session) (code : Nat) : Outcome where
  exit := code
  stdout := session.stdout
  messages := session.messages
  tree := session.tree

def fail (session : Session) (failure : Failure) : Outcome :=
  (session.print failure.report).exit 1

def finish (session : Session) (coloured : Bool) (count : Nat) : Outcome :=
  if 0 < session.faulty then
    let heading := Diagnostic.Style.boldRed.paint coloured "error".toList
    (session.print (heading ++ ": ".toList ++ Text.decimal session.faulty ++ " of ".toList ++
      Text.decimal count ++ " file(s) failed to compile\n".toList)).exit 1
  else (session.record (.finished count)).exit 0

/-- Ends a run in which work on a number of sources has come to its end. -/
def conclude (coloured : Bool) (count : Nat) : Except (Session × Failure) Session → Outcome
  | .error (stuck, failure) => stuck.fail failure
  | .ok done => done.finish coloured count

def report (session : Session) (coloured : Bool) (file : Path) (diagnostic : Diagnostic) : Session :=
  let logged := session.record (.failed file diagnostic.cause.code)
  { logged.print (diagnostic.render coloured ++ ['\n']) with faulty := session.faulty + 1 }

/-- Works on sources one by one until there is a failure. -/
def forEach (work : Session → Path → Except (Session × Failure) Session) (session : Session) :
    List Path → Except (Session × Failure) Session
  | [] => .ok session
  | file :: files =>
      match work session file with
      | .error stuck => .error stuck
      | .ok next => forEach work next files

end Session

namespace Invocation

def versionLine : Text := "jolly 1.0.0\n".toList

def compileFile (tree : FileTree) (file : Path) : Except Failure (Except Diagnostic Text) :=
  match tree.read file with
  | .error obstacle => .error (.cannotRead file obstacle)
  | .ok source => .ok (Table.builtin.compile source file.text)

/-- The name of the file that the compiled form of a source goes to. -/
def targetName (file : Path) : Text := Path.replaceExtension file.stem "js".toList

/-- A file in the output directory, or else in the working directory. -/
def inOutput (out : Option Path) (name : Text) : Path :=
  match out with
  | none => { text := name }
  | some directory => directory.join name

def target (out : Option Path) (file : Path) : Path := inOutput out (targetName file)

def writeTarget (out : Option Path) (session : Session) (file : Path) (compiled : Text) :
    Except (Session × Failure) Session :=
  match session.tree.write (target out file) compiled with
  | .error obstacle => .error (session, .cannotWrite (target out file) obstacle)
  | .ok tree => .ok ({ session with tree }.record (.compiled file (target out file)))

def printCompiled (session : Session) (_ : Path) (compiled : Text) :
    Except (Session × Failure) Session :=
  .ok { session with stdout := session.stdout ++ compiled ++ ['\n'] }

def notePassed (session : Session) (file : Path) (_ : Text) :
    Except (Session × Failure) Session :=
  .ok (session.record (.passed file))

def delivery (out : Option Path) (toStdout : Bool) :
    Session → Path → Text → Except (Session × Failure) Session :=
  if toStdout then printCompiled else writeTarget out

/-- Compiles a source that is read from a file tree. A fault is reported, and a compiled text is
delivered. -/
def attempt (coloured : Bool) (deliver : Session → Path → Text → Except (Session × Failure) Session)
    (sources : FileTree) (session : Session) (file : Path) : Except (Session × Failure) Session :=
  match compileFile sources file with
  | .error failure => .error (session, failure)
  | .ok (.error diagnostic) => .ok (session.report coloured file diagnostic)
  | .ok (.ok compiled) => deliver session file compiled

/-- Compiles a source as it is by now. -/
def attemptNow (coloured : Bool)
    (deliver : Session → Path → Text → Except (Session × Failure) Session) (session : Session)
    (file : Path) : Except (Session × Failure) Session :=
  attempt coloured deliver session.tree session file

def prepareOutput (session : Session) : Option Path → Except (Session × Failure) Session
  | none => .ok session
  | some out =>
      if session.tree.contains out ∧ session.tree.isDirectory out = false then
        .error (session, .outputNotDirectory out)
      else
        match session.tree.makeDirectories out with
        | (tree, none) => .ok { session with tree }
        | (tree, some obstacle) => .error ({ session with tree }, .cannotCreate out obstacle)

/-- Works on sources once the output directory is there. -/
def workOnFiles (coloured : Bool) (session : Session) (files : List Path) (out : Option Path)
    (work : Session → Path → Except (Session × Failure) Session) : Outcome :=
  match prepareOutput session out with
  | .error (stuck, failure) => stuck.fail failure
  | .ok ready => Session.conclude coloured files.length (ready.forEach work files)

def workOn (surroundings : Surroundings) (session : Session) (inputs : List Path)
    (out : Option Path) (work : Session → Path → Except (Session × Failure) Session) : Outcome :=
  match session.tree.discover surroundings.expand inputs with
  | .error failure => session.fail failure
  | .ok files => workOnFiles surroundings.coloured session files out work

/-- Compiles a source and starts a program on the result. -/
def startOn (surroundings : Surroundings) (session : Session) (file : Path) (runtime : Text) :
    Outcome :=
  if session.tree.isFile file = false ∨ file.extension? ≠ some sourceExtension then
    session.fail (.notSource file)
  else
    match compileFile session.tree file with
    | .error failure => session.fail failure
    | .ok (.error diagnostic) => (session.report surroundings.coloured file diagnostic).exit 1
    | .ok (.ok script) =>
        match surroundings.programs runtime with
        | none => session.fail (.cannotStart runtime .notFound)
        | some program =>
            let execution := program script
            let code :=
              match execution.exit with
              | none => 1
              | some code => if code < 256 then code else 1
            { session with stdout := session.stdout ++ execution.stdout }.exit code

def execute (surroundings : Surroundings) (tree : FileTree) (invocation : Invocation) : Outcome :=
  let session := Session.start tree
  match invocation with
  | .version => { session with stdout := versionLine }.exit 0
  | .compile inputs out toStdout =>
      workOn surroundings session inputs out
        (attemptNow surroundings.coloured (delivery out toStdout))
  | .check inputs =>
      workOn surroundings session inputs none (attemptNow surroundings.coloured notePassed)
  | .run file runtime => startOn surroundings session file runtime

def usage : Text :=
  "usage: jolly compile INPUT... [-o DIR | --stdout] [--no-color]\n".toList ++
  "       jolly check INPUT... [--no-color]\n".toList ++
  "       jolly run FILE [--runtime PROGRAM] [--no-color]\n".toList

/-- Carries out what the arguments ask for. Arguments that do not fit end with exit code 2. -/
def executeArguments (surroundings : Surroundings) (tree : FileTree) (arguments : List Text) :
    Outcome :=
  match ofArguments? false arguments with
  | none => ((Session.start tree).print usage).exit 2
  | some (uncoloured, invocation) =>
      let coloured := surroundings.coloured && !uncoloured
      invocation.execute { surroundings with coloured } tree

end Invocation

end Dialect
