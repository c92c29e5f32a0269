import Dialect.Path

/-!
# Arguments

The command line names an action, its operands and its switches. Switches may stand before and
after the operands, and a double hyphen ends them. Arguments that do not fit give no invocation.
-/

namespace Dialect

/-- What the program is asked to do. -/
inductive Invocation where
  /-- Compile inputs into files, into a directory if one is given, or to the standard output. -/
  | compile (inputs : List Path) (out : Option Path) (toStdout : Bool)
  /-- Only look for faults. -/
  | check (inputs : List Path)
  /-- Compile a file and start a program on the result. -/
  | run (file : Path) (runtime : Text)
  /-- Print the version. -/
  | version
  deriving DecidableEq, Repr

namespace Invocation

inductive Action where
  | compile
  | check
  | run
  deriving DecidableEq, Repr

namespace Action

def ofName? (name : Text) : Option Action :=
  if name = "compile".toList then some .compile
  else if name = "check".toList then some .check
  else if name = "run".toList then some .run
  else none

end Action

inductive Switch where
  | out
  | stdout
  | runtime
  | noColor
  deriving DecidableEq, Repr

namespace Switch

def ofName? (name : Text) : Option Switch :=
  if name = "out".toList then some .out
  else if name = "stdout".toList then some .stdout
  else if name = "runtime".toList then some .runtime
  else if name = "no-color".toList then some .noColor
  else none

def takesValue : Switch → Bool
  | .out => true
  | .runtime => true
  | .stdout => false
  | .noColor => false

def belongsTo : Switch → Action → Bool
  | .out, .compile => true
  | .stdout, .compile => true
  | .runtime, .run => true
  | .noColor, _ => true
  | _, _ => false

end Switch

inductive Argument where
  | separator
  | operand (text : Text)
  | switch (switch : Switch) (value : Option Text)
  deriving DecidableEq, Repr

namespace Argument

/-- The form of an argument. A long switch may have its value behind an equals sign, and the short
one right behind it, with an equals sign or without. -/
def ofText? : Text → Option Argument
  | ['-'] => some (.operand ['-'])
  | ['-', '-'] => some .separator
  | '-' :: '-' :: body =>
      (Switch.ofName? (body.takeWhile (· != '='))).map fun switch =>
        .switch switch (match body.dropWhile (· != '=') with
          | [] => none
          | _ :: value => some value)
  | ['-', 'o'] => some (.switch .out none)
  | '-' :: 'o' :: '=' :: value => some (.switch .out (some value))
  | '-' :: 'o' :: value => some (.switch .out (some value))
  | '-' :: _ => none
  | text => some (.operand text)

def canBeValue : Text → Bool
  | ['-'] => true
  | '-' :: _ => false
  | _ => true

end Argument

/-- The operands and switches read so far. -/
structure Given where
  operands : List Text
  switches : List (Switch × Text)
  deriving DecidableEq, Repr

namespace Given

def nothing : Given where
  operands := []
  switches := []

def addOperand (given : Given) (operand : Text) : Given :=
  { given with operands := given.operands ++ [operand] }

/-- Adds a switch. No switch is given twice. -/
def addSwitch? (given : Given) (switch : Switch) (value : Text) : Option Given :=
  if (given.switches.lookup switch).isSome then none
  else some { given with switches := given.switches ++ [(switch, value)] }

end Given

/-- Reads the arguments of an action. A switch that waits for its value takes the next argument. -/
def readArguments? (action : Action) (given : Given) (waiting : Option Switch) :
    List Text → Option Given
  | [] => if waiting.isSome then none else some given
  | argument :: arguments =>
      match waiting with
      | some switch =>
          if Argument.canBeValue argument then
            match given.addSwitch? switch argument with
            | none => none
            | some given => readArguments? action given none arguments
          else none
      | none =>
          match Argument.ofText? argument with
          | none => none
          | some .separator => some { given with operands := given.operands ++ arguments }
          | some (.operand operand) =>
              readArguments? action (given.addOperand operand) none arguments
          | some (.switch switch value) =>
              if switch.belongsTo action = false ∨ (switch.takesValue = false ∧ value.isSome) then
                none
              else if switch.takesValue ∧ value.isNone then
                readArguments? action given (some switch) arguments
              else
                match given.addSwitch? switch (value.getD []) with
                | none => none
                | some given => readArguments? action given none arguments

/-- A path is never empty. -/
def readPath? (text : Text) : Option Path :=
  if text = [] then none else some { text }

def ofGiven? (action : Action) (given : Given) : Option Invocation :=
  match given.operands.mapM readPath? with
  | none => none
  | some paths =>
      match action with
      | .check => if paths = [] then none else some (.check paths)
      | .run =>
          match paths with
          | [file] =>
              some (.run file ((given.switches.lookup .runtime).getD "node".toList))
          | _ => none
      | .compile =>
          let toStdout := (given.switches.lookup .stdout).isSome
          match given.switches.lookup .out with
          | none => if paths = [] then none else some (.compile paths none toStdout)
          | some out =>
              if paths = [] ∨ toStdout then none
              else (readPath? out).map fun out => .compile paths (some out) false

/-- Whether an argument asks for the version. What is written behind the short form is not looked
at. -/
def asksForVersion (argument : Text) : Bool :=
  argument == "--version".toList || "-V".toList.isPrefixOf argument

/-- Reads the arguments of the program, and whether they ask for reports without colour. The switch for
that may also stand before the action. -/
def ofArguments? (uncoloured : Bool) : List Text → Option (Bool × Invocation)
  | [] => none
  | argument :: arguments =>
      if asksForVersion argument then some (uncoloured, .version)
      else if argument = "--no-color".toList then
        if uncoloured then none else ofArguments? true arguments
      else
        match Action.ofName? argument with
        | none => none
        | some action =>
            match readArguments? action .nothing none arguments with
            | none => none
            | some given =>
                (ofGiven? action given).map fun invocation =>
                  (uncoloured || (given.switches.lookup .noColor).isSome, invocation)

end Invocation

end Dialect
