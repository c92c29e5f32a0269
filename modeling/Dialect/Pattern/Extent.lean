import Dialect.CharSet

/-!
# How large a pattern is

A pattern stands for a machine that runs over a text. The extent of a pattern says how deep its parts
nest and how much room the states of the machine take. A counted repetition has the states of its body
once for every round, so a short text can stand for a large machine. `Extent.isAllowed` sets the
limits.
-/

namespace Dialect.Pattern

/-- How deep a pattern nests, how many bytes its states take and whether it can match the empty
text. -/
structure Extent where
  depth : Nat
  bytes : Nat
  canBeEmpty : Bool
  deriving DecidableEq, Repr

namespace Extent

/-- The bytes of a state with one way out. -/
def stateBytes : Nat := 32

/-- The bytes of a state with several ways out. -/
def splitBytes (ways : Nat) : Nat := stateBytes + 4 * ways

def empty : Extent where
  depth := 0
  bytes := stateBytes
  canBeEmpty := true

def char : Extent where
  depth := 0
  bytes := stateBytes
  canBeEmpty := false

def one (accepted : CharSet) : Extent where
  depth := 0
  bytes := stateBytes + 8 * accepted.ranges.length
  canBeEmpty := false

def anchor : Extent := empty

/-- The extent of a numbered group, which has a state at either end. -/
def group (body : Extent) : Extent where
  depth := body.depth + 1
  bytes := body.bytes + 2 * stateBytes
  canBeEmpty := body.canBeEmpty

def deepest (parts : List Extent) : Nat := (parts.map depth).foldl max 0

def totalBytes (parts : List Extent) : Nat := (parts.map bytes).foldl (· + ·) 0

def inOrder : List Extent → Extent
  | [] => empty
  | [part] => part
  | parts =>
      { depth := deepest parts + 1
        bytes := totalBytes parts
        canBeEmpty := parts.all canBeEmpty }

def oneOf : List Extent → Extent
  | [] => empty
  | [part] => part
  | parts =>
      { depth := deepest parts + 1
        bytes := splitBytes parts.length + stateBytes + totalBytes parts
        canBeEmpty := parts.any canBeEmpty }

def repeatedBytes (body : Extent) : Nat → Option Nat → Nat
  | 0, none =>
      if body.canBeEmpty then body.bytes + 2 * splitBytes 2 + stateBytes
      else body.bytes + splitBytes 2
  | least, none => least * body.bytes + splitBytes 2
  | 0, some 1 => splitBytes 2 + body.bytes + stateBytes
  | least, some most =>
      if least = most then least * body.bytes
      else
        (if least = 0 then stateBytes else least * body.bytes) + stateBytes +
          (most - least) * (splitBytes 2 + body.bytes)

/-- The extent of a repetition. No rounds are the empty pattern, and one round is the body itself. -/
def repeated (body : Extent) (least : Nat) (most : Option Nat) : Extent :=
  if least = 0 ∧ most = some 0 then empty
  else if least = 1 ∧ most = some 1 then body
  else
    { depth := body.depth + 1
      bytes := repeatedBytes body least most
      canBeEmpty := least == 0 || body.canBeEmpty }

/-- The greatest depth, of parts and of groups in groups. -/
def mostDepth : Nat := 50

def mostBytes : Nat := 10 * 1024 * 1024

/-- Whether a pattern with this extent and this many numbered groups is within the limits. The whole
pattern is one more group and ends in a state of its own, and every group has an entry in a list of
names. -/
def isAllowed (extent : Extent) (groups : Nat) : Bool :=
  extent.depth ≤ mostDepth &&
    extent.group.bytes + stateBytes + 16 * (groups + 1) ≤ mostBytes

end Extent

end Dialect.Pattern
