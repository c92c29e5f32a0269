import Dialect.Pattern.Extent
import Dialect.Pattern.Notation
import Dialect.Text.Decimal

/-!
# Reading patterns

The notation of patterns:

* `\s`, `\d` and `\w` are the space, digit and word characters and `\S`, `\D` and `\W` the others;
  `\a`, `\t`, `\n`, `\v`, `\f` and `\r` are the control characters with these names; `\x41`, `\u0041`,
  `\U00000041` and `\x{41}` are characters by their code points; a backslash before ASCII punctuation
  takes it literally;
* `.` is any character but the line feed, and `[…]` and `[^…]` are character classes, in which `[:alpha:]`
  and `[:^alpha:]` and the like are the characters with a property and the others;
* `^` and `$`, or `\A` and `\z`, are the start and the end of the text; `\b` is a word boundary, `\B`
  is none, `\<` and `\>`, or `\b{start}` and `\b{end}`, are the start and the end of a word, and
  `\b{start-half}` and `\b{end-half}` look at one side only;
* `(…)`, `(?P<name>…)` and `(?<name>…)` are numbered groups, `(?:…)` is a plain one, and `|` separates
  alternatives;
* `(?flags)` sets flags for the rest of the group, and `(?flags:…)` for a plain group;
* `*`, `+`, `?`, `{m}`, `{m,}` and `{m,n}` repeat what stands before them.

Names of groups are ASCII. A text is read in two steps, into tokens and then into a pattern with its
extent. A table can be built with another reading of patterns as well.
-/

namespace Dialect

namespace Pattern

structure Part where
  pattern : Pattern
  extent : Extent
  deriving DecidableEq, Repr

namespace Part

def char (c : Char) : Part where
  pattern := .char c
  extent := .char

def one (accepted : CharSet) : Part where
  pattern := .one accepted
  extent := .one accepted

def anchor (condition : Anchor) : Part where
  pattern := .anchor condition
  extent := .anchor

def inOrder (parts : List Part) : Part where
  pattern := Pattern.inOrder (parts.map Part.pattern)
  extent := Extent.inOrder (parts.map Part.extent)

def oneOf (parts : List Part) : Part where
  pattern := Pattern.oneOf (parts.map Part.pattern)
  extent := Extent.oneOf (parts.map Part.extent)

def repeated (body : Part) (least : Nat) (most : Option Nat) : Part where
  pattern := .repeated body.pattern least most
  extent := body.extent.repeated least most

/-- A numbered group. Its number has no bearing on whether a text matches. -/
def group (body : Part) : Part where
  pattern := body.pattern
  extent := body.extent.group

end Part

namespace Flags

def charPart (flags : Flags) (c : Char) : Part :=
  if flags.caseless && c.isAlpha then .one (CharSet.single c).foldCase else .char c

def dotPart (flags : Flags) : Part :=
  if flags.dotAll then .one .everything
  else if flags.returns then .one (CharSet.union (.single '\n') (.single '\r')).complement
  else .one .notLineFeed

def startPart (flags : Flags) : Part :=
  .anchor <|
    if flags.perLine then if flags.returns then .returnLineStart else .lineStart else .textStart

def endPart (flags : Flags) : Part :=
  .anchor <| if flags.perLine then if flags.returns then .returnLineEnd else .lineEnd else .textEnd

def escapePart (flags : Flags) : Escape → Part
  | .char c => flags.charPart c
  | .set accepted => .one accepted
  | .anchor condition => .anchor condition

end Flags

/-! ## Character classes -/

inductive ClassItem where
  | char (c : Char)
  | set (accepted : CharSet)
  deriving DecidableEq, Repr

namespace ClassItem

def toSet : ClassItem → CharSet
  | .char c => .single c
  | .set accepted => accepted

end ClassItem

def readClassItem? (flags : Flags) : Text → Option (ClassItem × Text)
  | [] => none
  | '\\' :: rest =>
      match readEscape? flags rest with
      | some (.char c, after) => some (.char c, after)
      | some (.set accepted, after) => some (.set accepted, after)
      | _ => none
  | c :: rest => some (.char c, rest)

/-- Reads an item of a class, or two with a hyphen between them for a range. Ranges are between
characters and go up. A hyphen before the closing bracket or before another hyphen forms none. -/
def readClassRange? (flags : Flags) (text : Text) : Option (CharSet × Text) :=
  match readClassItem? flags text with
  | none => none
  | some (item, rest) =>
      match flags.skip rest with
      | '-' :: behind =>
          match flags.skip behind with
          | ']' :: _ => some (item.toSet, '-' :: behind)
          | '-' :: _ => some (item.toSet, '-' :: behind)
          | next =>
              match item, readClassItem? flags next with
              | .char first, some (.char last, after) =>
                  if first ≤ last then some (.between first last, after) else none
              | _, _ => none
      | others => some (item.toSet, others)

def readNamedSet? : Text → Option (CharSet × Text)
  | ':' :: rest =>
      let (negated, start) :=
        match rest with
        | '^' :: start => (true, start)
        | start => (false, start)
      match start.dropWhile (· != ':') with
      | ':' :: ']' :: after =>
          (CharSet.named? (start.takeWhile (· != ':'))).map fun set =>
            (if negated then set.complement else set, after)
      | _ => none
  | _ => none

/-- Whether a text starts with two hyphens, ampersands or tildes side by side, which have no place in a
class. -/
def startsRefused : Text → Bool
  | '-' :: '-' :: _ => true
  | '&' :: '&' :: _ => true
  | '~' :: '~' :: _ => true
  | _ => false

/-- Reads the first set inside a class. A bracket is that of a named set, because classes do not nest. -/
def readClassSet? (flags : Flags) : Text → Option (CharSet × Text)
  | '[' :: rest => readNamedSet? rest
  | text => if startsRefused text then none else readClassRange? flags text

/-- Reads the inside of a class up to the closing bracket. -/
def readClassSets? (flags : Flags) (text : Text) : Option (List CharSet × Text) :=
  match flags.skip text with
  | [] => none
  | ']' :: rest => some ([], rest)
  | start =>
      match readClassSet? flags start with
      | none => none
      | some (accepted, rest) =>
          if rest.length < text.length then
            (readClassSets? flags rest).map fun (sets, after) => (accepted :: sets, after)
          else none
termination_by text.length

/-- Reads the inside of a class after the bracket and a possible caret. Hyphens at the start are
literal, and so is a closing bracket that comes first. -/
def readClassBody? (flags : Flags) (text : Text) : Option (CharSet × Text) :=
  let (hyphens, start) := flags.takeAll (· == '-') text
  let (first, rest) :=
    match hyphens, start with
    | [], ']' :: rest => ([']'], rest)
    | hyphens, rest => (hyphens, rest)
  (readClassSets? flags rest).map fun (sets, after) =>
    let accepted := CharSet.unions (first.map CharSet.single ++ sets)
    (if flags.caseless then accepted.foldCase else accepted, after)

def readClass? (flags : Flags) (text : Text) : Option (CharSet × Text) :=
  match flags.skip text with
  | '^' :: rest =>
      (readClassBody? flags rest).map fun (accepted, after) => (accepted.complement, after)
  | start => readClassBody? flags start

/-! ## Tokens -/

inductive Token where
  | part (part : Part)
  | opening (numbered : Bool)
  | closing
  | bar
  | repetition (least : Nat) (most : Option Nat)
  deriving DecidableEq, Repr

/-- A question mark after a repetition prefers few rounds to many, which has no bearing on whether a
text matches. -/
def dropPreference : Text → Text
  | '?' :: rest => rest
  | rest => rest

/-- Counts of rounds are below this bound. -/
def countBound : Nat := UInt32.size

def readCount? (flags : Flags) (text : Text) : Option (Nat × Text) :=
  let (digits, after) := flags.takeAll Char.isDigit text.trimStart
  match Text.readDecimal? digits with
  | none => none
  | some count => if count < countBound then some (count, Text.trimStart after) else none

def readBounds? (flags : Flags) (text : Text) : Option ((Nat × Option Nat) × Text) :=
  match readCount? flags text with
  | some (least, '\x7d' :: rest) => some ((least, some least), rest)
  | some (least, ',' :: rest) =>
      match flags.skip rest with
      | '\x7d' :: rest => some ((least, none), rest)
      | start =>
          match readCount? flags start with
          | some (most, '\x7d' :: rest) =>
              if least ≤ most then some ((least, some most), rest) else none
          | _ => none
  | _ => none

/-- Where a text is read: with the flags in force, those of the groups around, innermost first, and the
names of groups so far. -/
structure Scope where
  flags : Flags
  around : List Flags
  names : List Text
  deriving DecidableEq, Repr

namespace Scope

def initial : Scope where
  flags := .initial
  around := []
  names := []

def enter (scope : Scope) (flags : Flags) : Scope :=
  { scope with flags, around := scope.flags :: scope.around }

/-- Leaves a group, behind which the flags from before it are in force again. -/
def leave (scope : Scope) : Scope :=
  match scope.around with
  | [] => scope
  | flags :: around => { scope with flags, around }

end Scope

def isGroupName : Text → Bool
  | [] => false
  | first :: rest =>
      (first.isAlpha || first == '_') &&
        rest.all fun c => c.isAlphanum || c == '_' || c == '.' || c == '[' || c == ']'

/-- Reads the name of a group and the angle bracket behind it. No two groups have the same name. -/
def readGroupName? (scope : Scope) (text : Text) : Option (Option Token × Scope × Text) :=
  let name := text.takeWhile (· != '>')
  match text.dropWhile (· != '>') with
  | [] => none
  | _ :: after =>
      if isGroupName name && !scope.names.contains name then
        let known := { scope with names := name :: scope.names }
        some (some (.opening true), known.enter scope.flags, after)
      else none

/-- Reads the start of a group after its parenthesis, or flags for the rest of the group around. There
are no groups that only look ahead or back. -/
def readOpening? (scope : Scope) (text : Text) : Option (Option Token × Scope × Text) :=
  match scope.flags.skip text with
  | '?' :: '<' :: '=' :: _ => none
  | '?' :: '<' :: '!' :: _ => none
  | '?' :: 'P' :: '<' :: rest => readGroupName? scope rest
  | '?' :: '<' :: rest => readGroupName? scope rest
  | '?' :: ')' :: _ => none
  | '?' :: rest =>
      match scope.flags.read? true false [] rest with
      | some (flags, ':' :: after) => some (some (.opening false), scope.enter flags, after)
      | some (flags, ')' :: after) => some (none, { scope with flags }, after)
      | _ => none
  | rest => some (some (.opening true), scope.enter scope.flags, rest)

def readToken? (scope : Scope) : Text → Option (Option Token × Scope × Text)
  | [] => none
  | '\\' :: rest =>
      (readEscape? scope.flags rest).map fun (escape, after) =>
        (some (.part (scope.flags.escapePart escape)), scope, after)
  | '.' :: rest => some (some (.part scope.flags.dotPart), scope, rest)
  | '^' :: rest => some (some (.part scope.flags.startPart), scope, rest)
  | '$' :: rest => some (some (.part scope.flags.endPart), scope, rest)
  | '[' :: rest =>
      (readClass? scope.flags rest).map fun (accepted, after) =>
        (some (.part (.one accepted)), scope, after)
  | '(' :: rest => readOpening? scope rest
  | ')' :: rest => some (some .closing, scope.leave, rest)
  | '|' :: rest => some (some .bar, scope, rest)
  | '*' :: rest => some (some (.repetition 0 none), scope, dropPreference rest)
  | '+' :: rest => some (some (.repetition 1 none), scope, dropPreference rest)
  | '?' :: rest => some (some (.repetition 0 (some 1)), scope, dropPreference rest)
  | '\x7b' :: rest =>
      (readBounds? scope.flags rest).map fun ((least, most), after) =>
        (some (.repetition least most), scope, dropPreference (scope.flags.skip after))
  | c :: rest => some (some (.part (scope.flags.charPart c)), scope, rest)

def readTokens? (scope : Scope) (text : Text) : Option (List Token) :=
  match scope.flags.skip text with
  | [] => some []
  | start =>
      match readToken? scope start with
      | none => none
      | some (token, next, rest) =>
          if rest.length < text.length then (readTokens? next rest).map (token.toList ++ ·) else none
termination_by text.length

/-! ## Groups -/

/-- A group while it is read: its finished alternatives and the parts of the current one, both with
the last one first. -/
structure Group where
  numbered : Bool
  alternatives : List Part
  parts : List Part
  deriving DecidableEq, Repr

namespace Group

def fresh (numbered : Bool) : Group where
  numbered := numbered
  alternatives := []
  parts := []

def add (group : Group) (part : Part) : Group :=
  { group with parts := part :: group.parts }

def endAlternative (group : Group) : Group :=
  { group with
    alternatives := Part.inOrder group.parts.reverse :: group.alternatives
    parts := [] }

def close (group : Group) : Part :=
  let body := Part.oneOf group.endAlternative.alternatives.reverse
  if group.numbered then body.group else body

end Group

/-- Reads the tokens of a group, given the groups around it, innermost first. Every group is closed,
groups do not nest too deep, and a repetition has something to repeat. -/
def readGroup? (group : Group) (around : List Group) : List Token → Option Part
  | [] => if around.isEmpty then some group.close else none
  | .part part :: tokens => readGroup? (group.add part) around tokens
  | .opening numbered :: tokens =>
      if around.length < Extent.mostDepth then
        readGroup? (.fresh numbered) (group :: around) tokens
      else none
  | .closing :: tokens =>
      match around with
      | [] => none
      | outer :: others => readGroup? (outer.add group.close) others tokens
  | .bar :: tokens => readGroup? group.endAlternative around tokens
  | .repetition least most :: tokens =>
      match group.parts with
      | [] => none
      | body :: parts =>
          readGroup? { group with parts := body.repeated least most :: parts } around tokens

/-- Reads a pattern. Patterns that are too large are refused. -/
def read? (text : Text) : Option Pattern :=
  match readTokens? .initial text with
  | none => none
  | some tokens =>
      match readGroup? (.fresh false) [] tokens with
      | none => none
      | some part =>
          if part.extent.isAllowed (tokens.count (.opening true)) then some part.pattern else none

end Pattern

end Dialect
