import Dialect.Pattern.Basic
import Dialect.Text.Blank

/-!
# Flags and escapes

Flags say how the rest of a group is read: without regard to the case of ASCII letters, with anchors
for lines, with a dot for every character, with carriage returns as line ends, or verbosely, so that
blanks and comments between the items of a pattern are passed over. What a backslash and the characters
behind it stand for depends on the flags only through what is passed over.
-/

namespace Dialect.Pattern

/-! ## Flags -/

structure Flags where
  caseless : Bool
  perLine : Bool
  dotAll : Bool
  returns : Bool
  verbose : Bool
  deriving DecidableEq, Repr

namespace Flags

def initial : Flags where
  caseless := false
  perLine := false
  dotAll := false
  returns := false
  verbose := false

/-- Switches a flag on or off. The one that exchanges preferences for few and for many rounds has no
bearing on whether a text matches. -/
def set? (flags : Flags) (on : Bool) : Char → Option Flags
  | 'i' => some { flags with caseless := on }
  | 'm' => some { flags with perLine := on }
  | 's' => some { flags with dotAll := on }
  | 'R' => some { flags with returns := on }
  | 'x' => some { flags with verbose := on }
  | 'U' => some flags
  | _ => none

/-- Reads flags up to a colon or a closing parenthesis, given the flags that have been named and whether
the last character was a hyphen. Those behind the hyphen are switched off. No flag is named twice, and
one at least stands behind the hyphen. -/
def read? (flags : Flags) (on dangling : Bool) (seen : List Char) : Text → Option (Flags × Text)
  | [] => none
  | c :: rest =>
      if c = ':' ∨ c = ')' then
        if dangling then none else some (flags, c :: rest)
      else if c = '-' then
        if on then read? flags false true seen rest else none
      else if seen.contains c then none
      else
        match flags.set? on c with
        | none => none
        | some next => read? next on false (c :: seen) rest

/-- Takes at most so many characters of a kind, and passes over blanks and comments around them if the
reading is verbose. A comment goes from a number sign to the end of its line. -/
def take (flags : Flags) (kind : Char → Bool) : (most : Nat) → (inComment : Bool) → Text → Text × Text
  | _, _, [] => ([], [])
  | most, true, c :: rest => take flags kind most (c != '\n') rest
  | most, false, c :: rest =>
      if flags.verbose && isBlank c then take flags kind most false rest
      else if flags.verbose && c == '#' then take flags kind most true rest
      else
        match most with
        | 0 => ([], c :: rest)
        | more + 1 =>
            if kind c then
              let (taken, after) := take flags kind more false rest
              (c :: taken, after)
            else ([], c :: rest)

def takeAll (flags : Flags) (kind : Char → Bool) (text : Text) : Text × Text :=
  flags.take kind text.length false text

/-- What is left when blanks and comments have been passed over. -/
def skip (flags : Flags) (text : Text) : Text := (flags.take (fun _ => false) 0 false text).2

end Flags

/-! ## Escapes -/

/-- What a backslash and the characters behind it stand for. -/
inductive Escape where
  | char (c : Char)
  | set (accepted : CharSet)
  | anchor (condition : Anchor)
  deriving DecidableEq, Repr

/-- ASCII characters other than letters, digits and angle brackets. -/
def isPunctuation (c : Char) : Bool :=
  c.toNat < 128 && !c.isAlphanum && c != '<' && c != '>'

def escape? : Char → Option Escape
  | 's' => some (.set .spaces)
  | 'd' => some (.set .digits)
  | 'w' => some (.set .wordChars)
  | 'S' => some (.set CharSet.spaces.complement)
  | 'D' => some (.set CharSet.digits.complement)
  | 'W' => some (.set CharSet.wordChars.complement)
  | 'A' => some (.anchor .textStart)
  | 'z' => some (.anchor .textEnd)
  | 'B' => some (.anchor .notWordBoundary)
  | '<' => some (.anchor .wordStart)
  | '>' => some (.anchor .wordEnd)
  | 'a' => some (.char '\x07')
  | 't' => some (.char '\t')
  | 'n' => some (.char '\n')
  | 'v' => some (.char '\x0b')
  | 'f' => some (.char '\x0c')
  | 'r' => some (.char '\r')
  | c => if isPunctuation c then some (.char c) else none

def isHexDigit (c : Char) : Bool :=
  c.isDigit || 'a' ≤ c && c ≤ 'f' || 'A' ≤ c && c ≤ 'F'

def hexDigitValue (c : Char) : Nat :=
  if c.isDigit then c.toNat - '0'.toNat else c.toLower.toNat - 'a'.toNat + 10

/-- The character with a code point that is given by its digits. -/
def charOfHex? (digits : Text) : Option Char :=
  let codePoint := digits.foldl (fun value c => 16 * value + hexDigitValue c) 0
  if codePoint.isValidChar then some (Char.ofNat codePoint) else none

/-- Reads a code point: so many hexadecimal digits, or any number of them between braces. -/
def readHex? (flags : Flags) (count : Nat) (text : Text) : Option (Char × Text) :=
  match flags.skip text with
  | '\x7b' :: rest =>
      match flags.takeAll isHexDigit rest with
      | ([], _) => none
      | (digits, '\x7d' :: after) => (charOfHex? digits).map fun c => (c, after)
      | _ => none
  | start =>
      let (digits, after) := flags.take isHexDigit count false start
      if digits.length = count then (charOfHex? digits).map fun c => (c, after) else none

def boundary? (name : Text) : Option Anchor :=
  if name = "start".toList then some .wordStart
  else if name = "end".toList then some .wordEnd
  else if name = "start-half".toList then some .notBehindWord
  else if name = "end-half".toList then some .notBeforeWord
  else none

/-- Reads what may stand behind the letter of a word boundary. Braces that do not start with a letter or
a hyphen are left for a repetition. -/
def readBoundary? (flags : Flags) (text : Text) : Option (Anchor × Text) :=
  match text with
  | '\x7b' :: inside =>
      match flags.skip inside with
      | [] => none
      | c :: others =>
          if c.isAlpha || c == '-' then
            match flags.takeAll (fun d => d.isAlpha || d == '-') (c :: others) with
            | (name, '\x7d' :: after) => (boundary? name).map fun condition => (condition, after)
            | _ => none
          else some (.wordBoundary, text)
  | _ => some (.wordBoundary, text)

def readEscape? (flags : Flags) : Text → Option (Escape × Text)
  | [] => none
  | 'x' :: rest => (readHex? flags 2 rest).map fun (c, after) => (.char c, after)
  | 'u' :: rest => (readHex? flags 4 rest).map fun (c, after) => (.char c, after)
  | 'U' :: rest => (readHex? flags 8 rest).map fun (c, after) => (.char c, after)
  | 'b' :: rest => (readBoundary? flags rest).map fun (condition, after) => (.anchor condition, after)
  | c :: rest => (escape? c).map fun escape => (escape, rest)

end Dialect.Pattern
