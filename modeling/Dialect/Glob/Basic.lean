import Dialect.Text.Decimal

/-!
# Glob patterns

A glob pattern is matched against paths part by part. In a part, `?` is any one character, `*` any
text, `[…]` one of the characters and ranges listed and `[!…]` none of them. The part `**` is any
number of directories.
-/

namespace Dialect.Glob

inductive Token where
  | char (c : Char)
  | anyChar
  | anyText
  | anyDepth
  | oneOf (ranges : List (Char × Char)) (negated : Bool)
  deriving DecidableEq, Repr

inductive Flaw where
  | tooManyStars
  | partialDepth
  | badRange
  deriving DecidableEq, Repr

/-- What is wrong with a glob pattern, and at which character. -/
structure Fault where
  position : Nat
  flaw : Flaw
  deriving DecidableEq, Repr

namespace Fault

def message (fault : Fault) : Text :=
  "Pattern syntax error near position ".toList ++ Text.decimal fault.position ++ ": ".toList ++
    match fault.flaw with
    | .tooManyStars => "wildcards are either regular `*` or recursive `**`".toList
    | .partialDepth => "recursive wildcards must form a single path component".toList
    | .badRange => "invalid range pattern".toList

end Fault

/-! ## Reading -/

/-- The characters and ranges between the brackets of a glob pattern. -/
def readRanges : Text → List (Char × Char)
  | first :: '-' :: last :: rest => (first, last) :: readRanges rest
  | c :: rest => (c, c) :: readRanges rest
  | [] => []

/-- Cuts a text around the first closing bracket behind its first character. -/
def cutBracket? : Text → Option (Text × Text)
  | [] => none
  | c :: rest =>
      match rest.dropWhile (· != ']') with
      | [] => none
      | _ :: after => some (c :: rest.takeWhile (· != ']'), after)

def readBracket? : Text → Option (Token × Text)
  | '!' :: rest =>
      (cutBracket? rest).map fun (inside, after) => (.oneOf (readRanges inside) true, after)
  | rest =>
      (cutBracket? rest).map fun (inside, after) => (.oneOf (readRanges inside) false, after)

/-- Reads the first token of a text that starts at a position, given the character before it. -/
def readToken (position : Nat) (before : Option Char) :
    Text → Except Fault (Option (Token × Text))
  | [] => .ok none
  | '?' :: rest => .ok (some (.anyChar, rest))
  | '*' :: '*' :: '*' :: _ => .error { position := position + 2, flaw := .tooManyStars }
  | '*' :: '*' :: rest =>
      if before = none ∨ before = some '/' then
        match rest with
        | [] => .ok (some (.anyDepth, []))
        | '/' :: after => .ok (some (.anyDepth, after))
        | _ => .error { position := position + 2, flaw := .partialDepth }
      else .error { position := position - 1, flaw := .partialDepth }
  | '*' :: rest => .ok (some (.anyText, rest))
  | '[' :: rest =>
      match readBracket? rest with
      | none => .error { position, flaw := .badRange }
      | some (token, after) => .ok (some (token, after))
  | c :: rest => .ok (some (.char c, rest))

/-- Reads the tokens of a text that starts at a position, given the character before it. -/
def readFrom (position : Nat) (before : Option Char) (text : Text) : Except Fault (List Token) :=
  match readToken position before text with
  | .error fault => .error fault
  | .ok none => .ok []
  | .ok (some (token, rest)) =>
      if rest.length < text.length then
        let consumed := text.length - rest.length
        match readFrom (position + consumed) (text.take consumed).getLast? rest with
        | .error fault => .error fault
        | .ok tokens => .ok (token :: tokens)
      else .ok [token]
termination_by text.length

def read (text : Text) : Except Fault (List Token) := readFrom 0 none text

/-! ## Matching -/

def Token.accepts : Token → Char → Bool
  | .char expected, c => expected == c
  | .anyChar, _ => true
  | .oneOf ranges negated, c =>
      (ranges.any fun (first, last) => first ≤ c && c ≤ last) != negated
  | .anyText, _ => false
  | .anyDepth, _ => false

/-- A text and what is left of it when characters are dropped from its start. -/
def tails : Text → List Text
  | [] => [[]]
  | c :: rest => (c :: rest) :: tails rest

/-- What a token can leave of a name of which one of some ends is left. The longest end comes first,
and the others are ends of it. -/
def Token.leave : Token → List Text → List Text
  | .anyText, [] => []
  | .anyText, longest :: _ => tails longest
  | token, ends =>
      ends.filterMap fun
        | [] => none
        | c :: rest => if token.accepts c then some rest else none

def matchesName (tokens : List Token) (name : Text) : Bool :=
  (tokens.foldl (fun ends token => token.leave ends) [name]).any List.isEmpty

/-- The name that tokens stand for, if there is only one. -/
def literal? : List Token → Option Text
  | [] => some []
  | .char c :: tokens => (literal? tokens).map (c :: ·)
  | _ :: _ => none

end Dialect.Glob
