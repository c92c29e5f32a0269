import Dialect.Text.Blank
import Dialect.Text.Decimal

/-!
# Diagnostics

A diagnostic says what is wrong with a keyword and where: in which file, on which line and, if it is
known, at which place of the line. It can be rendered as a report with an excerpt of the line and
carets under the keyword, in colour or without.
-/

namespace Dialect

/-- The ways in which a keyword can be taken for a name. -/
inductive Misuse where
  | variable
  | function
  | property
  deriving DecidableEq, Repr

namespace Misuse

/-- The kinds of misuse in the order in which they are looked for. -/
def all : List Misuse := [.variable, .function, .property]

/-- The character that follows the name. -/
def mark : Misuse → Char
  | .variable => '='
  | .function => '('
  | .property => ':'

def description : Misuse → Text
  | .variable => "variable name".toList
  | .function => "function name".toList
  | .property => "object literal key".toList

end Misuse

/-- What can be wrong with a keyword. -/
inductive Cause where
  /-- It stands outside the block that it belongs into. -/
  | placement (parent : Text)
  /-- It is taken for a name. -/
  | misuse (kind : Misuse)
  deriving DecidableEq, Repr

namespace Cause

def code : Cause → Text
  | .placement _ => "JLY001".toList
  | .misuse _ => "JLY002".toList

def message (keyword : Text) : Cause → Text
  | .placement parent =>
      "The keyword \"".toList ++ keyword ++ "\" cannot be used outside a ".toList ++ parent ++
        " block.".toList
  | .misuse kind =>
      "The keyword \"".toList ++ keyword ++ "\" cannot be used as a ".toList ++
        kind.description ++ ".".toList

end Cause

structure Site where
  file : Text
  line : Nat
  text : Text
  deriving DecidableEq, Repr

/-- The line that a diagnostic shows: around the keyword, or whole if the keyword has no place in
it. -/
inductive Excerpt where
  | located (before after : Text)
  | whole (text : Text)
  deriving DecidableEq, Repr

namespace Excerpt

/-- The excerpt of a line without the blanks at its end. The keyword is located if it stands at the
given byte offset. -/
def ofLine (line keyword : Text) (offset : Option Nat) : Excerpt :=
  let shown := Text.trimEnd line
  match offset.bind shown.splitAt? with
  | none => .whole shown
  | some (before, rest) =>
      if keyword.isPrefixOf rest then .located before (rest.drop keyword.length)
      else .whole shown

end Excerpt

structure Diagnostic where
  cause : Cause
  message : Text
  file : Text
  line : Nat
  keyword : Text
  excerpt : Excerpt
  deriving DecidableEq, Repr

namespace Diagnostic

def withMessage (cause : Cause) (message keyword : Text) (site : Site) (offset : Option Nat) :
    Diagnostic where
  cause := cause
  message := message
  file := site.file
  line := site.line
  keyword := keyword
  excerpt := .ofLine site.text keyword offset

/-- The diagnostic about a keyword, possibly at a byte offset of the line. -/
def ofCause (cause : Cause) (keyword : Text) (site : Site) (offset : Option Nat) : Diagnostic :=
  withMessage cause (cause.message keyword) keyword site offset

/-- The line that the diagnostic is about, without the blanks at its end. -/
def sourceLine (diagnostic : Diagnostic) : Text :=
  match diagnostic.excerpt with
  | .located before after => before ++ diagnostic.keyword ++ after
  | .whole text => text

def offset? (diagnostic : Diagnostic) : Option Nat :=
  match diagnostic.excerpt with
  | .located before _ => some before.bytes
  | .whole _ => none

/-- The column of the keyword, counted in characters from one. -/
def column? (diagnostic : Diagnostic) : Option Nat :=
  match diagnostic.excerpt with
  | .located before _ => some (before.length + 1)
  | .whole _ => none

/-! ## Reports -/

inductive Style where
  | bold
  | red
  | boldRed
  | yellow
  | blue
  | cyan
  deriving DecidableEq, Repr

namespace Style

/-- The control sequence with the given parameters. -/
def sequence (parameters : String) : Text := '\x1b' :: '[' :: parameters.toList ++ ['m']

def opening : Style → Text
  | .bold => sequence "1"
  | .red => sequence "31"
  | .boldRed => sequence "1;31"
  | .yellow => sequence "33"
  | .blue => sequence "34"
  | .cyan => sequence "36"

def reset : Text := sequence "0"

def paint (style : Style) (coloured : Bool) (text : Text) : Text :=
  if coloured then style.opening ++ text ++ reset else text

end Style

/-- What keeps the carets under the keyword: a tab for each tab and a space for anything else. -/
def padding (before : Text) : Text := before.map fun c => if c = '\t' then '\t' else ' '

def reportLines (diagnostic : Diagnostic) (coloured : Bool) : List Text :=
  let number := Text.decimal diagnostic.line
  let gutter := number.map fun _ => ' '
  let keyword := diagnostic.keyword
  let heading := Style.boldRed.paint coloured ("error[".toList ++ diagnostic.cause.code ++ [']'])
  let place := Style.cyan.paint coloured diagnostic.file ++ [':'] ++
    Style.yellow.paint coloured number ++ [':'] ++ Text.decimal (diagnostic.column?.getD 1)
  let excerpt :=
    match diagnostic.excerpt with
    | .located before after =>
        [ number ++ " | ".toList ++ before ++ Style.boldRed.paint coloured keyword ++ after,
          gutter ++ " | ".toList ++ padding before ++
            Style.red.paint coloured (keyword.map fun _ => '^') ]
    | .whole text => [number ++ " | ".toList ++ text]
  [ heading ++ ": ".toList ++ Style.bold.paint coloured diagnostic.message,
    "  --> ".toList ++ place,
    gutter ++ " |".toList ] ++
  excerpt ++
  [ gutter ++ " |".toList,
    gutter ++ " = help: ensure the keyword \"".toList ++ Style.blue.paint coloured keyword ++
      "\" is used in the correct context".toList ]

/-- The report about a diagnostic. Each line ends with a line feed. -/
def render (diagnostic : Diagnostic) (coloured : Bool) : Text :=
  (diagnostic.reportLines coloured).flatMap fun line => line ++ ['\n']

end Diagnostic

end Dialect
