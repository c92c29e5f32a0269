import Dialect.Text.Decimal
import Dialect.Text.Literal

/-!
# Code with its literals masked

Keywords are looked for in code whose quoted literals are hidden. Each literal is replaced by a
placeholder: its number in decimal between two marker characters. The marker is a private-use
character that does not occur in the code, unless all of them do. A mask remembers the literals, puts
them back into any text that holds placeholders, and maps positions in the masked text to positions in
the code.
-/

namespace Dialect

/-- A character of code outside literals, or a whole literal. -/
inductive Fragment where
  | plain (char : Char)
  | literal (text : Text)
  deriving DecidableEq, Repr

namespace Fragment

def text : Fragment → Text
  | .plain char => [char]
  | .literal text => text

def literal? : Fragment → Option Text
  | .plain _ => none
  | .literal text => some text

/-- Cuts code into literals and single characters outside them. -/
def ofCode : Text → List Fragment
  | [] => []
  | c :: rest =>
      match _found : Text.literal? (c :: rest) with
      | none => .plain c :: ofCode rest
      | some (quoted, after) => .literal quoted :: ofCode after
termination_by code => code.length
decreasing_by
  · simp
  · exact Text.length_after_literal?_lt _found

/-- The fragments of code, in order, are the code. -/
theorem flatMap_text_ofCode (code : Text) : (ofCode code).flatMap text = code := by
  fun_induction ofCode code with
  | case1 => rfl
  | case2 c rest _ inductionHypothesis =>
      simp only [List.flatMap_cons, inductionHypothesis, text, List.singleton_append]
  | case3 c rest quoted after found inductionHypothesis =>
      simp only [List.flatMap_cons, inductionHypothesis, text, (Text.literal?_append found).1]

end Fragment

/-- Code cut into fragments, and the character that marks placeholders. -/
structure Mask where
  marker : Char
  fragments : List Fragment
  deriving DecidableEq, Repr

namespace Mask

/-! ## Markers -/

/-- The characters of the private-use area of the basic plane, in order. -/
def markers : List Char :=
  (List.range (0xF8FF - 0xE000 + 1)).map fun index => Char.ofNat (0xE000 + index)

def fallbackMarker : Char := Char.ofNat 0xFFFD

/-- The first private-use character that does not occur in the code, or else the last resort. -/
def markerFor (code : Text) : Char :=
  (markers.find? fun marker => !code.contains marker).getD fallbackMarker

def ofCode (code : Text) : Mask where
  marker := markerFor code
  fragments := Fragment.ofCode code

/-! ## The masked text -/

def placeholder (mask : Mask) (number : Nat) : Text :=
  mask.marker :: Text.decimal number ++ [mask.marker]

/-- The masked text of fragments whose first literal has the given number. -/
def textFrom (mask : Mask) : Nat → List Fragment → Text
  | _, [] => []
  | number, .plain char :: fragments => char :: textFrom mask number fragments
  | number, .literal _ :: fragments =>
      mask.placeholder number ++ textFrom mask (number + 1) fragments

def text (mask : Mask) : Text := mask.textFrom 0 mask.fragments

def literals (mask : Mask) : List Text := mask.fragments.filterMap Fragment.literal?

/-! ## Putting the literals back -/

/-- Reads the number in a placeholder. A plus sign may stand before the digits. -/
def readNumber? : Text → Option Nat
  | '+' :: digits => Text.readDecimal? digits
  | digits => Text.readDecimal? digits

/-- The literal of the placeholder whose opening marker stands just before a text, and what follows
the placeholder. -/
def takeLiteral? (mask : Mask) (text : Text) : Option (Text × Text) :=
  match text.dropWhile (· != mask.marker) with
  | [] => none
  | _ :: after =>
      match readNumber? (text.takeWhile (· != mask.marker)) with
      | none => none
      | some number => mask.literals[number]?.map fun literal => (literal, after)

theorem length_after_takeLiteral?_lt {mask : Mask} {text literal after : Text}
    (found : mask.takeLiteral? text = some (literal, after)) :
    after.length < text.length := by
  have dropLength := (List.dropWhile_suffix (l := text) (· != mask.marker)).length_le
  rw [takeLiteral?] at found
  split at found
  next => simp at found
  next closing rest dropped =>
    rw [dropped] at dropLength
    split at found
    next => simp at found
    next =>
      obtain ⟨_, _, equality⟩ := Option.map_eq_some_iff.mp found
      simp only [Prod.mk.injEq] at equality
      rw [← equality.2]
      exact dropLength

/-- Puts the literals back into a text with placeholders. A marker that starts no placeholder of
this mask is an ordinary character. -/
def unmask (mask : Mask) : Text → Text
  | [] => []
  | c :: rest =>
      if c = mask.marker then
        match _found : mask.takeLiteral? rest with
        | none => c :: unmask mask rest
        | some (literal, after) => literal ++ unmask mask after
      else c :: unmask mask rest
termination_by text => text.length
decreasing_by
  · simp
  · have := length_after_takeLiteral?_lt _found
    simp only [List.length_cons]
    omega
  · simp

/-! ## Positions -/

/-- Where each placeholder ends: its byte offset in the masked text and in the code, for fragments
that begin at the given offsets with the given number. -/
def endsFrom (mask : Mask) : (number inText inCode : Nat) → List Fragment → List (Nat × Nat)
  | _, _, _, [] => []
  | number, inText, inCode, .plain char :: fragments =>
      endsFrom mask number (inText + char.utf8Size) (inCode + char.utf8Size) fragments
  | number, inText, inCode, .literal literal :: fragments =>
      let textEnd := inText + Text.bytes (mask.placeholder number)
      let codeEnd := inCode + literal.bytes
      (textEnd, codeEnd) :: endsFrom mask (number + 1) textEnd codeEnd fragments

def ends (mask : Mask) : List (Nat × Nat) := mask.endsFrom 0 0 0 mask.fragments

/-- The byte offset in the code of a byte offset in the masked text. The last placeholder that ends
at or before the offset fixes the distance between the two. -/
def offsetInCode (mask : Mask) (offset : Nat) : Nat :=
  match mask.ends.reverse.find? fun (textEnd, _) => textEnd ≤ offset with
  | none => offset
  | some (textEnd, codeEnd) => offset - textEnd + codeEnd

end Mask

end Dialect
