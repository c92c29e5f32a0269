import Dialect.Text.Basic

/-!
# Decimal numerals

Natural numbers are written without leading zeros. Reading takes leading zeros as well.
-/

namespace Dialect.Text

/-- The decimal digit of a number below ten. -/
def digit (n : Nat) : Char := Char.ofNat ('0'.toNat + n)

def decimal (n : Nat) : Text :=
  if n < 10 then [digit n] else decimal (n / 10) ++ [digit (n % 10)]

def decimalValue (digits : Text) : Nat :=
  digits.foldl (fun value c => 10 * value + (c.toNat - '0'.toNat)) 0

/-- Reads one or more decimal digits. -/
def readDecimal? (text : Text) : Option Nat :=
  if text ≠ [] ∧ text.all Char.isDigit then some (decimalValue text) else none

end Dialect.Text
