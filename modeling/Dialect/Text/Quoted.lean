import Dialect.Text.Visible

/-!
# Texts in the log

The log writes a value between double quotes, with a backslash before quotes and backslashes and with
escapes for characters that would not be visible. A message is written as it is, apart from the
characters that steer a terminal.
-/

namespace Dialect.Text

def hexDigit (n : Nat) : Char :=
  if n < 10 then Char.ofNat ('0'.toNat + n) else Char.ofNat ('a'.toNat + (n - 10))

def hexadecimal (n : Nat) : Text :=
  if n < 16 then [hexDigit n] else hexadecimal (n / 16) ++ [hexDigit (n % 16)]

/-- The escape of a character by its code point. -/
def codePointEscape (c : Char) : Text :=
  ['\\', 'u', '\x7b'] ++ hexadecimal c.toNat ++ ['\x7d']

/-- The escape of a character below 256 by its two hexadecimal digits. -/
def byteEscape (c : Char) : Text :=
  ['\\', 'x', hexDigit (c.toNat / 16), hexDigit (c.toNat % 16)]

def quotedChar (c : Char) : Text :=
  if c = '"' ∨ c = '\\' then ['\\', c]
  else if c = '\n' then ['\\', 'n']
  else if c = '\t' then ['\\', 't']
  else if c = '\r' then ['\\', 'r']
  else if c.toNat = 0 then ['\\', '0']
  else if isVisible c then [c]
  else codePointEscape c

def quoted (text : Text) : Text := '"' :: text.flatMap quotedChar ++ ['"']

/-- Bell, backspace, form feed, escape and delete. -/
def terminalControls : List Char := ['\x07', '\x08', '\x0c', '\x1b', '\x7f']

/-- How a character is written in a message. -/
def messageChar (c : Char) : Text :=
  if c ∈ terminalControls then byteEscape c
  else if 0x80 ≤ c.toNat ∧ c.toNat ≤ 0x9F then codePointEscape c
  else [c]

def inMessage (text : Text) : Text := text.flatMap messageChar

end Dialect.Text
