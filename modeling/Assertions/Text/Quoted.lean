import Assertions.Text.Unprintable

/-!
# Quoted text

A text as log messages show it: between quotation marks, with escapes for the quotation mark, the
backslash and the usual control characters, and every other unprintable character by its number.
-/

namespace Assertions.Text

/-- One character of a quoted text. -/
def quoteChar (c : Char) : Text :=
  if c == '\x22' then ['\\', '\x22']
  else if c == '\\' then ['\\', '\\']
  else if c == '\x00' then ['\\', '0']
  else if c == '\t' then ['\\', 't']
  else if c == '\n' then ['\\', 'n']
  else if c == '\r' then ['\\', 'r']
  else if isUnprintable c then ['\\', 'u', '\x7b'] ++ Nat.toDigits 16 c.toNat ++ ['\x7d']
  else [c]

/-- A text between quotation marks. -/
def quote (text : Text) : Text := '\x22' :: text.flatMap quoteChar ++ ['\x22']

end Assertions.Text
