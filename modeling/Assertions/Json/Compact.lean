import Assertions.Decimal.Layout
import Assertions.Json

/-!
# Compact JSON text

The text of a document without any space. A string is written with as few escapes as JSON allows:
the quotation mark, the backslash and the control characters below U+0020, of which five have a
short escape.
-/

namespace Assertions.Json

/-- The lowercase hexadecimal digits of a natural number. -/
def hexDigits (n : Nat) : Text := Nat.toDigits 16 n

/-- One character of a string, escaped where it has to be. -/
def escape (c : Char) : Text :=
  if c == '\x22' then ['\\', '\x22']
  else if c == '\\' then ['\\', '\\']
  else if c == '\x08' then ['\\', 'b']
  else if c == '\t' then ['\\', 't']
  else if c == '\n' then ['\\', 'n']
  else if c == '\x0c' then ['\\', 'f']
  else if c == '\r' then ['\\', 'r']
  else if c.toNat < 0x20 then
    let digits := hexDigits c.toNat
    ['\\', 'u'] ++ List.replicate (4 - digits.length) '0' ++ digits
  else [c]

/-- A string between quotation marks. -/
def quoted (text : Text) : Text := '\x22' :: text.flatMap escape ++ ['\x22']

mutual

/-- The compact text of a document. -/
def compact : Json → Text
  | .null => "null".toList
  | .bool true => "true".toList
  | .bool false => "false".toList
  | .integer value => Decimal.ofInteger value
  | .double value => Decimal.Layout.json.write value.value
  | .string value => quoted value
  | .array items => '[' :: compactItems items ++ [']']
  | .object members => '\x7b' :: compactMembers members ++ ['\x7d']

/-- The texts of documents, with commas between them. -/
def compactItems : List Json → Text
  | [] => []
  | [item] => compact item
  | item :: rest => compact item ++ ',' :: compactItems rest

/-- The texts of members, with commas between them. -/
def compactMembers : List (Text × Json) → Text
  | [] => []
  | [(key, value)] => quoted key ++ ':' :: compact value
  | (key, value) :: rest => quoted key ++ ':' :: compact value ++ ',' :: compactMembers rest

end

end Assertions.Json
