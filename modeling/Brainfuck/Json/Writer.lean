import Brainfuck.Json
import Brainfuck.Text.Hex

/-!
# Writing JSON

A value as JSON text without blanks, its fields in their order. Strings escape the quote, the backslash and the controls, and
write every other character as it is.
-/

namespace Brainfuck.Json

/-- A character inside a string. -/
def writeChar (c : Char) : List Char :=
  if c = '"' ∨ c = '\\' then ['\\', c]
  else if c.toNat < 0x20 then '\\' :: 'u' :: hex 4 c.toNat
  else [c]

/-- A string in quotes. -/
def writeString (text : String) : String :=
  String.ofList ('"' :: text.toList.flatMap writeChar ++ ['"'])

mutual

/-- A value as text. -/
def write : Json → String
  | .null => "null"
  | .bool true => "true"
  | .bool false => "false"
  | .integer n => toString n
  | .decimal x => toString x.mantissa ++ "e" ++ toString x.exponent
  | .nonFinite name => name
  | .string text | .ragged text => writeString text
  | .array items => "[" ++ ",".intercalate (writeItems items) ++ "]"
  | .object fields | .raggedObject fields => "\x7b" ++ ",".intercalate (writeFields fields) ++ "\x7d"

/-- The items of an array as texts. -/
def writeItems : List Json → List String
  | [] => []
  | item :: rest => write item :: writeItems rest

/-- The fields of an object as texts. -/
def writeFields : List (String × Json) → List String
  | [] => []
  | (name, item) :: rest => (writeString name ++ ":" ++ write item) :: writeFields rest

end

end Brainfuck.Json
