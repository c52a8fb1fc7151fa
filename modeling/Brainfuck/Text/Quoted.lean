import Brainfuck.Text.Hex
import Brainfuck.Text.Printable

/-!
# Quoted text

How a message shows a piece of text that somebody typed: between quotes and with every character that would not print written
as an escape, so that the text can be read back from the message. The quotes are single unless the text has a single quote and
no double one.
-/

namespace Brainfuck

/-- The quote that goes around a text: the double one if the text holds the single one and not the double one. -/
def quoteFor (text : List Char) : Char :=
  if text.contains '\'' && !text.contains '"' then '"' else '\''

/-- A code point as an escape: two, four or eight hexadecimal digits, whichever is the fewest that hold it. -/
def codeEscape (n : Nat) : List Char :=
  if n < 0x100 then '\\' :: 'x' :: hex 2 n
  else if n < 0x10000 then '\\' :: 'u' :: hex 4 n
  else '\\' :: 'U' :: hex 8 n

/-- One character between quotes `q`. -/
def quotedChar (q c : Char) : List Char :=
  if c = q ∨ c = '\\' then ['\\', c]
  else if c = '\t' then ['\\', 't']
  else if c = '\n' then ['\\', 'n']
  else if c = '\r' then ['\\', 'r']
  else if isPrintable c then [c]
  else codeEscape c.toNat

/-- A text in quotes. -/
def quoted (text : String) : String :=
  let q := quoteFor text.toList
  String.ofList (q :: text.toList.flatMap (quotedChar q) ++ [q])

end Brainfuck
