import Brainfuck.Text.Hex
import Brainfuck.Text.Utf8

/-!
# Percent-encoding

The text behind a percent-encoded one: each `%` with two hexadecimal digits is an octet, every other character stands for its
own UTF-8 octets, and the octets together are read as UTF-8, faults replaced.
-/

namespace Brainfuck.Percent

/-- The octets of a percent-encoded text. A `%` without two hexadecimal digits stands for itself. -/
def octets : List Char → List UInt8
  | [] => []
  | [c] => String.utf8EncodeChar c
  | [c, d] => String.utf8EncodeChar c ++ String.utf8EncodeChar d
  | c :: h :: l :: rest =>
    match c, hexDigit? h, hexDigit? l with
    | '%', some high, some low => UInt8.ofNat (16 * high + low) :: octets rest
    | _, _, _ => String.utf8EncodeChar c ++ octets (h :: l :: rest)

/-- The text behind a percent-encoded one. -/
def decode (text : List Char) : List Char := Utf8.decodeLossy (octets text)

end Brainfuck.Percent
