import Brainfuck.Json.Reader

/-!
# The encoding of a JSON text

A JSON text may be sent in UTF-8, UTF-16 or UTF-32. It begins with an ASCII character, so the zeros among its first octets give
the width of the code units and their order away. UTF-8 is what is left if they do not, and there a byte order mark in front of
the text does not count. Halves of surrogate pairs may stand alone in the two other encodings; in UTF-32 they always do.
-/

namespace Brainfuck.Json

/-- How a text is encoded: in UTF-8, or in units of two or four octets with the most significant octet first or last. -/
inductive Encoding where
  | utf8
  | utf16 (bigEndian : Bool)
  | utf32 (bigEndian : Bool)
  deriving DecidableEq, Repr

/-- The encoding of a text, by its first octets, of which four are given if there are as many. -/
def Encoding.ofStart : List UInt8 → Encoding
  | [a, b, c, d] =>
    if a = 0 then (if b = 0 then .utf32 true else .utf16 true)
    else if b = 0 then (if c = 0 ∧ d = 0 then .utf32 false else .utf16 false)
    else .utf8
  | [a, b] => if a = 0 then .utf16 true else if b = 0 then .utf16 false else .utf8
  | _ => .utf8

/-- The code units of two octets each, if no octet is left over. -/
def units16? (bigEndian : Bool) : List UInt8 → Option (List Nat)
  | [] => some []
  | [_] => none
  | a :: b :: rest =>
    let unit := if bigEndian then 256 * a.toNat + b.toNat else 256 * b.toNat + a.toNat
    (units16? bigEndian rest).map (unit :: ·)

/-- The code units of four octets each, if no octet is left over. -/
def units32? (bigEndian : Bool) : List UInt8 → Option (List Nat)
  | [] => some []
  | a :: b :: c :: d :: rest =>
    let value (octets : List UInt8) : Nat := octets.foldl (fun n octet => 256 * n + octet.toNat) 0
    let unit := if bigEndian then value [a, b, c, d] else value [d, c, b, a]
    (units32? bigEndian rest).map (unit :: ·)
  | _ => none

/-- What a code point is in a text that is read: a character or the place of half of a surrogate pair. There is none beyond the
last code point. -/
def glyphOfCode? (code : Nat) : Option (Option Char) :=
  if 0x110000 ≤ code then none
  else if 0xD800 ≤ code ∧ code < 0xE000 then some none
  else some (some (Char.ofNat code))

/-- The code points of UTF-16 code units. Halves of surrogate pairs that stand alone are left as they are. -/
def joinPairs : List Nat → List Nat
  | high :: low :: rest =>
    if 0xD800 ≤ high ∧ high < 0xDC00 ∧ 0xDC00 ≤ low ∧ low < 0xE000 then
      (0x10000 + 0x400 * (high - 0xD800) + (low - 0xDC00)) :: joinPairs rest
    else high :: joinPairs (low :: rest)
  | codes => codes

/-- A text that is sent as UTF-8, read in the encoding that its first octets give away, if it has one. -/
def decodeText? (sent : String) : Option Glyphs :=
  let octets := sent.toUTF8
  match Encoding.ofStart (octets.extract 0 4).toList with
  | .utf8 => some (match sent.toList with
    | '\uFEFF' :: rest => rest.map some
    | text => text.map some)
  | .utf16 bigEndian => (units16? bigEndian octets.toList).bind (fun units => (joinPairs units).mapM glyphOfCode?)
  | .utf32 bigEndian => (units32? bigEndian octets.toList).bind (fun units => units.mapM glyphOfCode?)

/-- The value that a text writes, if it can be decoded and writes one and nothing else. -/
def ofText (sent : String) : Except ReadError Json :=
  match decodeText? sent with
  | none => .error .refused
  | some text => ofGlyphs text

end Brainfuck.Json
