/-!
# UTF-8

Reading UTF-8, octet by octet. The reader stands either between two characters or inside one, and inside one it knows which
octets may come next, so that overlong forms, surrogates and code points above U+10FFFF are refused at their second octet. A
refusal names the octets that are at fault: the first one alone when no character starts with it, and otherwise the octets of
the character up to the one that cannot follow, or up to the end of the text.
-/

namespace Brainfuck.Utf8

/-- Why a sequence of octets is not UTF-8. -/
inductive Reason where
  | invalidStart | invalidContinuation | unexpectedEnd
  deriving DecidableEq, Repr

/-- The reason in words. -/
def Reason.message : Reason → String
  | .invalidStart => "invalid start byte"
  | .invalidContinuation => "invalid continuation byte"
  | .unexpectedEnd => "unexpected end of data"

/-- The octets that cannot be read: the first of them, where it stands, how many there are, and the reason. -/
structure Fault where
  octet : UInt8
  position : Nat
  length : Nat
  reason : Reason
  deriving DecidableEq, Repr

/-- An unfinished character: its first octet and that octet's position, the octets taken, the octets still owed, the least and
the greatest octet that may come next, and the bits read so far. -/
structure Unfinished where
  octet : UInt8
  position : Nat
  taken : Nat
  owed : Nat
  low : UInt8
  high : UInt8
  bits : Nat
  deriving DecidableEq, Repr

/-- What one octet does: it ends a character, it leaves one unfinished, or no character has it at this place. -/
inductive Progress where
  | char (c : Char)
  | more (u : Unfinished)
  | refused
  deriving DecidableEq, Repr

/-- The first octet of a character, which stands at `position`. -/
def start (position : Nat) (b : UInt8) : Progress :=
  let more (owed : Nat) (low high bits : UInt8) : Progress := .more ⟨b, position, 1, owed, low, high, bits.toNat⟩
  if b < 0x80 then .char (Char.ofNat b.toNat)
  else if b < 0xC2 then .refused
  else if b < 0xE0 then more 1 0x80 0xBF (b - 0xC0)
  else if b = 0xE0 then more 2 0xA0 0xBF 0
  else if b = 0xED then more 2 0x80 0x9F (b - 0xE0)
  else if b < 0xF0 then more 2 0x80 0xBF (b - 0xE0)
  else if b = 0xF0 then more 3 0x90 0xBF 0
  else if b < 0xF4 then more 3 0x80 0xBF (b - 0xF0)
  else if b = 0xF4 then more 3 0x80 0x8F (b - 0xF0)
  else .refused

/-- A further octet of an unfinished character. -/
def Unfinished.continue (u : Unfinished) (b : UInt8) : Progress :=
  if u.low ≤ b ∧ b ≤ u.high then
    let bits := 64 * u.bits + (b - 0x80).toNat
    if u.owed ≤ 1 then .char (Char.ofNat bits)
    else .more { u with taken := u.taken + 1, owed := u.owed - 1, low := 0x80, high := 0xBF, bits := bits }
  else .refused

/-- The fault of an unfinished character that cannot go on. -/
def Unfinished.fault (u : Unfinished) (reason : Reason) : Fault := ⟨u.octet, u.position, u.taken, reason⟩

/-- The characters of the octets from `position` on, given the unfinished character before them, if any. -/
def decodeFrom : Nat → Option Unfinished → List UInt8 → Except Fault (List Char)
  | _, none, [] => .ok []
  | _, some u, [] => .error (u.fault .unexpectedEnd)
  | position, none, b :: rest =>
    match start position b with
    | .char c => (decodeFrom (position + 1) none rest).map (c :: ·)
    | .more u => decodeFrom (position + 1) (some u) rest
    | .refused => .error ⟨b, position, 1, .invalidStart⟩
  | position, some u, b :: rest =>
    match u.continue b with
    | .char c => (decodeFrom (position + 1) none rest).map (c :: ·)
    | .more u' => decodeFrom (position + 1) (some u') rest
    | .refused => .error (u.fault .invalidContinuation)

/-- The characters of octets that are UTF-8 throughout, or the first fault in them. -/
def decode (octets : List UInt8) : Except Fault (List Char) := decodeFrom 0 none octets

/-- The character that stands for octets that cannot be read. -/
def replacement : Char := Char.ofNat 0xFFFD

/-- The characters of any octets, with one replacement character for each fault. -/
def decodeLossyFrom : Option Unfinished → List UInt8 → List Char
  | none, [] => []
  | some _, [] => [replacement]
  | none, b :: rest =>
    match start 0 b with
    | .char c => c :: decodeLossyFrom none rest
    | .more u => decodeLossyFrom (some u) rest
    | .refused => replacement :: decodeLossyFrom none rest
  | some u, b :: rest =>
    match u.continue b with
    | .char c => c :: decodeLossyFrom none rest
    | .more u' => decodeLossyFrom (some u') rest
    | .refused =>
      match start 0 b with
      | .char c => replacement :: c :: decodeLossyFrom none rest
      | .more u' => replacement :: decodeLossyFrom (some u') rest
      | .refused => replacement :: replacement :: decodeLossyFrom none rest

/-- The characters of any octets, with one replacement character for each fault. -/
def decodeLossy (octets : List UInt8) : List Char := decodeLossyFrom none octets

end Brainfuck.Utf8
