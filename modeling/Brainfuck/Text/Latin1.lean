/-!
# Bytes as characters

The one-to-one reading of bytes as the characters U+0000 to U+00FF, in which the input and output of programs are written as
text.
-/

namespace Brainfuck

/-- The character that stands for a byte. -/
def charOfByte (b : UInt8) : Char := Char.ofNat b.toNat

/-- The byte that a character stands for, and none above U+00FF. -/
def byteOfChar? (c : Char) : Option UInt8 :=
  if c.toNat < 256 then some (UInt8.ofNat c.toNat) else none

/-- Bytes as text. -/
def textOfBytes (bytes : List UInt8) : String := String.ofList (bytes.map charOfByte)

/-- The bytes that a text stands for, and none if it has a character above U+00FF. -/
def bytesOfText? (text : String) : Option (List UInt8) := text.toList.mapM byteOfChar?

theorem toNat_charOfByte (b : UInt8) : (charOfByte b).toNat = b.toNat := by
  have h : b.toNat.isValidChar := Or.inl (by have := b.toNat_lt; omega)
  rw [charOfByte, Char.ofNat, dif_pos h]
  rfl

theorem byteOfChar?_charOfByte (b : UInt8) : byteOfChar? (charOfByte b) = some b := by
  have hb : b.toNat < 256 := b.toNat_lt
  simp [byteOfChar?, toNat_charOfByte, hb]

/-- Bytes written as text are read back. -/
theorem bytesOfText?_textOfBytes (bytes : List UInt8) : bytesOfText? (textOfBytes bytes) = some bytes := by
  simp only [bytesOfText?, textOfBytes, String.toList_ofList]
  induction bytes with
  | nil => rfl
  | cons b bytes ih => simp [List.mapM_cons, byteOfChar?_charOfByte, ih]

end Brainfuck
