/-!
# Input and output streams

The two ends of a machine. An input stream gives its bytes one by one and counts those it gave; an output stream collects the
bytes written to it. Either may be told to fail once a number of bytes has passed through it, as a device does that is not ready
or is full.
-/

namespace Brainfuck

/-- A stream of input bytes: those still to come, the number of those given, and after how many bytes reading fails, if ever. -/
structure InputStream where
  pending : List UInt8 := []
  consumed : Nat := 0
  failAfter : Option Nat := none
  deriving DecidableEq, Repr

/-- A stream of output bytes: those written, and after how many bytes writing fails, if ever. -/
structure OutputStream where
  written : Array UInt8 := #[]
  failAfter : Option Nat := none
  deriving DecidableEq, Repr

/-- A count has come to the limit, if there is one. -/
def reached (limit : Option Nat) (count : Nat) : Bool :=
  match limit with
  | some n => n ≤ count
  | none => false

/-- The input stream fails on the next read, whether or not it has bytes left. -/
def InputStream.isDown (s : InputStream) : Bool := reached s.failAfter s.consumed

/-- The output stream fails on the next write. -/
def OutputStream.isFull (s : OutputStream) : Bool := reached s.failAfter s.written.size

/-- The output stream with one more byte. -/
def OutputStream.push (s : OutputStream) (b : UInt8) : OutputStream := { s with written := s.written.push b }

end Brainfuck
