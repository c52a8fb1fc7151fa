import Brainfuck.Store
import Brainfuck.Text.Quoted

/-!
# Messages

The wording of everything that can go wrong with a token, a program, a machine or a store of machines.
-/

namespace Brainfuck

/-- The wording of a token that cannot be made. -/
def TokenError.message : TokenError → String
  | .unknownKind name => quoted name ++ " is not a valid TokenKind"
  | .badCount kind => kind.name ++ " count must be a non-negative int"
  | .badTarget kind => kind.name ++ " target must be a token index"

/-- The wording of a loop token without a partner. -/
def UnmatchedLoop.message (e : UnmatchedLoop) : String := s!"Unclosed loop at token {e.index}"

/-- The wording of an index without a cell; one that does not fit into 64 bits is not even looked up. -/
def noCellMessage (index : Int) : String :=
  if -wholeBound ≤ index ∧ index < wholeBound then "bytearray index out of range"
  else "cannot fit 'int' into an index-sized integer"

/-- The wording of a failed run. -/
def RuntimeError.message : RuntimeError → String
  | .inputExhausted => "Input stream exhausted"
  | .inputNotReady => "Failed to read input: device not ready"
  | .outputFull => "Failed to write output: disk full"
  | .unresolvedJump index => s!"Loop token at {index} has no resolved jump target"
  | .cursorOffTape index => noCellMessage index
  | .emptyTape => "integer modulo by zero"

/-- The wording of a tape that cannot be made. -/
def TapeError.message : TapeError → String
  | .noCells => "Tape capacity must be at least one cell"
  | .negativeLength => "negative count"

/-- The wording of a cell that cannot be set by hand. -/
def PokeError.message : PokeError → String
  | .notAByte => "byte must be in range(0, 256)"
  | .noSuchCell index => noCellMessage index

/-- The wording of an identifier that no machine has. -/
def UnknownMachine.message (e : UnknownMachine) : String := "Unknown machine id: " ++ e.id

end Brainfuck
