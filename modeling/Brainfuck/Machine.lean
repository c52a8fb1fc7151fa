import Brainfuck.Program
import Brainfuck.Stream
import Brainfuck.Tape

/-!
# The machine

A machine is a tape with an input and an output stream. It also holds a capacity, the number of cells that its tape gets when it
is reset; between resets the two may differ, and what wraps the cursor is the length of the tape.

The module gives the effect of one token (`Machine.exec`). A token either lets the run go on, with the machine after it and the
index of the token to go on with, or fails. As long as there is a cell under the cursor, a token that fails leaves the machine as
it was (`Machine.exec_failed`). A loop token that has no target fails only when its jump is taken.
-/

namespace Brainfuck

/-- Why a run stops before the end of its program. The last two causes need a tape or a cursor that was set by hand: no cell is
under the cursor, or the cursor is to move on a tape without cells. -/
inductive RuntimeError where
  | inputExhausted
  | inputNotReady
  | outputFull
  | unresolvedJump (index : Nat)
  | cursorOffTape (index : Int)
  | emptyTape
  deriving DecidableEq, Repr

/-- Why a tape cannot be made: a new machine has at least one cell, and no tape has fewer than none. -/
inductive TapeError where
  | noCells
  | negativeLength
  deriving DecidableEq, Repr

/-- A machine: the capacity of its next blank tape, the tape, and the two streams. -/
structure Machine where
  capacity : Int
  tape : Tape
  input : InputStream := {}
  output : OutputStream := {}
  deriving DecidableEq, Repr

/-- What the execution of one token comes to. -/
inductive Step where
  | next (machine : Machine) (index : Nat)
  | failed (machine : Machine) (cause : RuntimeError)
  deriving DecidableEq, Repr

namespace Machine

/-- The number of cells of a machine if none is given. -/
def defaultCapacity : Int := 30000

/-- A machine with a blank tape and empty streams. -/
def create (capacity : Int) : Except TapeError Machine :=
  if capacity < 1 then .error .noCells else .ok { capacity := capacity, tape := Tape.blank capacity.toNat }

/-- The machine with a blank tape of its capacity, of no cells if that is negative. The streams stay. -/
def cleared (m : Machine) : Machine := { m with tape := Tape.blank m.capacity.toNat }

/-- The machine with a blank tape of its capacity, if there is such a tape. -/
def reset (m : Machine) : Except TapeError Machine :=
  if m.capacity < 0 then .error .negativeLength else .ok m.cleared

/-- The machine with new streams: the bytes to read, and an empty output. -/
def feed (m : Machine) (bytes : List UInt8) : Machine :=
  { m with input := { pending := bytes }, output := {} }

/-- Adding to the cell under the cursor. -/
def add (m : Machine) (index : Nat) (delta : Int) : Step :=
  if m.tape.onCell then .next { m with tape := m.tape.add delta } (index + 1) else .failed m (.cursorOffTape m.tape.cursor)

/-- Moving the cursor. -/
def move (m : Machine) (index : Nat) (shift : Int) : Step :=
  if m.tape.length = 0 then .failed m .emptyTape else .next { m with tape := m.tape.move shift } (index + 1)

/-- A jump from the token at `index`: behind its target, if it has one. -/
def jump (m : Machine) (index : Nat) : Option Numeral → Step
  | some target => .next m (target.toNat + 1)
  | none => .failed m (.unresolvedJump index)

/-- A loop token, which jumps if the byte in the cell under the cursor asks for it. -/
def branch (m : Machine) (index : Nat) (target : Option Numeral) (jumps : UInt8 → Bool) : Step :=
  if m.tape.onCell then
    if jumps m.tape.cell then m.jump index target else .next m (index + 1)
  else .failed m (.cursorOffTape m.tape.cursor)

/-- Reading a byte into the cell under the cursor. The byte is taken from the input before the cell is looked for. -/
def read (m : Machine) (index : Nat) : Step :=
  if m.input.isDown then .failed m .inputNotReady
  else
    match m.input.pending with
    | [] => .failed m .inputExhausted
    | b :: rest =>
      let input := { m.input with pending := rest, consumed := m.input.consumed + 1 }
      if m.tape.onCell then .next { m with tape := m.tape.write b, input := input } (index + 1)
      else .failed { m with input := input } (.cursorOffTape m.tape.cursor)

/-- Writing the byte in the cell under the cursor. -/
def write (m : Machine) (index : Nat) : Step :=
  if m.tape.onCell then
    if m.output.isFull then .failed m .outputFull
    else .next { m with output := m.output.push m.tape.cell } (index + 1)
  else .failed m (.cursorOffTape m.tape.cursor)

/-- The execution of the token at `index`. -/
def exec (m : Machine) (index : Nat) : Token → Step
  | .increment n => m.add index n.toNat
  | .decrement n => m.add index (-n.toNat)
  | .moveRight n => m.move index n.toNat
  | .moveLeft n => m.move index (-n.toNat)
  | .loopStart target => m.branch index target (· == 0)
  | .loopEnd target => m.branch index target (· != 0)
  | .output _ => m.write index
  | .input _ => m.read index
  | .noOp _ => .next m (index + 1)

/-! ## Helpers: what a token keeps -/

/-- A token that fails leaves the machine as it was, if there is a cell under the cursor. -/
theorem exec_failed {m m' : Machine} {index : Nat} {t : Token} {cause : RuntimeError} (hm : m.tape.onCell = true)
    (h : m.exec index t = .failed m' cause) : m' = m := by
  unfold exec add move branch jump read write at h
  grind

/-- A token keeps the cursor of the tape in range. -/
theorem inRange_of_exec {m m' : Machine} {index index' : Nat} {t : Token} (hm : m.tape.InRange)
    (h : m.exec index t = .next m' index') : m'.tape.InRange := by
  have hadd := hm.add
  have hwrite := hm.write
  have hmove := Tape.inRange_move hm.length_pos
  unfold exec add move branch jump read write at h
  grind

/-- A token keeps the capacity. -/
theorem capacity_of_exec {m m' : Machine} {index index' : Nat} {t : Token} (h : m.exec index t = .next m' index') :
    m'.capacity = m.capacity := by
  unfold exec add move branch jump read write at h
  grind

/-- A token that fails keeps the capacity. -/
theorem capacity_of_exec_failed {m m' : Machine} {index : Nat} {t : Token} {cause : RuntimeError}
    (h : m.exec index t = .failed m' cause) : m'.capacity = m.capacity := by
  unfold exec add move branch jump read write at h
  grind

/-! ## Helpers: new machines and new streams -/

/-- A new machine has the capacity that was asked for and a blank tape of as many cells. -/
theorem create_eq_ok_iff {m : Machine} {capacity : Int} :
    Machine.create capacity = .ok m ↔ 1 ≤ capacity ∧ m = ⟨capacity, .blank capacity.toNat, {}, {}⟩ := by
  unfold create
  by_cases h : capacity < 1
  · have hnot : ¬ 1 ≤ capacity := by omega
    simp [h, hnot]
  · have hcells : 1 ≤ capacity := by omega
    simp [h, hcells, eq_comm]

/-- New streams leave nothing of a machine but its tape and its capacity. -/
theorem feed_congr {m m' : Machine} (htape : m.tape = m'.tape) (hcapacity : m.capacity = m'.capacity)
    (bytes : List UInt8) : m.feed bytes = m'.feed bytes := by
  rw [feed, feed, htape, hcapacity]

end Machine

end Brainfuck
