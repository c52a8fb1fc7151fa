/-!
# The tape

A ring of cells, each of one byte, with a cursor. Arithmetic on a cell is modulo 256 and moves of the cursor are modulo the
length. The cursor of a tape in use is on one of its cells (`Tape.InRange`), and the operations of a program keep it there.

By hand the cursor may be put anywhere, and then it stays where it is until the next move takes it modulo the length. An index
below zero counts from the end of the tape, for the cursor as well as for a cell that is set by hand. An index that is in neither
way one of a cell has no cell (`Tape.hasCell`), and a tape of length zero has none at all.
-/

namespace Brainfuck

/-- A tape: its cells and the index of the cell under the cursor. -/
structure Tape where
  cells : Array UInt8
  cursor : Int
  deriving DecidableEq, Repr

/-- Why a cell cannot be set by hand. -/
inductive PokeError where
  | notAByte
  | noSuchCell (index : Int)
  deriving DecidableEq, Repr

namespace Tape

/-- A tape of zeros with the cursor on the first. -/
def blank (length : Nat) : Tape where
  cells := Array.replicate length 0
  cursor := 0

/-- The number of cells. -/
def length (t : Tape) : Nat := t.cells.size

/-- The cursor is the index of a cell, counted from the start. -/
def InRange (t : Tape) : Prop := 0 ≤ t.cursor ∧ t.cursor < t.length

instance (t : Tape) : Decidable t.InRange := inferInstanceAs (Decidable (_ ∧ _))

/-- An index is that of a cell, counted from the start or, below zero, from the end. -/
def hasCell (t : Tape) (index : Int) : Bool := -t.length ≤ index && index < t.length

/-- The index from the start of the cell that an index means. -/
def slot (t : Tape) (index : Int) : Nat := if index < 0 then (index + t.length).toNat else index.toNat

/-- There is a cell under the cursor. -/
def onCell (t : Tape) : Bool := t.hasCell t.cursor

/-- The byte in the cell under the cursor. -/
def cell (t : Tape) : UInt8 := t.cells.getD (t.slot t.cursor) 0

/-- The tape with a byte written to the cell under the cursor. -/
def write (t : Tape) (b : UInt8) : Tape := { t with cells := t.cells.setIfInBounds (t.slot t.cursor) b }

/-- The tape with a number added to the cell under the cursor. -/
def add (t : Tape) (delta : Int) : Tape :=
  t.write (UInt8.ofNat (((t.cell.toNat : Int) + delta) % 256).toNat)

/-- The tape with the cursor moved by a number of cells to the right. -/
def move (t : Tape) (shift : Int) : Tape := { t with cursor := (t.cursor + shift) % t.length }

/-- The tape with the cursor put anywhere. -/
def place (t : Tape) (index : Int) : Tape := { t with cursor := index }

/-- The tape with a number written to the cell of an index, if the number is a byte and there is such a cell. -/
def poke (t : Tape) (index value : Int) : Except PokeError Tape :=
  if value < 0 ∨ 256 ≤ value then .error .notAByte
  else if t.hasCell index then .ok { t with cells := t.cells.setIfInBounds (t.slot index) (UInt8.ofNat value.toNat) }
  else .error (.noSuchCell index)

/-- The cells that are not zero, with their indices, in order. -/
def nonZero (t : Tape) : List (Nat × UInt8) :=
  (t.cells.toList.zipIdx.filter (fun c => c.1 ≠ 0)).map (fun c => (c.2, c.1))

/-- The cells from one index up to another, which is not included. -/
def slice (t : Tape) (first last : Nat) : List UInt8 := (t.cells.extract first last).toList

/-! ## Helpers: what the operations keep -/

@[simp] theorem length_blank (length : Nat) : (blank length).length = length := by simp [blank, Tape.length]

@[simp] theorem length_write (t : Tape) (b : UInt8) : (t.write b).length = t.length := by simp [write, Tape.length]

@[simp] theorem length_add (t : Tape) (delta : Int) : (t.add delta).length = t.length := by simp [add]

@[simp] theorem length_move (t : Tape) (shift : Int) : (t.move shift).length = t.length := rfl

@[simp] theorem cursor_write (t : Tape) (b : UInt8) : (t.write b).cursor = t.cursor := rfl

@[simp] theorem cursor_add (t : Tape) (delta : Int) : (t.add delta).cursor = t.cursor := rfl

@[simp] theorem cells_move (t : Tape) (shift : Int) : (t.move shift).cells = t.cells := rfl

/-- The cell that an index means is one of the tape. -/
theorem slot_lt (t : Tape) {index : Int} (h : t.hasCell index = true) : t.slot index < t.length := by
  have h' : -(t.length : Int) ≤ index ∧ index < t.length := by simpa [hasCell] using h
  rw [slot]
  split <;> omega

/-- A cursor in range is on a cell. -/
theorem InRange.onCell {t : Tape} (h : t.InRange) : t.onCell = true := by
  simp only [InRange] at h
  simp only [Tape.onCell, hasCell, Bool.and_eq_true, decide_eq_true_eq]
  omega

/-- A cursor in range is the index of its cell. -/
theorem InRange.slot_cursor {t : Tape} (h : t.InRange) : t.slot t.cursor = t.cursor.toNat := by
  simp only [InRange] at h
  rw [slot, if_neg (by omega)]

/-- A tape whose cursor is in range has a cell. -/
theorem InRange.length_pos {t : Tape} (h : t.InRange) : 0 < t.length := by
  simp only [InRange] at h
  omega

theorem inRange_blank {length : Nat} (h : 0 < length) : (blank length).InRange := by
  simp [InRange, blank, Tape.length, h]

theorem InRange.write {t : Tape} (h : t.InRange) (b : UInt8) : (t.write b).InRange := by
  simpa [InRange] using h

theorem InRange.add {t : Tape} (h : t.InRange) (delta : Int) : (t.add delta).InRange := h.write _

/-- A move puts the cursor in range, wherever it was, if there is a cell at all. -/
theorem inRange_move {t : Tape} (h : 0 < t.length) (shift : Int) : (t.move shift).InRange := by
  have hpos : (0 : Int) < t.length := by omega
  exact ⟨Int.emod_nonneg _ (Int.ne_of_gt hpos), Int.emod_lt_of_pos (t.cursor + shift) hpos⟩

/-- What is written to the cell under the cursor is in it. -/
theorem cell_write {t : Tape} (h : t.onCell = true) (b : UInt8) : (t.write b).cell = b := by
  have hslot := t.slot_lt h
  have : (t.write b).slot (t.write b).cursor = t.slot t.cursor := by simp [slot]
  rw [cell, this]
  simp [Tape.write, Array.getD, show t.slot t.cursor < t.cells.size from hslot]

/-- What is added to the cell under the cursor is added modulo 256. -/
theorem toNat_cell_add {t : Tape} (h : t.onCell = true) (delta : Int) :
    ((t.add delta).cell.toNat : Int) = ((t.cell.toNat : Int) + delta) % 256 := by
  rw [add, cell_write h, UInt8.toNat_ofNat']
  omega

/-- A cursor in range is the index of the cell that is under it. -/
theorem InRange.getElem?_cursor {t : Tape} (h : t.InRange) : t.cells[t.cursor.toNat]? = some t.cell := by
  have hlt : t.cursor.toNat < t.cells.size := h.slot_cursor ▸ t.slot_lt h.onCell
  rw [cell, h.slot_cursor]
  simp [Array.getD, hlt]

end Tape

end Brainfuck
