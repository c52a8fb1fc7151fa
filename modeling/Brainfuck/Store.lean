import Brainfuck.Machine.Run
import Brainfuck.Text.Hex

/-!
# The store of machines

Machines that live on between requests, each under an identifier. The n-th machine that a store creates gets the number n as 32
hexadecimal digits for its identifier, so no identifier is ever given twice, also not after a machine is removed. A record keeps
with the machine the number of runs since it was created or last reset.
-/

namespace Brainfuck

/-- No machine in the store has this identifier. -/
structure UnknownMachine where
  id : String
  deriving DecidableEq, Repr

/-- A machine in a store: its identifier, the machine, and the number of its runs. -/
structure Record where
  id : String
  machine : Machine
  runs : Nat := 0
  deriving DecidableEq, Repr

/-- A store: the number of machines it has created so far, and the records of those that are live, the oldest first. -/
structure Store where
  created : Nat := 0
  records : List Record := []
  deriving DecidableEq, Repr

/-- Why a run on a stored machine fails. -/
inductive StoreError where
  | unknown (e : UnknownMachine)
  | run (e : RunError)
  deriving DecidableEq, Repr

namespace Store

/-- The identifier of the n-th machine. -/
def idOf (n : Nat) : String := String.ofList (hex 32 n)

/-- The number of live machines. -/
def size (s : Store) : Nat := s.records.length

/-- The record of an identifier, if its machine is live. -/
def get? (s : Store) (id : String) : Option Record := s.records.find? (fun r => r.id == id)

/-- The record of an identifier, or the reason why there is none. -/
def get (s : Store) (id : String) : Except UnknownMachine Record :=
  match s.get? id with
  | some r => .ok r
  | none => .error ⟨id⟩

/-- The store with a new state of a live record. -/
def update (s : Store) (record : Record) : Store :=
  { s with records := s.records.map (fun r => if r.id == record.id then record else r) }

/-- The store with one more machine, and its record. -/
def create (s : Store) (capacity : Int) : Except TapeError (Record × Store) :=
  (Machine.create capacity).map fun machine =>
    let record : Record := { id := idOf (s.created + 1), machine := machine }
    (record, { created := s.created + 1, records := s.records ++ [record] })

/-- The store with a machine's tape blank and its runs counted from zero, and its record. -/
def reset (s : Store) (id : String) : Except UnknownMachine (Record × Store) :=
  (s.get id).map fun r =>
    let record := { r with machine := r.machine.cleared, runs := 0 }
    (record, s.update record)

/-- The store without a machine. -/
def erase (s : Store) (id : String) : Store := { s with records := s.records.filter (fun r => r.id != id) }

/-- Whether there was a machine to remove, and the store without it. -/
def remove (s : Store) (id : String) : Bool × Store := ((s.get? id).isSome, s.erase id)

/-- The store without machines. Identifiers go on from where they were. -/
def clear (s : Store) : Store := { s with records := [] }

/-- A run of a source on a live machine, at most `steps` tokens long. It counts only if it comes to the end of the program; what a
failed run did to the tape stays. -/
def run (steps : Nat) (s : Store) (id : String) (source : List Char) : Option (Store × Except StoreError Record) :=
  match s.get id with
  | .error e => some (s, .error (.unknown e))
  | .ok r =>
    (r.machine.runSource steps {} source).map fun
      | (m, .ok _) =>
        let record := { r with machine := m, runs := r.runs + 1 }
        (s.update record, .ok record)
      | (m, .error e) => (s.update { r with machine := m }, .error (.run e))

/-! ## Helpers: identifiers -/

/-- Two machines have the same identifier only if they are the same in number. -/
theorem idOf_inj {a b : Nat} : idOf a = idOf b ↔ a = b := by
  constructor
  · intro h
    have h' := congrArg (fun s => hexValue s.toList) h
    simpa [idOf, hexValue_hex] using h'
  · rintro rfl
    rfl

end Store

end Brainfuck
