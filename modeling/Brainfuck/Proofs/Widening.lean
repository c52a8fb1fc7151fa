import Brainfuck.Proofs.Handling
import Brainfuck.Proofs.Lockstep

/-!
# More cells

The length of a tape matters only where the cursor goes round. A run that never takes it round (`Machine.NeverWraps`) is the same run
on a tape that has more cells behind, whatever is in them (`sameThrough_widen`): it sees none of these cells and changes none.
-/

namespace Brainfuck

/-! ## The wider tape -/

namespace Tape

variable {t : Tape} {more : Array UInt8}

/-- The tape with more cells behind its own. -/
def widen (more : Array UInt8) (t : Tape) : Tape := { t with cells := t.cells ++ more }

theorem length_widen : (t.widen more).length = t.length + more.size := Array.size_append

theorem InRange.widen (h : t.InRange) (more : Array UInt8) : (t.widen more).InRange := by
  refine ⟨h.1, Int.lt_of_lt_of_le h.2 ?_⟩
  rw [length_widen]
  omega

/-- A tape is carried over to the wider one. -/
theorem carriedBy_widen (h : t.InRange) (more : Array UInt8) : t.CarriedBy (widen more) where
  inRange := h.widen more
  cell := by
    have hslot : t.cursor.toNat < t.cells.size := h.slot_cursor ▸ t.slot_lt h.onCell
    have hfirst : (t.widen more).cells[t.cursor.toNat]? = t.cells[t.cursor.toNat]? := Array.getElem?_append_left hslot
    have hcell := (h.widen more).getElem?_cursor
    rw [show (t.widen more).cursor = t.cursor from rfl, hfirst, h.getElem?_cursor] at hcell
    exact (Option.some.inj hcell).symm
  write := by
    intro b
    have hslot : t.cursor.toNat < t.cells.size := h.slot_cursor ▸ t.slot_lt h.onCell
    have hcells := @Array.setIfInBounds_append _ t.cells more t.cursor.toNat b
    rw [if_pos hslot] at hcells
    rw [write, write, h.slot_cursor, (h.widen more).slot_cursor]
    exact congrArg (Tape.mk · t.cursor) hcells.symm

/-- A move that stays on the tape is the same move on the wider one. -/
theorem widen_move {shift : Int} (h : (t.place (t.cursor + shift)).InRange) :
    (t.move shift).widen more = (t.widen more).move shift := by
  have hcursor : (t.cursor + shift) % t.length = t.cursor + shift := Int.emod_eq_of_lt h.1 h.2
  have hcursor' : (t.cursor + shift) % (t.widen more).length = t.cursor + shift := Int.emod_eq_of_lt h.1 (h.widen more).2
  rw [move, move, hcursor, show (t.widen more).cursor = t.cursor from rfl, hcursor']
  rfl

end Tape

/-! ## Runs that do not go round -/

namespace Machine

/-- The machine with more cells behind those of its tape, and with any capacity. -/
def widen (capacity : Int) (more : Array UInt8) (m : Machine) : Machine := m.refit (fun _ => capacity) (Tape.widen more)

/-- No move that a run comes to takes the cursor round: the place it leads to, counted without going round, is that of a cell. -/
def NeverWraps (tokens : List Token) (m : Machine) : Prop :=
  ∀ n p t shift, Point.after? tokens n ⟨m, 0⟩ = some p → tokens[p.index]? = some t → t.shift? = some shift →
    (p.machine.tape.place (p.machine.tape.cursor + shift)).InRange

/-- A run that gets no further than a point never wraps if it does not do so before. -/
theorem neverWraps_of_after? {tokens : List Token} {m : Machine} {k : Nat} (hend : Point.after? tokens k ⟨m, 0⟩ = none)
    (h : ∀ n < k, ∀ p ∈ Point.after? tokens n ⟨m, 0⟩, ∀ t ∈ tokens[p.index]?, ∀ shift ∈ t.shift?,
      (p.machine.tape.place (p.machine.tape.cursor + shift)).InRange) : m.NeverWraps tokens := by
  intro n p t shift hp ht hshift
  by_cases hlt : n < k
  · exact h n hlt p hp t ht shift hshift
  · obtain ⟨j, rfl⟩ := Nat.exists_eq_add_of_le (Nat.le_of_not_lt hlt)
    rw [Point.after?_add, hend] at hp
    cases hp

/-- A run keeps the number of cells. -/
theorem length_of_run {tokens : List Token} {m m' : Machine} {steps : Nat} {o : Outcome} (hm : m.tape.InRange)
    (h : m.run steps tokens = some (m', o)) : m'.tape.length = m.tape.length := by
  obtain ⟨n, p, hp, -, rfl⟩ := Point.exists_after?_of_run hm h
  exact Point.rel_of_after? (R := fun m m' => m'.tape.length = m.tape.length) (fun _ => rfl) (fun h h' => h'.trans h)
    length_of_exec hp

end Machine

/-- A run that never takes the cursor round is the same run on a tape with more cells. It has the same points and the same end, so it
ends or does not end as the other does; and at the end the outcome, the streams and the cursor are the same, the first cells are those
of the shorter tape, and the others are as they were. -/
theorem sameThrough_widen {tokens : List Token} {m : Machine} (hm : m.tape.InRange) (h : m.NeverWraps tokens) (capacity : Int)
    (more : Array UInt8) :
    m.SameThrough (Machine.widen capacity more) tokens tokens ∧
      ∀ steps r o, m.run steps tokens = some (r, o) → r.tape.length = m.tape.length ∧
        ∃ r', (m.widen capacity more).run steps tokens = some (r', o) ∧ r'.input = r.input ∧ r'.output = r.output ∧
          r'.tape.cursor = r.tape.cursor ∧ r'.tape.cells = r.tape.cells ++ more := by
  have hsame : m.SameThrough (Machine.widen capacity more) tokens tokens := by
    refine Machine.sameThrough_of_inStep ?_
    intro n p hp
    refine Point.inStep_self_of_exec ?_
    intro t ht
    have hin : p.machine.tape.InRange := @Point.inRange_of_after? _ _ ⟨m, 0⟩ _ hm hp
    refine Machine.exec_refit hin (Tape.carriedBy_widen hin more) (fun _ => rfl) ?_ p.index
    intro shift hshift
    exact ⟨shift, hshift, Tape.widen_move (h n p t shift hp ht hshift)⟩
  refine ⟨hsame, ?_⟩
  intro steps r o hrun
  refine ⟨Machine.length_of_run hm hrun, r.widen capacity more, ?_, rfl, rfl, rfl, rfl⟩
  rw [hsame.2, hrun]
  rfl

/-- The program `+[->+++<].` moves between the two cells of a tape and never round it. With two more cells behind, which hold 7 and 8,
it does the same. -/
theorem sameThrough_widen_loop :
    let tokens : List Token := [.increment (.nat 1), .loopStart (some (.nat 6)), .decrement (.nat 1), .moveRight (.nat 1),
      .increment (.nat 3), .moveLeft (.nat 1), .loopEnd (some (.nat 1)), .output .null]
    let m : Machine := ⟨2, .blank 2, {}, {}⟩
    m.tape.InRange ∧ m.NeverWraps tokens ∧
      ∃ r, (m.widen 4 #[7, 8]).run 9 tokens = some (r, .finished) ∧ r.tape.cursor = 0 ∧ r.tape.cells = #[0, 3, 7, 8] ∧
        r.output = ⟨#[0], none⟩ := by
  intro tokens m
  have hm : m.tape.InRange := by decide
  have hwraps : m.NeverWraps tokens := Machine.neverWraps_of_after? (k := 9) (by decide +kernel) (by decide +kernel)
  obtain ⟨-, hends⟩ := sameThrough_widen hm hwraps 4 #[7, 8]
  have hrun : m.run 9 tokens = some (⟨2, ⟨#[0, 3], 0⟩, {}, ⟨#[0], none⟩⟩, .finished) := by decide +kernel
  obtain ⟨-, r, hrun', -, houtput, hcursor, hcells⟩ := hends 9 _ .finished hrun
  exact ⟨hm, hwraps, r, hrun', hcursor, hcells, houtput⟩

end Brainfuck
