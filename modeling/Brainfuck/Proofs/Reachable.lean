import Brainfuck.Proofs.Handling
import Brainfuck.Proofs.History

/-!
# Reachable stores

The stores that the service can get to by answering requests, from an empty one on. On all of them every machine has the cells that
its capacity says, and its cursor is on one of them (`Reachable.fits`). So every machine is in use as a machine should be
(`Record.Sound`): no program on it fails for another reason than a stream, and it can be reset.
-/

namespace Brainfuck

/-- A source that is run leaves a machine fit for use. -/
theorem Machine.fits_of_runSource {m m' : Machine} {steps : Nat} {options : Program.Options} {source : List Char}
    {result : Except RunError Nat} {laid : Int} (hm : m.Fits laid)
    (h : m.runSource steps options source = some (m', result)) : m'.Fits laid := by
  rcases result with (loop | cause) | count
  · obtain ⟨-, rfl⟩ := runSource_eq_some_iff.mp h
    exact hm
  · obtain ⟨tokens, -, hrun⟩ := runSource_eq_some_iff.mp h
    exact (fits_of_run hm hrun).1
  · obtain ⟨tokens, -, hrun, -⟩ := runSource_eq_some_iff.mp h
    exact (fits_of_run hm hrun).1

/-- A machine of a store that is fit for use: its cursor is in range, and its next blank tape has a cell. -/
structure Record.Sound (r : Record) : Prop where
  inRange : r.machine.tape.InRange
  capacity : 1 ≤ r.machine.capacity

/-- A machine that is fit for use can be reset. -/
theorem Record.Sound.reset_eq_ok {r : Record} (hr : r.Sound) : r.machine.reset = .ok r.machine.cleared := by
  have hcapacity := hr.capacity
  rw [Machine.reset, if_neg (by omega)]

namespace Service

/-- The stores that answers lead to. -/
inductive Reachable : Store → Prop
  | empty : Reachable {}
  | handle {s s' : Store} {steps : Nat} {request : Request} {reply : Reply} (hs : Reachable s)
      (h : handle steps s request = some (reply, s')) : Reachable s'

variable {s s' : Store} {steps : Nat} {id : String} {r : Record}

/-- The stores that whole histories lead to are reachable. -/
theorem Reachable.handleAll {requests : List Request} {replies : List Reply} (hs : Reachable s)
    (h : handleAll steps s requests = some (replies, s')) : Reachable s' := by
  induction requests generalizing s replies with
  | nil =>
    cases h
    exact hs
  | cons request rest ih =>
    obtain ⟨reply, s₁, others, hhandle, hrest, -⟩ := exists_of_handleAll_cons h
    exact ih (hs.handle hhandle) hrest

/-- A program that is run leaves a machine with the cells of its capacity, if it had them. -/
theorem ProgramBody.fits_of_run {program : ProgramBody} {m m' : Machine} {result : Except RunError Nat} (hm : m.Fits m.capacity)
    (h : program.run steps m = some (m', result)) : m'.Fits m'.capacity := by
  have hfed : (m.feed program.input).Fits m.capacity := ⟨hm.bytes, hm.inRange, hm.length, hm.capacity⟩
  have hcapacity : m'.capacity = m.capacity := Machine.capacity_of_runSource (m := m.feed program.input) h
  rw [hcapacity]
  exact Machine.fits_of_runSource hfed h

/-- What happens to a machine keeps its cells as many as the capacity says. -/
theorem fits_of_effect {event : Option Event} {before after : Option Record} (h : Effect steps event before after)
    (hbefore : ∀ r ∈ before, r.machine.Fits r.machine.capacity) : ∀ r ∈ after, r.machine.Fits r.machine.capacity := by
  cases h with
  | kept => exact hbefore
  | created id hcreate =>
    rintro r ⟨⟩
    obtain ⟨-, rfl⟩ := Machine.create_eq_ok_iff.mp hcreate
    exact Machine.fits_create hcreate
  | ran hrun =>
    rintro r' ⟨⟩
    exact ProgramBody.fits_of_run (hbefore _ rfl) hrun
  | reset r =>
    rintro r' ⟨⟩
    exact (hbefore r rfl).reset.2
  | deleted => nofun

/-- On a reachable store all identifiers were issued, and all machines have the cells of their capacity. -/
theorem Reachable.issued_and_fits (hs : Reachable s) :
    s.Issued ∧ ∀ id, ∀ r ∈ s.get? id, r.machine.Fits r.machine.capacity := by
  induction hs with
  | empty => exact ⟨Store.issued_empty, nofun⟩
  | handle hs h ih =>
    obtain ⟨hissued, hfits⟩ := ih
    exact ⟨issued_of_handle hissued h, fun id => fits_of_effect (effect_of_handle hissued h id) (hfits id)⟩

theorem Reachable.issued (hs : Reachable s) : s.Issued := hs.issued_and_fits.1

theorem Reachable.fits (hs : Reachable s) (hget : s.get? id = some r) : r.machine.Fits r.machine.capacity :=
  hs.issued_and_fits.2 id r hget

theorem Reachable.sound (hs : Reachable s) (hget : s.get? id = some r) : r.Sound :=
  ⟨(hs.fits hget).inRange, (hs.fits hget).capacity⟩

end Service

end Brainfuck
