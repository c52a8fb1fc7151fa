import Brainfuck.Proofs.Jumps

/-!
# Runs in step

Two runs go in step if one sees the machines of the other through a map: what the one does to a machine, the other does to its image
(`Machine.SameThrough`). It is enough that the two do the same at each point that the first run comes to (`Point.InStep`), and for
that it is enough that the tokens there do. A map that changes nothing but the tape and the capacity has to take the cell under the
cursor to the cell under the cursor (`Tape.CarriedBy`); what it does to the cells elsewhere shows in the moves only
(`Machine.exec_refit`).
-/

namespace Brainfuck

/-- A step to the image of a machine. -/
def Step.map (f : Machine → Machine) : Step → Step
  | .next m index => .next (f m) index
  | .failed m cause => .failed (f m) cause

/-! ## Points -/

namespace Point

variable {f : Machine → Machine} {ts us : List Token} {p q : Point} {n : Nat}

/-- The point with the image of its machine. -/
def map (f : Machine → Machine) (p : Point) : Point where
  machine := f p.machine
  index := p.index

/-- At a point one program does what another does at the image of the point: both go on to the same point, or both end in the same
way. -/
def InStep (f : Machine → Machine) (ts us : List Token) (p : Point) : Prop :=
  (p.map f).next? us = (p.next? ts).map (map f) ∧ (p.map f).end? us = (p.end? ts).map (Prod.map f id)

/-- Programs are in step at a point where their tokens are. -/
theorem inStep_of_exec {g : Token → Token}
    (h : ∀ t, ts[p.index]? = some t → (f p.machine).exec p.index (g t) = (p.machine.exec p.index t).map f) :
    p.InStep f ts (ts.map g) := by
  cases ht : ts[p.index]? with
  | none => exact ⟨by simp [next?, map, ht], by simp [end?, map, ht]⟩
  | some t =>
    have hsame := h t ht
    cases hexec : p.machine.exec p.index t with
    | next m index =>
      rw [hexec] at hsame
      exact ⟨by simp [next?, map, ht, hexec, hsame, Step.map], by simp [end?, map, ht, hexec, hsame, Step.map]⟩
    | failed m cause =>
      rw [hexec] at hsame
      exact ⟨by simp [next?, map, ht, hexec, hsame, Step.map], by simp [end?, map, ht, hexec, hsame, Step.map]⟩

/-- A program is in step with itself at a point where its token does to the image of the machine what it does to the machine. -/
theorem inStep_self_of_exec (h : ∀ t, ts[p.index]? = some t → (f p.machine).exec p.index t = (p.machine.exec p.index t).map f) :
    p.InStep f ts ts := by
  have hmap := inStep_of_exec (g := id) h
  rw [List.map_id] at hmap
  exact hmap

/-- Programs have the same points as far as they are in step at the points before. -/
theorem after?_map_of_lt (n : Nat) (h : ∀ k < n, ∀ q, after? ts k p = some q → q.InStep f ts us) :
    after? us n (p.map f) = (after? ts n p).map (map f) := by
  induction n with
  | zero => rfl
  | succ n ih =>
    -- the step is split off at the end, where the point it is taken from is one of the run
    rw [after?_add n 1, after?_add n 1, ih fun k hk => h k (Nat.lt_succ_of_lt hk)]
    cases hq : after? ts n p with
    | none => rfl
    | some q =>
      simp only [after?, Option.map_some, Option.bind_some, (h n (Nat.lt_succ_self n) q hq).1]
      cases q.next? ts <;> rfl

/-- Programs that are in step at every point of a run have the same points. -/
theorem after?_map (h : ∀ n q, after? ts n p = some q → q.InStep f ts us) (n : Nat) :
    after? us n (p.map f) = (after? ts n p).map (map f) :=
  after?_map_of_lt n fun k _ => h k

/-- Runs have the same end if after each number of tokens they end in the same way or not at all. -/
theorem runFrom_of_ends (h : ∀ n, (after? us n q).bind (end? us) = ((after? ts n p).bind (end? ts)).map (Prod.map f id)) (steps : Nat) :
    Machine.runFrom us.toArray steps q.index q.machine =
      (Machine.runFrom ts.toArray steps p.index p.machine).map (Prod.map f id) := by
  apply Option.ext
  rintro ⟨m', o⟩
  rw [runFrom_eq_some_iff (p := q), Option.map_eq_some_iff]
  constructor
  · rintro ⟨n, q', hq, hend, hle⟩
    have hends : ((after? ts n p).bind (end? ts)).map (Prod.map f id) = some (m', o) := by rw [← h n, hq, Option.bind_some, hend]
    obtain ⟨⟨m, o'⟩, hp, heq⟩ := Option.map_eq_some_iff.mp hends
    cases heq
    obtain ⟨p', hp', hend'⟩ := Option.bind_eq_some_iff.mp hp
    exact ⟨(m, o'), runFrom_eq_some_iff.mpr ⟨n, p', hp', hend', hle⟩, rfl⟩
  · rintro ⟨⟨m, o'⟩, hrun, heq⟩
    cases heq
    obtain ⟨n, p', hp, hend, hle⟩ := runFrom_eq_some_iff.mp hrun
    have hends : (after? us n q).bind (end? us) = some (f m, o') := by
      rw [h n, hp, Option.bind_some, hend]
      rfl
    obtain ⟨q', hq, hend'⟩ := Option.bind_eq_some_iff.mp hends
    exact ⟨n, q', hq, hend', hle⟩

/-- Programs that are in step at every point of a run have the same end. -/
theorem runFrom_map (h : ∀ n q, after? ts n p = some q → q.InStep f ts us) (steps : Nat) :
    Machine.runFrom us.toArray steps p.index (f p.machine) =
      (Machine.runFrom ts.toArray steps p.index p.machine).map (Prod.map f id) := by
  refine runFrom_of_ends (q := p.map f) ?_ steps
  intro n
  rw [after?_map h n]
  cases hq : after? ts n p with
  | none => rfl
  | some q => exact (h n q hq).2

end Point

namespace Machine

/-- One program does to the image of a machine what another does to the machine: the two runs have the same points and, with any
number of steps, the same end. -/
def SameThrough (f : Machine → Machine) (ts us : List Token) (m : Machine) : Prop :=
  (∀ n, Point.after? us n ⟨f m, 0⟩ = (Point.after? ts n ⟨m, 0⟩).map (Point.map f)) ∧
    ∀ steps, (f m).run steps us = (m.run steps ts).map (Prod.map f id)

/-- Programs that are in step at every point of a run do the same. -/
theorem sameThrough_of_inStep {f : Machine → Machine} {ts us : List Token} {m : Machine}
    (h : ∀ n p, Point.after? ts n ⟨m, 0⟩ = some p → p.InStep f ts us) : m.SameThrough f ts us :=
  ⟨Point.after?_map (p := ⟨m, 0⟩) h, Point.runFrom_map (p := ⟨m, 0⟩) h⟩

end Machine

/-! ## Another tape -/

/-- A map of tapes carries a tape over: the cursor is on a cell again, the cell has the same byte, and a byte that is written to the
one is written to the other. -/
structure Tape.CarriedBy (f : Tape → Tape) (t : Tape) : Prop where
  inRange : (f t).InRange
  cell : (f t).cell = t.cell
  write : ∀ b, f (t.write b) = (f t).write b

/-- What is added to the cell of a tape is added to the cell of the other. -/
theorem Tape.CarriedBy.add {f : Tape → Tape} {t : Tape} (h : t.CarriedBy f) (delta : Int) : f (t.add delta) = (f t).add delta := by
  rw [Tape.add, Tape.add, h.write, h.cell]

namespace Machine

variable {f : Tape → Tape} {c : Int → Int} {m : Machine} {t u : Token} {s : Int}

/-- The machine with another tape, made of its own, and with another capacity. Its streams stay. -/
def refit (c : Int → Int) (f : Tape → Tape) (m : Machine) : Machine :=
  { m with capacity := c m.capacity, tape := f m.tape }

section Refit

variable (hm : m.tape.InRange) (h : m.tape.CarriedBy f)

include hm h

theorem add_refit (index : Nat) (delta : Int) : (m.refit c f).add index delta = (m.add index delta).map (refit c f) := by
  have hcell' : (m.refit c f).tape.onCell = true := h.inRange.onCell
  rw [add, add, if_pos hcell', if_pos hm.onCell]
  simp only [refit, Step.map, h.add]

theorem branch_refit (index : Nat) (target : Option Numeral) (jumps : UInt8 → Bool) :
    (m.refit c f).branch index target jumps = (m.branch index target jumps).map (refit c f) := by
  have hcell' : (m.refit c f).tape.onCell = true := h.inRange.onCell
  have hsame : (m.refit c f).tape.cell = m.tape.cell := h.cell
  rw [branch, branch, if_pos hcell', if_pos hm.onCell, hsame]
  split
  · cases target <;> rfl
  · rfl

theorem write_refit (index : Nat) : (m.refit c f).write index = (m.write index).map (refit c f) := by
  have hcell' : (m.refit c f).tape.onCell = true := h.inRange.onCell
  have hsame : (m.refit c f).tape.cell = m.tape.cell := h.cell
  rw [write, write, if_pos hcell', if_pos hm.onCell, hsame, show (m.refit c f).output = m.output from rfl]
  split <;> rfl

theorem read_refit (index : Nat) : (m.refit c f).read index = (m.read index).map (refit c f) := by
  have hcell' : (f m.tape).onCell = true := h.inRange.onCell
  rw [read, read, show (m.refit c f).input = m.input from rfl]
  cases m.input.isDown with
  | true => rfl
  | false =>
    cases m.input.pending with
    | nil => rfl
    | cons b rest =>
      simp only [refit, Bool.false_eq_true, if_false, hcell', hm.onCell, if_true, Step.map, h.write]

/-- A move is carried over to a move by another number of cells, if the tape it leads to is. -/
theorem move_refit {s s' : Int} (htape : f (m.tape.move s) = (f m.tape).move s') (index : Nat) :
    (m.refit c f).move index s' = (m.move index s).map (refit c f) := by
  have hlength : m.tape.length ≠ 0 := Nat.ne_of_gt hm.length_pos
  have hlength' : (m.refit c f).tape.length ≠ 0 := Nat.ne_of_gt h.inRange.length_pos
  rw [move, move, if_neg hlength', if_neg hlength]
  simp only [refit, Step.map, htape]

end Refit

theorem exec_of_shift? (h : t.shift? = some s) (index : Nat) : m.exec index t = m.move index s := by
  cases t <;> simp only [Token.shift?, Option.some.injEq, reduceCtorEq] at h <;> subst h <;> rfl

/-- A token does to a tape that is carried over what it does to the tape. If it is a move, the token of another move may do so in its
place. -/
theorem exec_refit (hm : m.tape.InRange) (h : m.tape.CarriedBy f) (hstill : t.shift? = none → u = t)
    (hmove : ∀ s, t.shift? = some s → ∃ s', u.shift? = some s' ∧ f (m.tape.move s) = (f m.tape).move s') (index : Nat) :
    (m.refit c f).exec index u = (m.exec index t).map (refit c f) := by
  -- only a move can tell the two tapes apart: the other tokens look at the cell under the cursor and at the streams
  cases hshift : t.shift? with
  | some s =>
    obtain ⟨s', hu, htape⟩ := hmove s hshift
    rw [exec_of_shift? hshift, exec_of_shift? hu]
    exact move_refit hm h htape index
  | none =>
    obtain rfl := hstill hshift
    cases u with
    | noOp payload => rfl
    | increment count => exact add_refit hm h index _
    | decrement count => exact add_refit hm h index _
    | loopStart target => exact branch_refit hm h index target (· == 0)
    | loopEnd target => exact branch_refit hm h index target (· != 0)
    | output payload => exact write_refit hm h index
    | input payload => exact read_refit hm h index
    | moveLeft | moveRight => cases hshift

end Machine

end Brainfuck
