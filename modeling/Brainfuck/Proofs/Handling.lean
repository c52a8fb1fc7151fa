import Brainfuck.Proofs.Shortage

/-!
# Machines in hand

Whatever is done to a machine from outside, it stays fit for use (`handled_safe`). Programs of any kind are run on it, also such
as were never paired, and each run is left alone until it ends, well or not, or is broken off at some token; the machine is reset,
its streams are replaced, its capacity is set, a byte is put into a cell and the cursor on one (`Machine.Handled`). All the while
every cell holds a byte, the cursor is on a cell, and there are as many cells as the capacity said when the tape was made.

One token keeps this, hence the points of a run do, hence whole histories do. So a run never looks for a cell or a token that is
not there, and it fails only because of a stream or of a jump that has no target.
-/

namespace Brainfuck

/-! ## What a token keeps -/

namespace Machine

variable {m m' : Machine} {t : Token} {index index' : Nat} {cause : RuntimeError} {laid : Int}

/-- A token keeps the number of cells. -/
theorem length_of_exec (h : m.exec index t = .next m' index') : m'.tape.length = m.tape.length := by
  unfold exec add move branch jump read write at h
  grind [Tape.length_write, Tape.length_add, Tape.length_move]

/-- A machine is fit for use: every cell holds a byte, the cursor is on a cell, there are as many cells as `laid` says, and the next
blank tape has a cell. -/
structure Fits (laid : Int) (m : Machine) : Prop where
  bytes : ∀ b ∈ m.tape.cells, b.toNat < 256
  inRange : m.tape.InRange
  length : (m.tape.length : Int) = laid
  capacity : 1 ≤ m.capacity

theorem Fits.of_exec (hm : m.Fits laid) (h : m.exec index t = .next m' index') : m'.Fits laid where
  bytes := fun b _ => b.toNat_lt
  inRange := inRange_of_exec hm.inRange h
  length := by rw [length_of_exec h, hm.length]
  capacity := by rw [capacity_of_exec h]; exact hm.capacity

/-- On a tape in use a token fails only because of a stream or for want of a target. -/
theorem cause_of_exec (hm : m.tape.InRange) (h : m.exec index t = .failed m' cause) :
    cause.ofStream = true ∨ cause = .unresolvedJump index := by
  by_cases ht : t.isLoop = true
  · right
    have hcell := hm.onCell
    cases t with
    | loopStart target =>
      unfold exec branch jump at h
      grind
    | loopEnd target =>
      unfold exec branch jump at h
      grind
    | _ => cases ht
  · left
    rw [Bool.not_eq_true] at ht
    exact ofStream_of_exec hm ht h

end Machine

/-! ## What a run keeps -/

namespace Point

variable {tokens : List Token} {p q : Point} {n : Nat} {laid : Int}

/-- All points of a run on a machine that is fit for use have machines that are. -/
theorem fits_of_after? (hp : p.machine.Fits laid) (h : after? tokens n p = some q) : q.machine.Fits laid := by
  induction n generalizing p with
  | zero =>
    cases h
    exact hp
  | succ n ih =>
    rw [after?, Option.bind_eq_some_iff] at h
    obtain ⟨r, hnext, hrest⟩ := h
    obtain ⟨t, -, hexec⟩ := exec_of_next? hnext
    exact ih (hp.of_exec hexec) hrest

/-- What a run needs at a point is there. If no token is left the run is over; the cursor is the index of a cell, and the tape has
a length to go round; a sum that is stored is the sum modulo 256; and a run that fails here leaves the machine as it is and fails
because of a stream or for want of a target. -/
structure Safe (tokens : List Token) (p : Point) : Prop where
  fetch : p.index < tokens.length ∨ p.end? tokens = some (p.machine, .finished)
  access : p.machine.tape.cells[p.machine.tape.cursor.toNat]? = some p.machine.tape.cell
  modulus : p.machine.tape.length ≠ 0
  sum : ∀ delta, ((p.machine.tape.add delta).cell.toNat : Int) = (p.machine.tape.cell.toNat + delta) % 256
  failure : ∀ m cause, p.end? tokens = some (m, .failed cause) →
    m = p.machine ∧ (cause.ofStream = true ∨ cause = .unresolvedJump p.index)

theorem safe_of_inRange (hp : p.machine.tape.InRange) : p.Safe tokens where
  fetch := by
    by_cases hindex : p.index < tokens.length
    · exact Or.inl hindex
    · exact Or.inr (by simp [end?, List.getElem?_eq_none (Nat.le_of_not_lt hindex)])
  access := hp.getElem?_cursor
  modulus := Nat.ne_of_gt hp.length_pos
  sum := fun delta => Tape.toNat_cell_add hp.onCell delta
  failure := by
    intro m cause hend
    refine ⟨machine_of_end? hp.onCell hend, ?_⟩
    unfold end? at hend
    cases ht : tokens[p.index]? with
    | none => simp [ht] at hend
    | some t =>
      cases hexec : p.machine.exec p.index t with
      | next m' index => simp [ht, hexec] at hend
      | failed m' cause' =>
        simp only [ht, hexec, Option.some.injEq, Prod.mk.injEq, Outcome.failed.injEq] at hend
        obtain ⟨-, rfl⟩ := hend
        exact Machine.cause_of_exec hp hexec

end Point

/-- A run that ends, well or not, leaves a machine fit for use. If it fails, it does so because of a stream or for want of a
target. -/
theorem Machine.fits_of_run {tokens : List Token} {m m' : Machine} {steps : Nat} {o : Outcome} {laid : Int} (hm : m.Fits laid)
    (h : m.run steps tokens = some (m', o)) :
    m'.Fits laid ∧ ∀ cause, o = .failed cause → cause.ofStream = true ∨ ∃ index, cause = .unresolvedJump index := by
  obtain ⟨n, p, hp, hend, rfl⟩ := Point.exists_after?_of_run hm.inRange h
  have hfits : p.machine.Fits laid := Point.fits_of_after? (p := ⟨m, 0⟩) hm hp
  refine ⟨hfits, ?_⟩
  intro cause ho
  subst ho
  rcases ((Point.safe_of_inRange hfits.inRange).failure _ _ hend).2 with hstream | htarget
  · exact Or.inl hstream
  · exact Or.inr ⟨_, htarget⟩

/-! ## Histories -/

namespace Machine

/-- The machines that come of a new one by what is done to it, each with the capacity that its tape was made for: that of the
creation, or the one that was set at the last reset. A run is left alone until it ends, or it is broken off at any of its points. -/
inductive Handled : Int → Machine → Prop
  | create {capacity : Int} {m : Machine} (h : Machine.create capacity = .ok m) : Handled capacity m
  | run {laid : Int} {m m' : Machine} {tokens : List Token} {steps : Nat} {o : Outcome} (hm : Handled laid m)
      (h : m.run steps tokens = some (m', o)) : Handled laid m'
  | breakOff {laid : Int} {m : Machine} {tokens : List Token} {n : Nat} {p : Point} (hm : Handled laid m)
      (h : Point.after? tokens n ⟨m, 0⟩ = some p) : Handled laid p.machine
  | reset {laid : Int} {m m' : Machine} (hm : Handled laid m) (h : m.reset = .ok m') : Handled m.capacity m'
  | setInput {laid : Int} {m : Machine} (hm : Handled laid m) (input : InputStream) : Handled laid { m with input := input }
  | setOutput {laid : Int} {m : Machine} (hm : Handled laid m) (output : OutputStream) :
      Handled laid { m with output := output }
  | setCapacity {laid : Int} {m : Machine} (hm : Handled laid m) {capacity : Int} (h : 1 ≤ capacity) :
      Handled laid { m with capacity := capacity }
  | poke {laid : Int} {m : Machine} (hm : Handled laid m) {index value : Int} {tape : Tape}
      (h : m.tape.poke index value = .ok tape) : Handled laid { m with tape := tape }
  | place {laid : Int} {m : Machine} (hm : Handled laid m) {index : Int} (h : 0 ≤ index ∧ index < m.tape.length) :
      Handled laid { m with tape := m.tape.place index }

variable {m m' : Machine} {laid : Int}

theorem fits_create {capacity : Int} (h : Machine.create capacity = .ok m) : m.Fits capacity := by
  obtain ⟨hcapacity, rfl⟩ := create_eq_ok_iff.mp h
  refine ⟨fun b _ => b.toNat_lt, Tape.inRange_blank (by omega), ?_, hcapacity⟩
  rw [Tape.length_blank]
  omega

/-- A machine that is fit for use can be reset, and then it has the cells that its capacity says. -/
theorem Fits.reset (hm : m.Fits laid) : m.reset = .ok m.cleared ∧ m.cleared.Fits m.capacity := by
  have hcapacity := hm.capacity
  have hcells : 0 < m.capacity.toNat := by omega
  refine ⟨by rw [Machine.reset, if_neg (by omega)], fun b _ => b.toNat_lt, Tape.inRange_blank hcells, ?_, hcapacity⟩
  rw [cleared, Tape.length_blank]
  omega

theorem Fits.poke (hm : m.Fits laid) {index value : Int} {tape : Tape} (h : m.tape.poke index value = .ok tape) :
    { m with tape := tape }.Fits laid := by
  obtain ⟨-, ⟨hleft, hright⟩, hlength, hcapacity⟩ := hm
  unfold Tape.poke at h
  split at h
  · cases h
  · split at h
    · cases h
      have hsize : ∀ cells : Array UInt8, cells.size = m.tape.cells.size →
          ({ m with tape := ⟨cells, m.tape.cursor⟩ } : Machine).Fits laid := by
        intro cells hcells
        refine ⟨fun b _ => b.toNat_lt, ⟨hleft, ?_⟩, ?_, hcapacity⟩
        · rw [Tape.length, hcells]
          exact hright
        · rw [Tape.length, hcells]
          exact hlength
      exact hsize _ (Array.size_setIfInBounds ..)
    · cases h

/-- Everything that is done to a machine keeps it fit for use. -/
theorem Handled.fits (h : Handled laid m) : m.Fits laid := by
  induction h with
  | create h => exact fits_create h
  | run _ h ih => exact (fits_of_run ih h).1
  | @breakOff laid m tokens n p _ h ih => exact Point.fits_of_after? (p := ⟨m, 0⟩) ih h
  | reset _ h ih =>
    obtain ⟨hreset, hcleared⟩ := ih.reset
    rw [hreset] at h
    cases h
    exact hcleared
  | setInput _ input ih => exact ⟨ih.bytes, ih.inRange, ih.length, ih.capacity⟩
  | setOutput _ output ih => exact ⟨ih.bytes, ih.inRange, ih.length, ih.capacity⟩
  | setCapacity _ h ih => exact ⟨ih.bytes, ih.inRange, ih.length, h⟩
  | poke _ h ih => exact ih.poke h
  | place _ h ih => exact ⟨ih.bytes, h, ih.length, ih.capacity⟩

/-- A byte can be put into every cell. -/
theorem exists_poke {tape : Tape} {index value : Int} (hindex : 0 ≤ index ∧ index < tape.length) (hvalue : 0 ≤ value ∧ value < 256) :
    ∃ tape', tape.poke index value = .ok tape' := by
  have hcell : tape.hasCell index = true := by
    simp only [Tape.hasCell, Bool.and_eq_true, decide_eq_true_eq]
    omega
  rw [Tape.poke, if_neg (by omega), if_pos hcell]
  exact ⟨_, rfl⟩

end Machine

/-- A machine is fit for use whatever was done to it since it was new, and its tape has the cells that its capacity said at the
creation or at the last reset. So it can be reset and every cell can be set. At all points of all runs on it the machine is fit
for use, what the run needs is there, and the place where the run began to move the cursor is still a cell; and so is the machine
that a run leaves, which fails for no other cause than a stream or a missing target. -/
theorem handled_safe {laid : Int} {m : Machine} (h : Machine.Handled laid m) :
    m.Fits laid ∧ m.reset = .ok m.cleared ∧
      (∀ index value : Int, (0 ≤ index ∧ index < m.tape.length) → (0 ≤ value ∧ value < 256) →
        ∃ tape, m.tape.poke index value = .ok tape) ∧
      ∀ tokens : List Token,
        (∀ n p, Point.after? tokens n ⟨m, 0⟩ = some p →
          p.machine.Fits laid ∧ (p.machine.tape.place m.tape.cursor).InRange ∧ p.Safe tokens) ∧
        ∀ steps m' o, m.run steps tokens = some (m', o) →
          m'.Fits laid ∧ ∀ cause, o = .failed cause → cause.ofStream = true ∨ ∃ index, cause = .unresolvedJump index := by
  have hm : m.Fits laid := h.fits
  refine ⟨hm, hm.reset.1, fun index value => Machine.exists_poke, fun tokens => ⟨?_, ?_⟩⟩
  · intro n p hp
    have hfits : p.machine.Fits laid := Point.fits_of_after? (p := ⟨m, 0⟩) hm hp
    have hlength : (p.machine.tape.length : Int) = m.tape.length := hfits.length.trans hm.length.symm
    refine ⟨hfits, ⟨hm.inRange.1, ?_⟩, Point.safe_of_inRange hfits.inRange⟩
    exact hlength ▸ hm.inRange.2
  · intro steps m' o hrun
    exact Machine.fits_of_run hm hrun

/-- A machine of three cells runs a program with moves far beyond its tape, a sum that does not fit a cell and a jump past the end,
and then one without a target, which fails. Its capacity is set to five, which counts from the next reset on; after that a run that
would go on for ever is broken off. -/
theorem handled_safe_reset :
    let failing : List Token := [.loopEnd none]
    let endless : List Token := [.decrement (.nat 1), .loopEnd (some (.truth false))]
    ∃ m₀ m₁ m₂ m₃ p, Machine.create 3 = .ok m₀ ∧
      m₀.run 9 [.moveLeft (.nat 1000), .increment (.nat 300), .loopEnd (some (.nat 7))] = some (m₁, .finished) ∧
      m₁.tape = ⟨#[0, 0, 44], 2⟩ ∧ m₁.run 9 failing = some (m₂, .failed (.unresolvedJump 0)) ∧
      Machine.reset { m₂ with capacity := 5 } = .ok m₃ ∧ Machine.Handled 5 m₃ ∧ Point.after? endless 10 ⟨m₃, 0⟩ = some p ∧
      p.machine.tape.cell = 255 ∧ p.machine.Fits 5 ∧ p.Safe endless := by
  intro failing endless
  have h₀ : Machine.Handled 3 ⟨3, ⟨#[0, 0, 0], 0⟩, {}, {}⟩ := .create rfl
  have h₁ : Machine.Handled 3 ⟨3, ⟨#[0, 0, 44], 2⟩, {}, {}⟩ :=
    @Machine.Handled.run 3 _ _ [.moveLeft (.nat 1000), .increment (.nat 300), .loopEnd (some (.nat 7))] 9 .finished h₀ rfl
  have h₂ : Machine.Handled 3 ⟨3, ⟨#[0, 0, 44], 2⟩, {}, {}⟩ :=
    @Machine.Handled.run 3 _ _ failing 9 (.failed (.unresolvedJump 0)) h₁ rfl
  have h₃ : Machine.Handled 5 ⟨5, ⟨#[0, 0, 0, 0, 0], 0⟩, {}, {}⟩ := (@Machine.Handled.setCapacity 3 _ h₂ 5 (by decide)).reset rfl
  obtain ⟨-, -, -, hruns⟩ := handled_safe h₃
  obtain ⟨hpoints, -⟩ := hruns endless
  obtain ⟨hfits, -, hsafe⟩ := hpoints 10 ⟨⟨5, ⟨#[255, 0, 0, 0, 0], 0⟩, {}, {}⟩, 1⟩ rfl
  exact ⟨_, _, _, _, _, rfl, rfl, rfl, rfl, rfl, h₃, rfl, rfl, hfits, hsafe⟩

end Brainfuck
