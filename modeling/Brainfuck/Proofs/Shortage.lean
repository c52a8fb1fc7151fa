import Brainfuck.Proofs.Lockstep

/-!
# Running short

A run that has less to read, or less room to write, goes the way of the run that has more, token by token, until it comes to a
token that reads and no byte is left, or that writes and there is no room (`after?_more`, `sameRun_or_cutShort`). There it fails, and
it leaves on the machine what the other run has there before it goes on. So a run that fails for want of bytes or of room can be
taken up again where it stopped.
-/

namespace Brainfuck

/-- A limit is no greater than another. No limit is the greatest. -/
def LimitLe (limit limit' : Option Nat) : Prop := ∀ n' ∈ limit', ∃ n ∈ limit, n ≤ n'

/-- Where the greater of two limits is reached, the smaller one is. -/
theorem LimitLe.reached {limit limit' : Option Nat} {count : Nat} (h : LimitLe limit limit')
    (hreached : Brainfuck.reached limit' count = true) : Brainfuck.reached limit count = true := by
  cases limit' with
  | none => simp [Brainfuck.reached] at hreached
  | some n' =>
    obtain ⟨n, rfl, hle⟩ := h n' rfl
    simp only [Brainfuck.reached, decide_eq_true_eq] at hreached ⊢
    omega

/-- The machine with more bytes to read, behind those that it has, and with another limit on the bytes to write. What it has on
its tape and what it has read and written stay. -/
def Machine.more (m : Machine) (bytes : List UInt8) (limit : Option Nat) : Machine where
  capacity := m.capacity
  tape := m.tape
  input := { m.input with pending := m.input.pending ++ bytes }
  output := { m.output with failAfter := limit }

/-- What the execution of a token comes to, with more supplied to the machine that it leaves. -/
def Step.more (bytes : List UInt8) (limit : Option Nat) : Step → Step
  | .next m index => .next (m.more bytes limit) index
  | .failed m cause => .failed (m.more bytes limit) cause

theorem Step.more_eq_map (bytes : List UInt8) (limit : Option Nat) (step : Step) :
    step.more bytes limit = step.map (·.more bytes limit) := by
  cases step <;> rfl

namespace Machine

variable {m m₁ : Machine} {t : Token} {index index' : Nat} {cause : RuntimeError} {bytes : List UInt8} {limit : Option Nat}

@[simp] theorem tape_more : (m.more bytes limit).tape = m.tape := rfl

@[simp] theorem written_more : (m.more bytes limit).output.written = m.output.written := rfl

@[simp] theorem consumed_more : (m.more bytes limit).input.consumed = m.input.consumed := rfl

@[simp] theorem pending_more : (m.more bytes limit).input.pending = m.input.pending ++ bytes := rfl

/-- A token asks for what the machine does not have: for a byte to read, or for room to write one. It fails for this cause. -/
def Lacks (m : Machine) : Token → RuntimeError → Prop
  | .input _, .inputExhausted => m.input.pending = []
  | .output _, .outputFull => m.output.isFull = true
  | _, _ => False

/-- A token keeps the limit on the bytes to write. -/
theorem failAfter_of_exec (h : m.exec index t = .next m₁ index') : m₁.output.failAfter = m.output.failAfter := by
  unfold exec add move branch jump read write OutputStream.push at h
  grind

theorem add_more (index : Nat) (delta : Int) :
    (m.more bytes limit).add index delta = Step.more bytes limit (m.add index delta) := by
  unfold add
  rw [tape_more]
  split <;> rfl

theorem move_more (index : Nat) (shift : Int) :
    (m.more bytes limit).move index shift = Step.more bytes limit (m.move index shift) := by
  unfold move
  rw [tape_more]
  split <;> rfl

theorem branch_more (index : Nat) (target : Option Numeral) (jumps : UInt8 → Bool) :
    (m.more bytes limit).branch index target jumps = Step.more bytes limit (m.branch index target jumps) := by
  unfold branch jump
  rw [tape_more]
  cases m.tape.onCell with
  | false => rfl
  | true =>
    cases jumps m.tape.cell with
    | false => rfl
    | true => cases target <;> rfl

/-- A read does the same with more bytes, unless it lacks one. -/
theorem read_more (hm : m.tape.onCell = true) :
    (m.more bytes limit).read index = Step.more bytes limit (m.read index) ∨
      m.read index = .failed m .inputExhausted ∧ m.input.pending = [] ∧
        ∃ m₁ index', (m.more bytes limit).read index = .next m₁ index' := by
  have hdown : (m.more bytes limit).input.isDown = m.input.isDown := rfl
  unfold read
  rw [hdown]
  cases m.input.isDown with
  | true => exact Or.inl rfl
  | false =>
    cases hpending : m.input.pending with
    | cons b rest => exact Or.inl (by simp [hpending, hm, Step.more, more])
    | nil =>
      cases bytes with
      | nil => exact Or.inl (by simp [hpending, Step.more])
      | cons b rest => exact Or.inr (by simp [hpending, hm])

/-- A write does the same with more room, unless it lacks that. -/
theorem write_more (hm : m.tape.onCell = true) (hlimit : LimitLe m.output.failAfter limit) :
    (m.more bytes limit).write index = Step.more bytes limit (m.write index) ∨
      m.write index = .failed m .outputFull ∧ m.output.isFull = true ∧
        ∃ m₁ index', (m.more bytes limit).write index = .next m₁ index' := by
  unfold write
  cases hfull : m.output.isFull with
  | false =>
    have hroom : (m.more bytes limit).output.isFull = false := by
      rw [← Bool.not_eq_true] at hfull ⊢
      exact fun h => hfull (hlimit.reached h)
    exact Or.inl (by simp only [hroom, tape_more, hm]; rfl)
  | true =>
    cases (m.more bytes limit).output.isFull with
    | true => exact Or.inl (by simp [hm, Step.more])
    | false => exact Or.inr (by simp [hm])

/-- A token does the same with more bytes and more room, unless these are what it lacks. Then it fails and changes nothing, and
with more it goes on. -/
theorem exec_more (t : Token) (index : Nat) (bytes : List UInt8) (hm : m.tape.onCell = true)
    (hlimit : LimitLe m.output.failAfter limit) :
    (m.more bytes limit).exec index t = Step.more bytes limit (m.exec index t) ∨
      ∃ cause, m.Lacks t cause ∧ m.exec index t = .failed m cause ∧
        ∃ m₁ index', (m.more bytes limit).exec index t = .next m₁ index' := by
  cases t with
  | input payload =>
    refine (read_more hm).imp_right ?_
    rintro ⟨hfails, hnone, hnext⟩
    exact ⟨.inputExhausted, hnone, hfails, hnext⟩
  | output payload =>
    refine (write_more hm hlimit).imp_right ?_
    rintro ⟨hfails, hfull, hnext⟩
    exact ⟨.outputFull, hfull, hfails, hnext⟩
  | increment | decrement => exact Or.inl (add_more index _)
  | moveRight | moveLeft => exact Or.inl (move_more index _)
  | loopStart target => exact Or.inl (branch_more index target (· == 0))
  | loopEnd target => exact Or.inl (branch_more index target (· != 0))
  | noOp payload => exact Or.inl rfl

/-- A token that lacks something does not go on. -/
theorem Lacks.exec_ne_next (h : m.Lacks t cause) : m.exec index t ≠ .next m₁ index' := by
  cases t <;> cases cause <;> simp only [Lacks] at h
  · rw [exec, write, h]
    split <;> simp
  · rw [exec, read, h]
    split <;> simp

/-- A token that goes on has written what was written before it, and no byte or one more. -/
theorem written_of_exec (h : m.exec index t = .next m₁ index') : m.output.written.toList <+: m₁.output.written.toList := by
  unfold exec add move branch jump read write OutputStream.push at h
  grind

end Machine

/-! ## The two runs -/

namespace Point

variable {tokens : List Token} {p q r : Point} {bytes : List UInt8} {limit : Option Nat} {cause : RuntimeError} {n k : Nat}

/-- The point with more supplied to its machine. -/
def more (p : Point) (bytes : List UInt8) (limit : Option Nat) : Point where
  machine := p.machine.more bytes limit
  index := p.index

/-- A run falls short at a point: the token lacks something that the run with more supplied has there. The token fails and changes
nothing, and the other run goes on. -/
def FallsShort (tokens : List Token) (bytes : List UInt8) (limit : Option Nat) (cause : RuntimeError) (p : Point) : Prop :=
  (∃ t, tokens[p.index]? = some t ∧ p.machine.Lacks t cause) ∧ p.end? tokens = some (p.machine, .failed cause) ∧
    ∃ q, (p.more bytes limit).next? tokens = some q

/-- A run and the one with more supplied go the same step or come to the same end, unless the one falls short. -/
theorem step_more (tokens : List Token) (bytes : List UInt8) (hp : p.machine.tape.InRange)
    (hlimit : LimitLe p.machine.output.failAfter limit) :
    p.InStep (·.more bytes limit) tokens tokens ∨ ∃ cause, p.FallsShort tokens bytes limit cause := by
  cases ht : tokens[p.index]? with
  | none => exact Or.inl (inStep_self_of_exec (by simp [ht]))
  | some t =>
    rcases Machine.exec_more t p.index bytes hp.onCell hlimit with hsame | ⟨cause, hlacks, hfails, hnext⟩
    · refine Or.inl (inStep_self_of_exec ?_)
      intro t' ht'
      obtain rfl : t = t' := Option.some.inj (ht.symm.trans ht')
      exact hsame.trans (Step.more_eq_map bytes limit _)
    · right
      obtain ⟨m₁, index', hnext⟩ := hnext
      exact ⟨cause, ⟨t, ht, hlacks⟩, by simp [end?, ht, hfails], ⟨m₁, index'⟩, next?_of_exec ht hnext⟩

/-- Where a run falls short it does not go on. -/
theorem FallsShort.next?_eq_none (h : p.FallsShort tokens bytes limit cause) : p.next? tokens = none := by
  rw [Option.eq_none_iff_forall_ne_some]
  intro q hnext
  have hend := end?_of_next? hnext
  rw [h.2.1] at hend
  cases hend

/-- The token of a point that leads to another. -/
theorem exec_of_next? (h : p.next? tokens = some q) :
    ∃ t, tokens[p.index]? = some t ∧ p.machine.exec p.index t = .next q.machine q.index := by
  unfold next? at h
  cases ht : tokens[p.index]? with
  | none => simp [ht] at h
  | some t =>
    refine ⟨t, rfl, ?_⟩
    cases hexec : p.machine.exec p.index t with
    | next m index =>
      simp only [ht, hexec, Option.some.injEq] at h
      rw [← h]
    | failed m cause => simp [ht, hexec] at h

/-- A relation that each token keeps up between the machines before and after it is kept up by a run. -/
theorem rel_of_after? {R : Machine → Machine → Prop} (hrefl : ∀ m, R m m) (htrans : ∀ {m m₁ m₂}, R m m₁ → R m₁ m₂ → R m m₂)
    (hstep : ∀ {m m₁ t index index'}, m.exec index t = .next m₁ index' → R m m₁) (h : after? tokens n p = some q) :
    R p.machine q.machine := by
  induction n generalizing p with
  | zero =>
    cases h
    exact hrefl _
  | succ n ih =>
    rw [after?, Option.bind_eq_some_iff] at h
    obtain ⟨r, hnext, hrest⟩ := h
    obtain ⟨t, -, hexec⟩ := exec_of_next? hnext
    exact htrans (hstep hexec) (ih hrest)

/-- A run keeps the limit on the bytes to write. -/
theorem failAfter_of_after? (h : after? tokens n p = some q) :
    p.machine.output.failAfter = q.machine.output.failAfter :=
  rel_of_after? (R := fun m m₁ => m.output.failAfter = m₁.output.failAfter) (fun _ => rfl) Eq.trans
    (fun hexec => (Machine.failAfter_of_exec hexec).symm) h

/-- What a run has written it does not take back. -/
theorem written_of_after? (h : after? tokens n p = some q) :
    p.machine.output.written.toList <+: q.machine.output.written.toList :=
  rel_of_after? (R := fun m m₁ => m.output.written.toList <+: m₁.output.written.toList) (fun _ => List.prefix_rfl)
    List.IsPrefix.trans Machine.written_of_exec h

/-- A run that gets to a point goes on at all the points before it. -/
theorem exists_next?_of_lt (hk : after? tokens k p = some q) (hn : after? tokens n p = some r) (hlt : k < n) :
    ∃ q', q.next? tokens = some q' := by
  obtain ⟨j, rfl⟩ : ∃ j, n = k + (j + 1) := ⟨n - k - 1, by omega⟩
  rw [after?_add, hk, Option.bind_some, after?, Option.bind_eq_some_iff] at hn
  obtain ⟨q', hnext, -⟩ := hn
  exact ⟨q', hnext⟩

/-- A run comes to its end at one point only. -/
theorem eq_of_end? {ended ended' : Machine × Outcome} (hk : after? tokens k p = some q) (hq : q.end? tokens = some ended)
    (hn : after? tokens n p = some r) (hr : r.end? tokens = some ended') : k = n ∧ ended = ended' := by
  have hnot : ∀ {k n : Nat} {q r : Point} {ended : Machine × Outcome}, after? tokens k p = some q →
      q.end? tokens = some ended → after? tokens n p = some r → ¬k < n := by
    intro k n q r ended hk hq hn hlt
    obtain ⟨q', hnext⟩ := exists_next?_of_lt hk hn hlt
    rw [end?_of_next? hnext] at hq
    cases hq
  obtain rfl : k = n := Nat.le_antisymm (Nat.le_of_not_lt (hnot hn hr hk)) (Nat.le_of_not_lt (hnot hk hq hn))
  obtain rfl : q = r := Option.some.inj (hk.symm.trans hn)
  exact ⟨rfl, Option.some.inj (hq.symm.trans hr)⟩

/-- As far as a run gets, the one with more supplied gets in step with it. -/
theorem after?_more (hp : p.machine.tape.InRange) (hlimit : LimitLe p.machine.output.failAfter limit)
    (h : after? tokens n p = some q) : after? tokens n (p.more bytes limit) = some (q.more bytes limit) := by
  induction n generalizing p with
  | zero =>
    cases h
    rfl
  | succ n ih =>
    rw [after?, Option.bind_eq_some_iff] at h
    obtain ⟨r, hnext, hrest⟩ := h
    have hfirst : after? tokens 1 p = some r := by rw [after?_succ_of_next? hnext]; rfl
    rcases step_more tokens bytes hp hlimit with ⟨hsame, -⟩ | ⟨cause, hshort⟩
    · rw [hnext] at hsame
      rw [show p.more bytes limit = p.map (·.more bytes limit) from rfl, after?_succ_of_next? hsame]
      exact ih (inRange_of_after? hp hfirst) (failAfter_of_after? hfirst ▸ hlimit) hrest
    · rw [hshort.next?_eq_none] at hnext
      cases hnext

/-- A run that never falls short is in step with the one with more supplied. -/
theorem inStep_more (hp : p.machine.tape.InRange) (hlimit : LimitLe p.machine.output.failAfter limit)
    (h : ∀ k q cause, after? tokens k p = some q → ¬q.FallsShort tokens bytes limit cause) (k : Nat) (q : Point)
    (hq : after? tokens k p = some q) : q.InStep (·.more bytes limit) tokens tokens := by
  rcases step_more tokens bytes (inRange_of_after? hp hq) (failAfter_of_after? hq ▸ hlimit) with hsame | ⟨cause, hshort⟩
  · exact hsame
  · exact absurd hshort (h k q cause hq)

/-- A run that never falls short is the one with more supplied: the two have the same points. -/
theorem after?_more_eq_map (hp : p.machine.tape.InRange) (hlimit : LimitLe p.machine.output.failAfter limit)
    (h : ∀ k q cause, after? tokens k p = some q → ¬q.FallsShort tokens bytes limit cause) (n : Nat) :
    after? tokens n (p.more bytes limit) = (after? tokens n p).map (more · bytes limit) :=
  after?_map (inStep_more hp hlimit h) n

/-- A run that never falls short is the one with more supplied: the two have the same end. -/
theorem runFrom_more_eq_map (hp : p.machine.tape.InRange) (hlimit : LimitLe p.machine.output.failAfter limit)
    (h : ∀ k q cause, after? tokens k p = some q → ¬q.FallsShort tokens bytes limit cause) (steps : Nat) :
    Machine.runFrom tokens.toArray steps p.index (p.machine.more bytes limit) =
      (Machine.runFrom tokens.toArray steps p.index p.machine).map fun ended => (ended.1.more bytes limit, ended.2) :=
  runFrom_map (inStep_more hp hlimit h) steps

/-- Before the point where a run falls short no token lacks anything. -/
theorem not_lacks_of_lt {t : Token} (hk : after? tokens k p = some q) (hn : after? tokens n p = some r) (hlt : k < n)
    (ht : tokens[q.index]? = some t) : ¬q.machine.Lacks t cause := by
  intro hlacks
  obtain ⟨q', hnext⟩ := exists_next?_of_lt hk hn hlt
  obtain ⟨t', ht', hexec⟩ := exec_of_next? hnext
  obtain rfl : t = t' := Option.some.inj (ht.symm.trans ht')
  exact hlacks.exec_ne_next hexec

/-- A run that fails at a point ends there, with the number of steps that it takes to get there and one more. -/
theorem run_eq_some_iff_of_end? {m m' : Machine} (hp : after? tokens n ⟨m, 0⟩ = some p)
    (hend : p.end? tokens = some (m', .failed cause)) (steps : Nat) (ended : Machine × Outcome) :
    m.run steps tokens = some ended ↔ n < steps ∧ ended = (m', .failed cause) := by
  obtain ⟨m₁, o⟩ := ended
  constructor
  · intro hrun
    obtain ⟨k, q, hq, hended, hle⟩ := runFrom_eq_some_iff (p := ⟨m, 0⟩) |>.mp hrun
    obtain ⟨rfl, heq⟩ := eq_of_end? hp hend hq hended
    cases heq
    exact ⟨hle, rfl⟩
  · rintro ⟨hlt, heq⟩
    cases heq
    exact runFrom_eq_some_iff (p := ⟨m, 0⟩) |>.mpr ⟨n, p, hp, hend, hlt⟩

end Point

namespace Machine

/-- The run with more supplied is the same run: it has the same points and, with any number of steps, the same end. -/
def SameRun (tokens : List Token) (bytes : List UInt8) (limit : Option Nat) (m : Machine) : Prop :=
  (∀ n, Point.after? tokens n ⟨m.more bytes limit, 0⟩ = (Point.after? tokens n ⟨m, 0⟩).map (·.more bytes limit)) ∧
    ∀ steps, (m.more bytes limit).run steps tokens =
      (m.run steps tokens).map fun ended => (ended.1.more bytes limit, ended.2)

/-- The run is cut short: it ends at the first token that lacks something, and leaves on the machine what the run with more
supplied, which goes on, has there when it is about to execute this token. -/
def CutShort (tokens : List Token) (bytes : List UInt8) (limit : Option Nat) (m : Machine) : Prop :=
  ∃ n p cause, Point.after? tokens n ⟨m, 0⟩ = some p ∧ p.FallsShort tokens bytes limit cause ∧
    (∀ k < n, ∀ q t cause, Point.after? tokens k ⟨m, 0⟩ = some q → tokens[q.index]? = some t → ¬q.machine.Lacks t cause) ∧
    (∀ steps ended, m.run steps tokens = some ended ↔ n < steps ∧ ended = (p.machine, .failed cause)) ∧
    Point.after? tokens n ⟨m.more bytes limit, 0⟩ = some (p.more bytes limit)

end Machine

/-- A run and the one with more bytes to read and more room to write are the same, or the first is cut short. What the first has
written at its end the other has written at some moment, and it does not take it back. A token that fails in one of the two leaves
the machine as it found it. -/
theorem sameRun_or_cutShort (tokens : List Token) {m : Machine} (hm : m.tape.InRange) (bytes : List UInt8)
    {limit : Option Nat} (hlimit : LimitLe m.output.failAfter limit) :
    (m.SameRun tokens bytes limit ∨ m.CutShort tokens bytes limit) ∧
      (∀ steps r o, m.run steps tokens = some (r, o) →
        (∃ n q, Point.after? tokens n ⟨m.more bytes limit, 0⟩ = some q ∧ q.machine = r.more bytes limit ∧
          ∀ k q', n ≤ k → Point.after? tokens k ⟨m.more bytes limit, 0⟩ = some q' →
            r.output.written.toList <+: q'.machine.output.written.toList) ∧
        ∀ steps' r' o', (m.more bytes limit).run steps' tokens = some (r', o') →
          r.output.written.toList <+: r'.output.written.toList) ∧
      ∀ first ∈ [m, m.more bytes limit], ∀ steps r cause, first.run steps tokens = some (r, .failed cause) →
        ∃ n p, Point.after? tokens n ⟨first, 0⟩ = some p ∧ p.end? tokens = some (r, .failed cause) ∧ p.machine = r := by
  refine ⟨?_, ?_, ?_⟩
  · by_cases hshort : ∃ n p cause, Point.after? tokens n ⟨m, 0⟩ = some p ∧ p.FallsShort tokens bytes limit cause
    · obtain ⟨n, p, cause, hp, hfalls⟩ := hshort
      refine Or.inr ⟨n, p, cause, hp, hfalls, ?_, Point.run_eq_some_iff_of_end? hp hfalls.2.1, ?_⟩
      · intro k hlt q t cause' hq ht
        exact Point.not_lacks_of_lt hq hp hlt ht
      · exact Point.after?_more (p := ⟨m, 0⟩) hm hlimit hp
    · have hnever : ∀ k q cause, Point.after? tokens k ⟨m, 0⟩ = some q → ¬q.FallsShort tokens bytes limit cause :=
        fun k q cause hq hfalls => hshort ⟨k, q, cause, hq, hfalls⟩
      exact Or.inl ⟨Point.after?_more_eq_map (p := ⟨m, 0⟩) hm hlimit hnever,
        Point.runFrom_more_eq_map (p := ⟨m, 0⟩) hm hlimit hnever⟩
  · intro steps r o hrun
    obtain ⟨n, p, hp, hend, rfl⟩ := Point.exists_after?_of_run hm hrun
    have hmore : Point.after? tokens n ⟨m.more bytes limit, 0⟩ = some (p.more bytes limit) :=
      Point.after?_more (p := ⟨m, 0⟩) hm hlimit hp
    have hlater : ∀ k q', n ≤ k → Point.after? tokens k ⟨m.more bytes limit, 0⟩ = some q' →
        p.machine.output.written.toList <+: q'.machine.output.written.toList := by
      intro k q' hle hq'
      obtain ⟨j, rfl⟩ := Nat.exists_eq_add_of_le hle
      rw [Point.after?_add, hmore, Option.bind_some] at hq'
      exact Point.written_of_after? (p := p.more bytes limit) hq'
    refine ⟨⟨n, p.more bytes limit, hmore, rfl, hlater⟩, ?_⟩
    intro steps' r' o' hrun'
    obtain ⟨k, q', hq', hend', rfl⟩ := Point.exists_after?_of_run (m := m.more bytes limit) hm hrun'
    refine hlater k q' (Nat.le_of_not_lt fun hlt => ?_) hq'
    -- The run with more supplied does not end where the other one goes on.
    obtain ⟨q'', hnext⟩ := Point.exists_next?_of_lt hq' hmore hlt
    rw [Point.end?_of_next? hnext] at hend'
    cases hend'
  · intro first hfirst steps r cause hrun
    have hin : first.tape.InRange := by
      simp only [List.mem_cons, List.not_mem_nil, or_false] at hfirst
      rcases hfirst with rfl | rfl
      · exact hm
      · exact hm
    exact Point.exists_after?_of_run hin hrun

/-- The program `,[.,]` on the input 7, 8 with room for one byte. With a 0 behind the input and room for all it would write both
bytes and end; so it stops at the second write, with the 8 in its cell. -/
theorem sameRun_or_cutShort_echo :
    ∃ tokens m, tokens = [.input .null, .loopStart (some (.nat 4)), .output .null, .input .null, .loopEnd (some (.nat 1))] ∧
      m = { Machine.feed ⟨1, .blank 1, {}, {}⟩ [7, 8] with output := ⟨#[], some 1⟩ } ∧ m.tape.InRange ∧
        LimitLe m.output.failAfter none ∧ m.CutShort tokens [0] none ∧
        ∃ r, m.run 9 tokens = some (r, .failed .outputFull) ∧ r.output.written = #[7] ∧ r.tape.cell = 8 := by
  have hm : ({ Machine.feed ⟨1, .blank 1, {}, {}⟩ [7, 8] with output := ⟨#[], some 1⟩ } : Machine).tape.InRange := by decide
  have hlimit : LimitLe (some 1) none := nofun
  obtain ⟨hsame | hcut, -⟩ := sameRun_or_cutShort
    [.input .null, .loopStart (some (.nat 4)), .output .null, .input .null, .loopEnd (some (.nat 1))] hm [0] hlimit
  · have hrun := hsame.2 20
    cases hrun
  · exact ⟨_, _, rfl, rfl, hm, hlimit, hcut, _, rfl, rfl, rfl⟩

end Brainfuck
