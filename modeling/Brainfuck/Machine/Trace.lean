import Brainfuck.Machine.Run

/-!
# Points of a run

A run seen from inside: the machine and the index of the token to execute next, after any number of tokens. A run comes to an
end at a point where no token is left or the token fails, and `runFrom_eq_some_iff` says that these ends are the answers of a run.
-/

namespace Brainfuck

/-- A point of a run: the machine, and the index of the token to execute next. -/
structure Point where
  machine : Machine
  index : Nat
  deriving DecidableEq, Repr

namespace Point

/-- The point after one more token, if there is a token and it does not fail. -/
def next? (tokens : List Token) (p : Point) : Option Point :=
  match tokens[p.index]? with
  | none => none
  | some t =>
    match p.machine.exec p.index t with
    | .next m index => some ⟨m, index⟩
    | .failed .. => none

/-- The point after a number of tokens, if the run gets so far. -/
def after? (tokens : List Token) : Nat → Point → Option Point
  | 0, p => some p
  | n + 1, p => (p.next? tokens).bind (after? tokens n)

/-- How the run ends at a point, if it does: the machine at the end and the outcome. -/
def end? (tokens : List Token) (p : Point) : Option (Machine × Outcome) :=
  match tokens[p.index]? with
  | none => some (p.machine, .finished)
  | some t =>
    match p.machine.exec p.index t with
    | .next .. => none
    | .failed m cause => some (m, .failed cause)

/-- The number of steps that the end of the run at a point takes: a token that fails takes one. -/
def endSteps : Outcome → Nat
  | .finished => 0
  | .failed _ => 1

/-- A run that ends at a point leaves the machine of the point, if there is a cell under the cursor. -/
theorem machine_of_end? {tokens : List Token} {p : Point} {m : Machine} {o : Outcome}
    (hp : p.machine.tape.onCell = true) (h : p.end? tokens = some (m, o)) : m = p.machine := by
  unfold end? at h
  split at h
  · simp_all
  · split at h
    · simp at h
    · rename_i he
      have := Machine.exec_failed hp he
      simp_all

/-- A run keeps the cursor of the tape in range at all of its points. -/
theorem inRange_of_after? {tokens : List Token} {n : Nat} {p q : Point} (hp : p.machine.tape.InRange)
    (h : after? tokens n p = some q) : q.machine.tape.InRange := by
  induction n generalizing p with
  | zero => cases h; exact hp
  | succ n ih =>
    rw [after?, Option.bind_eq_some_iff] at h
    obtain ⟨r, hr, hq⟩ := h
    refine ih ?_ hq
    unfold next? at hr
    split at hr
    · simp at hr
    · split at hr
      · rename_i he
        cases hr
        exact Machine.inRange_of_exec hp he
      · simp at hr

/-- A run comes to an end with a number of steps if and only if it ends at some point that these steps reach. -/
theorem runFrom_eq_some_iff {tokens : List Token} {steps : Nat} {p : Point} {m : Machine} {o : Outcome} :
    Machine.runFrom tokens.toArray steps p.index p.machine = some (m, o) ↔
      ∃ n q, after? tokens n p = some q ∧ q.end? tokens = some (m, o) ∧ n + endSteps o ≤ steps := by
  induction steps generalizing p with
  | zero =>
    rw [Machine.runFrom_eq]
    cases ht : tokens[p.index]? with
    | none =>
      constructor
      · rintro ⟨⟩
        exact ⟨0, p, rfl, by simp [end?, ht], by simp [endSteps]⟩
      · rintro ⟨n, q, hn, ho, hle⟩
        obtain rfl : n = 0 := by omega
        cases hn
        simp_all [end?]
    | some t =>
      refine iff_of_false (by simp) ?_
      rintro ⟨n, q, hn, ho, hle⟩
      obtain rfl : n = 0 := by omega
      cases hn
      simp only [end?, ht] at ho
      split at ho
      · simp at ho
      · cases ho
        simp [endSteps] at hle
  | succ steps ih =>
    rw [Machine.runFrom_eq]
    cases ht : tokens[p.index]? with
    | none =>
      constructor
      · rintro ⟨⟩
        exact ⟨0, p, rfl, by simp [end?, ht], by simp [endSteps]⟩
      · rintro ⟨n, q, hn, ho, hle⟩
        cases n with
        | zero => cases hn; simp_all [end?]
        | succ n => simp [after?, next?, ht] at hn
    | some t =>
      cases he : p.machine.exec p.index t with
      | next m' index' =>
        simp only [he]
        rw [show Machine.runFrom tokens.toArray steps index' m' =
          Machine.runFrom tokens.toArray steps (Point.mk m' index').index (Point.mk m' index').machine from rfl, ih]
        constructor
        · rintro ⟨n, q, hn, ho, hle⟩
          exact ⟨n + 1, q, by simpa [after?, next?, ht, he] using hn, ho, by omega⟩
        · rintro ⟨n, q, hn, ho, hle⟩
          cases n with
          | zero => cases hn; simp [end?, ht, he] at ho
          | succ n => exact ⟨n, q, by simpa [after?, next?, ht, he] using hn, ho, by omega⟩
      | failed m' cause =>
        simp only [he]
        constructor
        · rintro ⟨⟩
          exact ⟨0, p, rfl, by simp [end?, ht, he], by simp [endSteps]⟩
        · rintro ⟨n, q, hn, ho, hle⟩
          cases n with
          | zero => cases hn; simp_all [end?]
          | succ n => simp [after?, next?, ht, he] at hn

/-- A run that ends, well or not, ends at a point and leaves the machine of that point. -/
theorem exists_after?_of_run {tokens : List Token} {m m' : Machine} {o : Outcome} {steps : Nat}
    (hm : m.tape.InRange) (h : m.run steps tokens = some (m', o)) :
    ∃ n p, after? tokens n ⟨m, 0⟩ = some p ∧ p.end? tokens = some (m', o) ∧ p.machine = m' := by
  obtain ⟨n, p, hp, hend, -⟩ := runFrom_eq_some_iff (p := ⟨m, 0⟩) |>.mp h
  have hcell := (@inRange_of_after? _ _ ⟨m, 0⟩ _ hm hp).onCell
  exact ⟨n, p, hp, hend, (machine_of_end? hcell hend).symm⟩

end Point

end Brainfuck
