import Brainfuck.Machine

/-!
# Runs

A run executes the tokens of a program from the first on, until it comes to an index behind the last or a token fails. It may go
on for ever. What a run comes to is therefore asked for with a number of steps, and the answer is none while that many tokens
are not enough; with more steps an answer stays the same.
-/

namespace Brainfuck

/-- How a run ends. -/
inductive Outcome where
  | finished
  | failed (cause : RuntimeError)
  deriving DecidableEq, Repr

/-- Why a source does not run to its end. -/
inductive RunError where
  | unmatched (loop : UnmatchedLoop)
  | runtime (cause : RuntimeError)
  deriving DecidableEq, Repr

namespace Machine

/-- The end of the run that goes on at `index`, if at most `steps` tokens bring it about. -/
def runFrom (program : Array Token) : Nat → Nat → Machine → Option (Machine × Outcome)
  | steps, index, m =>
    if h : index < program.size then
      match steps with
      | 0 => none
      | steps + 1 =>
        match m.exec index program[index] with
        | .next m' index' => runFrom program steps index' m'
        | .failed m' cause => some (m', .failed cause)
    else some (m, .finished)

/-- The end of a run of the tokens, if at most `steps` tokens bring it about. -/
def run (steps : Nat) (tokens : List Token) (m : Machine) : Option (Machine × Outcome) :=
  runFrom tokens.toArray steps 0 m

/-- The end of a run of a source, with the number of its tokens or the reason why it fails. A source that cannot be compiled
leaves the machine alone. -/
def runSource (steps : Nat) (options : Program.Options) (source : List Char) (m : Machine) :
    Option (Machine × Except RunError Nat) :=
  match Program.compile options source with
  | .error e => some (m, .error (.unmatched e))
  | .ok tokens =>
    (m.run steps tokens).map fun
      | (m', .finished) => (m', .ok tokens.length)
      | (m', .failed cause) => (m', .error (.runtime cause))

/-- More steps than a run that comes to an end takes in a lifetime. -/
def manySteps : Nat := 1000000000000000000

/-! ## Helpers: one token at a time, more steps, and what a run keeps -/

/-- A run that goes on at `index` is over if no token is there, and otherwise it takes a step for the token there. -/
theorem runFrom_eq (tokens : List Token) (steps index : Nat) (m : Machine) :
    runFrom tokens.toArray steps index m =
      match tokens[index]?, steps with
      | none, _ => some (m, .finished)
      | some _, 0 => none
      | some t, steps + 1 =>
        match m.exec index t with
        | .next m' index' => runFrom tokens.toArray steps index' m'
        | .failed m' cause => some (m', .failed cause) := by
  rw [runFrom.eq_def]
  by_cases h : index < tokens.length
  · cases steps <;> simp [h]
  · simp [h]

/-- A run that has come to its end with some steps comes to the same end with more. -/
theorem runFrom_of_le {tokens : List Token} {steps steps' index : Nat} {m : Machine} {r : Machine × Outcome}
    (hle : steps ≤ steps') (h : runFrom tokens.toArray steps index m = some r) :
    runFrom tokens.toArray steps' index m = some r := by
  induction steps generalizing steps' index m with
  | zero =>
    rw [runFrom_eq] at h ⊢
    cases ht : tokens[index]? with
    | none => simpa [ht] using h
    | some t => simp [ht] at h
  | succ steps ih =>
    obtain ⟨steps', rfl⟩ : ∃ k, steps' = k + 1 := ⟨steps' - 1, by omega⟩
    rw [runFrom_eq] at h ⊢
    cases ht : tokens[index]? with
    | none => simpa [ht] using h
    | some t =>
      simp only [ht] at h ⊢
      cases he : m.exec index t with
      | next m' index' =>
        simp only [he] at h ⊢
        exact ih (by omega) h
      | failed m' cause => simpa [he] using h

/-- A run that has come to its end with some steps comes to the same end with more. -/
theorem run_of_le {tokens : List Token} {steps steps' : Nat} {m : Machine} {r : Machine × Outcome}
    (hle : steps ≤ steps') (h : m.run steps tokens = some r) : m.run steps' tokens = some r :=
  runFrom_of_le hle h

/-- A run keeps the capacity. -/
theorem capacity_of_runFrom {tokens : List Token} {steps index : Nat} {m m' : Machine} {o : Outcome}
    (h : runFrom tokens.toArray steps index m = some (m', o)) : m'.capacity = m.capacity := by
  induction steps generalizing index m with
  | zero =>
    rw [runFrom_eq] at h
    cases ht : tokens[index]? with
    | none =>
      simp only [ht] at h
      cases h
      rfl
    | some t => simp [ht] at h
  | succ steps ih =>
    rw [runFrom_eq] at h
    cases ht : tokens[index]? with
    | none =>
      simp only [ht] at h
      cases h
      rfl
    | some t =>
      simp only [ht] at h
      cases he : m.exec index t with
      | next m₁ index₁ =>
        simp only [he] at h
        exact (ih h).trans (capacity_of_exec he)
      | failed m₁ cause =>
        simp only [he] at h
        cases h
        exact capacity_of_exec_failed he

/-! ## Helpers: a source and its program -/

/-- A run of a source ends as that of its program does, and a source that cannot be compiled leaves the machine as it was. -/
theorem runSource_eq_some_iff {steps : Nat} {options : Program.Options} {source : List Char} {m m' : Machine}
    {result : Except RunError Nat} :
    m.runSource steps options source = some (m', result) ↔
      match result with
      | .ok count => ∃ tokens, Program.compile options source = .ok tokens ∧
          m.run steps tokens = some (m', .finished) ∧ tokens.length = count
      | .error (.runtime cause) => ∃ tokens, Program.compile options source = .ok tokens ∧
          m.run steps tokens = some (m', .failed cause)
      | .error (.unmatched loop) => Program.compile options source = .error loop ∧ m = m' := by
  unfold runSource
  cases Program.compile options source with
  | error e => rcases result with (loop | cause) | count <;> simp [and_comm]
  | ok tokens =>
    cases hrun : m.run steps tokens with
    | none => rcases result with (loop | cause) | count <;> simp [hrun]
    | some r =>
      obtain ⟨m₁, _ | cause⟩ := r
      · rcases result with (loop | cause') | count <;> simp [hrun]
      · rcases result with (loop | cause') | count <;> simp [hrun]

/-- A run of a source has not ended as long as that of its program has not. -/
theorem runSource_eq_none_iff {steps : Nat} {options : Program.Options} {source : List Char} {m : Machine} :
    m.runSource steps options source = none ↔
      ∃ tokens, Program.compile options source = .ok tokens ∧ m.run steps tokens = none := by
  unfold runSource
  cases Program.compile options source with
  | error e => simp
  | ok tokens => simp

/-- A run of a source that has come to its end with some steps comes to the same end with more. -/
theorem runSource_of_le {steps steps' : Nat} {options : Program.Options} {source : List Char} {m : Machine}
    {r : Machine × Except RunError Nat} (hle : steps ≤ steps') (h : m.runSource steps options source = some r) :
    m.runSource steps' options source = some r := by
  unfold runSource at h ⊢
  cases hcompile : Program.compile options source with
  | error e => simpa only [hcompile] using h
  | ok tokens =>
    simp only [hcompile, Option.map_eq_some_iff] at h ⊢
    obtain ⟨ended, hrun, hr⟩ := h
    exact ⟨ended, run_of_le hle hrun, hr⟩

/-- A run of a source has one end, however many steps show it. -/
theorem runSource_det {steps steps' : Nat} {options : Program.Options} {source : List Char} {m : Machine}
    {r r' : Machine × Except RunError Nat} (h : m.runSource steps options source = some r)
    (h' : m.runSource steps' options source = some r') : r = r' := by
  have hmax := runSource_of_le (Nat.le_max_left steps steps') h
  rw [runSource_of_le (Nat.le_max_right steps steps') h'] at hmax
  exact (Option.some.inj hmax).symm

/-- A run of a source keeps the capacity. -/
theorem capacity_of_runSource {steps : Nat} {options : Program.Options} {source : List Char} {m m' : Machine}
    {result : Except RunError Nat} (h : m.runSource steps options source = some (m', result)) : m'.capacity = m.capacity := by
  rcases result with (loop | cause) | count
  · obtain ⟨-, rfl⟩ := runSource_eq_some_iff.mp h
    rfl
  · obtain ⟨tokens, -, hrun⟩ := runSource_eq_some_iff.mp h
    exact capacity_of_runFrom hrun
  · obtain ⟨tokens, -, hrun, -⟩ := runSource_eq_some_iff.mp h
    exact capacity_of_runFrom hrun

end Machine

end Brainfuck
