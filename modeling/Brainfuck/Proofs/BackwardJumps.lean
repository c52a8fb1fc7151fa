import Brainfuck.Proofs.Targets
import Mathlib.Data.Nat.Count

/-!
# Jumps back

What keeps a run going. A token leads to the one behind it or further on, unless it is the end of a loop that jumps (`Point.TurnsBack`).
So between two jumps of this kind a run executes each token of the program at most once (`Machine.le_of_after?`), and a run that goes on
for ever jumps back again and again (`run_ends_or_turnsBack`). This holds of programs that were paired. With targets set by hand it is
enough that no jump that is taken leads below its own token.
-/

namespace Brainfuck

namespace Point

variable {tokens linked : List Token} {p q : Point}

/-! ## Runs that get far enough -/

/-- A run ends with a number of steps if these can lead to no other place than behind the last token. -/
theorem exists_runFrom {steps : Nat} (h : ∀ q, after? tokens steps p = some q → tokens.length ≤ q.index) :
    ∃ ended, Machine.runFrom tokens.toArray steps p.index p.machine = some ended := by
  induction steps generalizing p with
  | zero =>
    rw [Machine.runFrom_eq, List.getElem?_eq_none (h p rfl)]
    exact ⟨_, rfl⟩
  | succ steps ih =>
    rw [Machine.runFrom_eq]
    cases ht : tokens[p.index]? with
    | none => exact ⟨_, rfl⟩
    | some t =>
      cases hexec : p.machine.exec p.index t with
      | next m index =>
        have hnext : p.next? tokens = some ⟨m, index⟩ := next?_of_exec ht hexec
        simp only [hexec]
        refine @ih ⟨m, index⟩ fun q hq => h q ?_
        rw [after?_succ_of_next? hnext, hq]
      | failed m cause =>
        simp only [hexec]
        exact ⟨_, rfl⟩

/-- A point that leads to another has a token. -/
theorem lt_of_next? (h : p.next? tokens = some q) : p.index < tokens.length := by
  obtain ⟨t, ht, -⟩ := exec_of_next? h
  exact (List.getElem?_eq_some_iff.mp ht).1

/-! ## Jumps of paired programs -/

/-- The token of a point is the end of a loop, and it jumps. -/
def TurnsBack (tokens : List Token) (p : Point) : Prop :=
  ∃ t, tokens[p.index]? = some t ∧ t.kind = .loopEnd ∧ p.machine.tape.cell ≠ 0

instance (tokens : List Token) (p : Point) : Decidable (p.TurnsBack tokens) :=
  inferInstanceAs (Decidable (∃ t ∈ tokens[p.index]?, t.kind = .loopEnd ∧ p.machine.tape.cell ≠ 0))

/-- A token of a paired program leads further on, unless it turns back, and never further than behind the last. -/
theorem index_lt_of_next? (h : Program.resolve tokens = .ok linked) (hp : p.machine.tape.InRange) (hnext : p.next? linked = some q) :
    q.index ≤ linked.length ∧ (¬ p.TurnsBack linked → p.index < q.index) := by
  by_cases hjumps : p.Jumps linked
  · obtain ⟨partner, hmatched, hjump⟩ := next?_of_jumps h hp hjumps
    obtain rfl : ⟨p.machine, partner + 1⟩ = q := Option.some.inj (hjump.symm.trans hnext)
    rcases hmatched with hpartners | hpartners
    · obtain ⟨target, hstop⟩ := hpartners.closes
      exact ⟨(List.getElem?_eq_some_iff.mp hstop).1, fun _ => Nat.lt_succ_of_lt hpartners.lt⟩
    · obtain ⟨target, hstart⟩ := hpartners.opens
      refine ⟨(List.getElem?_eq_some_iff.mp hstart).1, fun hnot => absurd ?_ hnot⟩
      obtain ⟨target', hstop⟩ := hpartners.closes
      obtain ⟨t, ht, hcell⟩ := hjumps
      obtain rfl := Option.some.inj (ht.symm.trans hstop)
      exact ⟨_, ht, rfl, by simpa [Token.jumpsOn] using hcell⟩
  · rw [index_of_next? hjumps hnext]
    exact ⟨lt_of_next? hnext, fun _ => Nat.lt_succ_self _⟩

end Point

namespace Machine

variable {tokens linked : List Token} {m : Machine} {n : Nat} {p : Point}

/-- The token that a run executes after so many others turns back. -/
def TurnsBackAt (tokens : List Token) (m : Machine) (n : Nat) : Prop :=
  ∃ p, Point.after? tokens n ⟨m, 0⟩ = some p ∧ p.TurnsBack tokens

instance (tokens : List Token) (m : Machine) : DecidablePred (m.TurnsBackAt tokens) := fun n =>
  inferInstanceAs (Decidable (∃ p ∈ Point.after? tokens n ⟨m, 0⟩, p.TurnsBack tokens))

/-- The tokens that a run of a paired program has executed: at most all of them for each time that it turned back, and those before the
next one. -/
theorem le_of_after? (h : Program.resolve tokens = .ok linked) (hm : m.tape.InRange) (hp : Point.after? linked n ⟨m, 0⟩ = some p) :
    n ≤ Nat.count (m.TurnsBackAt linked) n * linked.length + p.index ∧ p.index ≤ linked.length := by
  induction n generalizing p with
  | zero =>
    cases hp
    exact ⟨Nat.zero_le _, Nat.zero_le _⟩
  | succ n ih =>
    obtain ⟨q, hq, hnext⟩ := Point.after?_succ_eq_some_iff.mp hp
    obtain ⟨hle, hindex⟩ := ih hq
    have hin : q.machine.tape.InRange := @Point.inRange_of_after? _ _ ⟨m, 0⟩ _ hm hq
    have hlt := Point.lt_of_next? hnext
    obtain ⟨hend, hon⟩ := Point.index_lt_of_next? h hin hnext
    refine ⟨?_, hend⟩
    rw [Nat.count_succ, Nat.add_mul]
    by_cases hturns : q.TurnsBack linked
    · rw [if_pos ⟨q, hq, hturns⟩, Nat.one_mul]
      omega
    · have hnot : ¬ m.TurnsBackAt linked n := by
        rintro ⟨q', hq', hturns'⟩
        obtain rfl := Option.some.inj (hq.symm.trans hq')
        exact hturns hturns'
      have hfurther := hon hturns
      rw [if_neg hnot, Nat.zero_mul]
      omega

/-- A run of a paired program that turns back a limited number of times ends, with as many steps as the program has tokens for each of
these times and once more. -/
theorem exists_run_of_count_le (h : Program.resolve tokens = .ok linked) (hm : m.tape.InRange) {b : Nat}
    (hcount : ∀ n, Nat.count (m.TurnsBackAt linked) n ≤ b) : ∃ ended, m.run ((b + 1) * linked.length) linked = some ended := by
  refine Point.exists_runFrom (p := ⟨m, 0⟩) ?_
  intro q hq
  have hle := (le_of_after? h hm hq).1
  have hmul := Nat.mul_le_mul_right linked.length (hcount ((b + 1) * linked.length))
  rw [Nat.add_mul, Nat.one_mul] at *
  omega

/-- A run of a paired program that turns back only finitely often ends. -/
theorem exists_run_of_finite (h : Program.resolve tokens = .ok linked) (hm : m.tape.InRange)
    (hfinite : {n | m.TurnsBackAt linked n}.Finite) : ∃ steps ended, m.run steps linked = some ended :=
  ⟨_, exists_run_of_count_le h hm (Nat.count_le_card hfinite)⟩

/-! ## Targets set by hand -/

/-- No jump that a run takes leads to a target below its own token. -/
def NeverDescends (tokens : List Token) (m : Machine) : Prop :=
  ∀ n p t target, Point.after? tokens n ⟨m, 0⟩ = some p → tokens[p.index]? = some t → t.jumpsOn p.machine.tape.cell = true →
    t.target? = some target → p.index ≤ target.toNat

/-- A token that jumps goes on behind its target. -/
theorem index_of_exec_of_jumpsOn {m' : Machine} {t : Token} {index index' : Nat} (ht : t.jumpsOn m.tape.cell = true)
    (h : m.exec index t = .next m' index') : ∃ target, t.target? = some target ∧ index' = target.toNat + 1 := by
  by_cases hm : m.tape.onCell = true
  · rw [exec_of_jumpsOn hm ht] at h
    cases htarget : t.target? with
    | none =>
      rw [htarget] at h
      cases h
    | some target =>
      rw [htarget] at h
      cases h
      exact ⟨target, rfl, rfl⟩
  · cases t <;> simp [Token.jumpsOn] at ht
    all_goals simp [exec, branch, hm] at h

/-- A run that never descends gets further with each token. -/
theorem NeverDescends.le_of_after? (h : m.NeverDescends tokens) (hp : Point.after? tokens n ⟨m, 0⟩ = some p) : n ≤ p.index := by
  induction n generalizing p with
  | zero => exact Nat.zero_le _
  | succ n ih =>
    obtain ⟨q, hq, hnext⟩ := Point.after?_succ_eq_some_iff.mp hp
    have hle := ih hq
    by_cases hjumps : q.Jumps tokens
    · obtain ⟨t, ht, hcell⟩ := hjumps
      obtain ⟨t', ht', hexec⟩ := Point.exec_of_next? hnext
      obtain rfl := Option.some.inj (ht.symm.trans ht')
      obtain ⟨target, htarget, hindex⟩ := index_of_exec_of_jumpsOn hcell hexec
      have hon := h n q t target hq ht hcell htarget
      omega
    · have hindex := Point.index_of_next? hjumps hnext
      omega

end Machine

/-- Only jumps back keep a program running. The run of a compiled source executes at most `b + 1` times as many tokens as the program has
before the end of a loop jumps for the next time after `b` times. So a run that never ends turns back infinitely often, and one that
turns back only finitely often ends. And a run of any tokens at all, paired or not, ends with as many steps as there are tokens if no
jump that it takes leads to a target below its own token. -/
theorem run_ends_or_turnsBack {m : Machine} :
    (m.tape.InRange → ∀ options source, Source.Balanced source → ∃ tokens, Program.compile options source = .ok tokens ∧
      (∀ b n p, Point.after? tokens n ⟨m, 0⟩ = some p → Nat.count (m.TurnsBackAt tokens) n ≤ b →
        n ≤ (b + 1) * tokens.length ∧ (p.index < tokens.length → n < (b + 1) * tokens.length)) ∧
      ((∀ steps, m.run steps tokens = none) → {n | m.TurnsBackAt tokens n}.Infinite) ∧
      ({n | m.TurnsBackAt tokens n}.Finite → ∃ steps ended, m.run steps tokens = some ended)) ∧
    ∀ tokens, m.NeverDescends tokens → ∃ ended, m.run tokens.length tokens = some ended := by
  refine ⟨?_, ?_⟩
  · intro hm options source hbalanced
    obtain ⟨tokens, hcompile⟩ := Program.exists_compile hbalanced options
    refine ⟨tokens, hcompile, ?_⟩
    rw [Program.compile_eq_resolve] at hcompile
    refine ⟨?_, ?_, Machine.exists_run_of_finite hcompile hm⟩
    · intro b n p hp hcount
      obtain ⟨hle, hindex⟩ := Machine.le_of_after? hcompile hm hp
      have hmul := Nat.mul_le_mul_right tokens.length hcount
      rw [Nat.add_mul, Nat.one_mul]
      omega
    · intro hnone hfinite
      obtain ⟨steps, ended, hrun⟩ := Machine.exists_run_of_finite hcompile hm hfinite
      rw [hnone steps] at hrun
      cases hrun
  · intro tokens h
    exact Point.exists_runFrom (p := ⟨m, 0⟩) fun q hq => h.le_of_after? hq

/-- The source `++[-]` has turned back once and executed five tokens when it is at the end of the loop for the second time. The source
`+[]` never ends, and turns back for ever. Tokens that no source has, with an end that leads to itself, end at once. -/
theorem run_ends_or_turnsBack_endless :
    let m : Machine := ⟨1, .blank 1, {}, {}⟩
    let clearing : List Token := [.increment (.nat 2), .loopStart (some (.nat 3)), .decrement (.nat 1), .loopEnd (some (.nat 1))]
    let endless : List Token := [.increment (.nat 1), .loopStart (some (.nat 2)), .loopEnd (some (.nat 1))]
    let ownTarget : List Token := [.increment (.nat 1), .loopEnd (some (.nat 1)), .output .null]
    (m.tape.InRange ∧ Source.Balanced ['+', '+', '[', '-', ']'] ∧ Source.Balanced ['+', '[', ']'] ∧ m.NeverDescends ownTarget) ∧
      (Program.compile {} ['+', '+', '[', '-', ']'] = .ok clearing ∧ Nat.count (m.TurnsBackAt clearing) 5 = 1 ∧
        5 < 2 * clearing.length ∧ ∃ steps ended, m.run steps clearing = some ended) ∧
      (Program.compile {} ['+', '[', ']'] = .ok endless ∧ (∀ steps, m.run steps endless = none) ∧
        {n | m.TurnsBackAt endless n}.Infinite) ∧
      ∃ ended, m.run 3 ownTarget = some ended := by
  intro m clearing endless ownTarget
  have hm : m.tape.InRange := by decide
  have hclearing : Source.Balanced ['+', '+', '[', '-', ']'] := by decide
  have hendless : Source.Balanced ['+', '[', ']'] := by decide
  have hown : m.NeverDescends ownTarget := by
    intro n p t target _ ht _ htarget
    generalize p.index = index at ht ⊢
    rcases index with _ | _ | _ | index
    · exact Nat.zero_le _
    · cases ht
      cases htarget
      exact Nat.le_refl _
    · cases ht
      cases htarget
    · cases ht
  refine ⟨⟨hm, hclearing, hendless, hown⟩, ?_, ?_, run_ends_or_turnsBack.2 ownTarget hown⟩
  · obtain ⟨tokens, hcompile, hbound, -, hends⟩ := run_ends_or_turnsBack.1 hm {} _ hclearing
    obtain rfl : clearing = tokens := Except.ok.inj hcompile
    -- the run is over after seven tokens
    have hlate : ∀ n, m.TurnsBackAt clearing n → n < 7 := by
      rintro n ⟨p, hp, -⟩
      by_contra hle
      obtain ⟨k, rfl⟩ := Nat.exists_eq_add_of_le (Nat.le_of_not_lt hle)
      rw [Point.after?_add] at hp
      cases hp
    have hcount : Nat.count (m.TurnsBackAt clearing) 5 = 1 := by decide
    have hpoint : Point.after? clearing 5 ⟨m, 0⟩ = some ⟨⟨1, ⟨#[0], 0⟩, {}, {}⟩, 3⟩ := rfl
    have hfive := (hbound 1 5 _ hpoint (Nat.le_of_eq hcount)).2 (by decide)
    exact ⟨hcompile, hcount, hfive, hends ((Set.finite_lt_nat 7).subset hlate)⟩
  · obtain ⟨tokens, hcompile, -, hturns, -⟩ := run_ends_or_turnsBack.1 hm {} _ hendless
    obtain rfl : endless = tokens := Except.ok.inj hcompile
    have hloop : ∀ steps, Machine.runFrom endless.toArray steps 2 ⟨1, ⟨#[1], 0⟩, {}, {}⟩ = none := by
      intro steps
      induction steps with
      | zero => rfl
      | succ steps ih => exact ih
    have hnone : ∀ steps, m.run steps endless = none
      | 0 | 1 => rfl
      | steps + 2 => hloop steps
    exact ⟨hcompile, hnone, hturns hnone⟩

end Brainfuck
