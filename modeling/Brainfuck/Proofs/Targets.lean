import Brainfuck.Message
import Brainfuck.Proofs.Options
import Brainfuck.Proofs.Pairing
import Brainfuck.Proofs.Shortage

/-!
# Jumps and their targets

A loop token is asked for its target only when it jumps. So a program that lost its targets does what the paired program does up to
the first jump (`run_untarget_of_resolve`), and there it fails and leaves the machine as it is at that moment. A paired program has all its
targets: each jump lands behind the partner of the loop token (`Point.next?_of_jumps`), and a run fails only because of a stream.
-/

namespace Brainfuck

/-! ## Tokens that jump -/

/-- A token jumps if this byte is under the cursor: a start jumps on zero, and an end on anything else. -/
def Token.jumpsOn (b : UInt8) : Token → Bool
  | .loopStart _ => b == 0
  | .loopEnd _ => b != 0
  | _ => false

theorem Token.jumpsOn_untarget (b : UInt8) (t : Token) : t.untarget.jumpsOn b = t.jumpsOn b := by
  cases t <;> rfl

theorem Token.target?_untarget (t : Token) : t.untarget.target? = none := by
  cases t <;> rfl

section Exec

variable {m m' : Machine} {t : Token} {index index' : Nat}

/-- A token that jumps does what its target says. -/
theorem Machine.exec_of_jumpsOn (hm : m.tape.onCell = true) (ht : t.jumpsOn m.tape.cell = true) (index : Nat) :
    m.exec index t = m.jump index t.target? := by
  cases t with
  | loopStart target =>
    have hcell : (m.tape.cell == 0) = true := ht
    simp only [exec, branch, if_pos hm, if_pos hcell, Token.target?]
  | loopEnd target =>
    have hcell : (m.tape.cell != 0) = true := ht
    simp only [exec, branch, if_pos hm, if_pos hcell, Token.target?]
  | _ => cases ht

/-- A token that does not jump does the same without a target. -/
theorem Machine.exec_untarget (ht : t.jumpsOn m.tape.cell = false) (index : Nat) : m.exec index t.untarget = m.exec index t := by
  cases t with
  | loopStart target =>
    have hcell : (m.tape.cell == 0) = false := ht
    simp only [Token.untarget, exec, branch, hcell, Bool.false_eq_true, if_false]
  | loopEnd target =>
    have hcell : (m.tape.cell != 0) = false := ht
    simp only [Token.untarget, exec, branch, hcell, Bool.false_eq_true, if_false]
  | _ => rfl

/-- A token that does not jump goes on with the next one. -/
theorem Machine.index_of_exec (ht : t.jumpsOn m.tape.cell = false) (h : m.exec index t = .next m' index') :
    index' = index + 1 := by
  unfold Token.jumpsOn at ht
  unfold exec add move branch jump read write at h
  grind

end Exec

/-! ## Points at which a run jumps -/

namespace Point

variable {tokens linked : List Token} {p q : Point} {n k : Nat}

/-- The token of a point jumps. -/
def Jumps (tokens : List Token) (p : Point) : Prop := ∃ t, tokens[p.index]? = some t ∧ t.jumpsOn p.machine.tape.cell = true

instance (tokens : List Token) (p : Point) : Decidable (p.Jumps tokens) :=
  inferInstanceAs (Decidable (∃ t ∈ tokens[p.index]?, t.jumpsOn p.machine.tape.cell = true))

theorem jumpsOn_eq_false (hp : ¬p.Jumps tokens) {t : Token} (ht : tokens[p.index]? = some t) :
    t.jumpsOn p.machine.tape.cell = false := by
  rw [← Bool.not_eq_true]
  exact fun hjumps => hp ⟨t, ht, hjumps⟩

/-- From a point whose token does not jump a run goes on with the next token. -/
theorem index_of_next? (hp : ¬p.Jumps tokens) (h : p.next? tokens = some q) : q.index = p.index + 1 := by
  obtain ⟨t, ht, hexec⟩ := exec_of_next? h
  exact Machine.index_of_exec (jumpsOn_eq_false hp ht) hexec

/-- At a point whose token does not jump the targets of a program do not matter. -/
theorem inStep_untarget (hp : ¬p.Jumps tokens) : p.InStep id tokens (tokens.map Token.untarget) := by
  refine inStep_of_exec ?_
  intro t ht
  rw [id, Machine.exec_untarget (jumpsOn_eq_false hp ht)]
  cases p.machine.exec p.index t <;> rfl

/-- Where a program without targets jumps it fails, and it leaves the machine as it is. -/
theorem end?_untarget_of_jumps (hp : p.machine.tape.InRange) (h : p.Jumps tokens) :
    p.end? (tokens.map Token.untarget) = some (p.machine, .failed (.unresolvedJump p.index)) := by
  obtain ⟨t, ht, hjumps⟩ := h
  rw [← Token.jumpsOn_untarget] at hjumps
  have hexec := Machine.exec_of_jumpsOn hp.onCell hjumps p.index
  rw [Token.target?_untarget, Machine.jump] at hexec
  simp only [end?, List.getElem?_map, ht, Option.map_some, hexec]

/-- As far as a run takes no jump, the run without targets has the same points. -/
theorem after?_untarget (n : Nat) (h : ∀ k < n, ∀ q, after? tokens k p = some q → ¬q.Jumps tokens) :
    after? (tokens.map Token.untarget) n p = after? tokens n p := by
  have hpoints := after?_map_of_lt (f := id) n fun k hk q hq => inStep_untarget (h k hk q hq)
  rw [show map id = id from rfl, Option.map_id] at hpoints
  exact hpoints

end Point

/-! ## The targets of a paired program -/

namespace Program

/-- Two loop tokens of a list are partners, whichever of them is the start. -/
def Matched (tokens : List Token) (index partner : Nat) : Prop := Partners tokens index partner ∨ Partners tokens partner index

/-- In a paired list the target of a loop token is its partner. -/
theorem target?_of_resolve {tokens linked : List Token} (h : resolve tokens = .ok linked) {index : Nat} {t : Token}
    (ht : linked[index]? = some t) (hloop : t.isLoop = true) :
    ∃ partner, t.target? = some (.nat partner) ∧ Matched linked index partner := by
  have hpaired := (paired_of_resolve (paired_of_resolve h).2).1
  cases t with
  | loopStart target =>
    obtain ⟨stop, hpartners⟩ := hpaired.starts index target ht
    have haimed := (hpaired.targets index stop hpartners).1
    rw [ht] at haimed
    cases haimed
    exact ⟨stop, rfl, Or.inl hpartners⟩
  | loopEnd target =>
    obtain ⟨start, hpartners⟩ := hpaired.ends index target ht
    have haimed := (hpaired.targets start index hpartners).2
    rw [ht] at haimed
    cases haimed
    exact ⟨start, rfl, Or.inr hpartners⟩
  | _ => cases hloop

end Program

theorem Token.isLoop_of_jumpsOn {b : UInt8} {t : Token} (h : t.jumpsOn b = true) : t.isLoop = true := by
  cases t <;> first | rfl | cases h

/-- Each jump of a paired program lands just behind the partner of the loop token, and changes nothing else. -/
theorem Point.next?_of_jumps {tokens linked : List Token} {p : Point} (h : Program.resolve tokens = .ok linked)
    (hp : p.machine.tape.InRange) (hjumps : p.Jumps linked) :
    ∃ partner, Program.Matched linked p.index partner ∧ p.next? linked = some ⟨p.machine, partner + 1⟩ := by
  obtain ⟨t, ht, hcell⟩ := hjumps
  obtain ⟨partner, htarget, hmatched⟩ := Program.target?_of_resolve h ht (Token.isLoop_of_jumpsOn hcell)
  refine ⟨partner, hmatched, next?_of_exec ht ?_⟩
  rw [Machine.exec_of_jumpsOn hp.onCell hcell, htarget, Machine.jump, Numeral.toNat]

/-- The causes that lie with a stream. -/
theorem RuntimeError.ofStream_iff {cause : RuntimeError} :
    cause.ofStream = true ↔ cause = .inputExhausted ∨ cause = .inputNotReady ∨ cause = .outputFull := by
  cases cause <;> simp [ofStream]

/-! ## Programs without targets -/

namespace Machine

/-- A run takes no jump. -/
def TakesNoJump (tokens : List Token) (m : Machine) : Prop := ∀ n p, Point.after? tokens n ⟨m, 0⟩ = some p → ¬p.Jumps tokens

/-- A run takes its first jump at a point, after so many tokens. -/
structure FirstJump (tokens : List Token) (m : Machine) (n : Nat) (p : Point) : Prop where
  reached : Point.after? tokens n ⟨m, 0⟩ = some p
  jumps : p.Jumps tokens
  first : ∀ k < n, ∀ q, Point.after? tokens k ⟨m, 0⟩ = some q → ¬q.Jumps tokens

variable {tokens : List Token} {m : Machine} {n : Nat} {p : Point}

/-- A run that takes no jump has the same end without targets. -/
theorem run_untarget_of_takesNoJump (h : m.TakesNoJump tokens) (steps : Nat) :
    m.run steps (tokens.map Token.untarget) = m.run steps tokens := by
  have hsame := (sameThrough_of_inStep fun n p hp => Point.inStep_untarget (h n p hp)).2 steps
  rw [Prod.map_id, Option.map_id] at hsame
  exact hsame

/-- A run that takes a jump fails at the first one without targets. -/
theorem FirstJump.run_untarget (h : m.FirstJump tokens n p) (hm : m.tape.InRange) (steps : Nat) (ended : Machine × Outcome) :
    m.run steps (tokens.map Token.untarget) = some ended ↔
      n < steps ∧ ended = (p.machine, .failed (.unresolvedJump p.index)) := by
  have hreached : Point.after? (tokens.map Token.untarget) n ⟨m, 0⟩ = some p := by
    rw [Point.after?_untarget n h.first, h.reached]
  have hin : p.machine.tape.InRange := @Point.inRange_of_after? _ _ ⟨m, 0⟩ _ hm h.reached
  exact Point.run_eq_some_iff_of_end? hreached (Point.end?_untarget_of_jumps hin h.jumps) steps ended

end Machine

/-- What missing targets do. If the run of a paired program takes no jump, the program without targets has the same points and the same
end. If it takes its first jump at a point, the program without targets gets to the same point and fails there, naming the token,
with the tape, the cursor and the streams that the paired program has at that moment. So a compiled program, in which each jump lands
just behind the partner of its token, never fails for want of a target, but only because of a stream. -/
theorem run_untarget_of_resolve {m : Machine} (hm : m.tape.InRange) :
    (∀ tokens linked, Program.resolve tokens = .ok linked →
      (m.TakesNoJump linked →
        (∀ n, Point.after? (tokens.map Token.untarget) n ⟨m, 0⟩ = Point.after? linked n ⟨m, 0⟩) ∧
          ∀ steps, m.run steps (tokens.map Token.untarget) = m.run steps linked) ∧
      ∀ n p, m.FirstJump linked n p →
        (∀ k ≤ n, Point.after? (tokens.map Token.untarget) k ⟨m, 0⟩ = Point.after? linked k ⟨m, 0⟩) ∧
          (∀ steps ended, m.run steps (tokens.map Token.untarget) = some ended ↔
            n < steps ∧ ended = (p.machine, .failed (.unresolvedJump p.index))) ∧
          (RuntimeError.unresolvedJump p.index).message = s!"Loop token at {p.index} has no resolved jump target") ∧
    ∀ options source compiled, Program.compile options source = .ok compiled →
      (∀ steps m' cause, m.run steps compiled = some (m', .failed cause) →
        cause = .inputExhausted ∨ cause = .inputNotReady ∨ cause = .outputFull) ∧
      ∀ n p, Point.after? compiled n ⟨m, 0⟩ = some p → p.Jumps compiled →
        ∃ partner, Program.Matched compiled p.index partner ∧ p.next? compiled = some ⟨p.machine, partner + 1⟩ := by
  refine ⟨?_, ?_⟩
  · intro tokens linked h
    rw [← Program.map_untarget_of_resolve h]
    refine ⟨?_, ?_⟩
    · intro hnone
      exact ⟨fun n => Point.after?_untarget n fun k _ q hq => hnone k q hq, Machine.run_untarget_of_takesNoJump hnone⟩
    · intro n p hfirst
      refine ⟨?_, hfirst.run_untarget hm, rfl⟩
      intro k hk
      exact Point.after?_untarget k fun j hj => hfirst.first j (Nat.lt_of_lt_of_le hj hk)
  · intro options source compiled hcompile
    rw [Program.compile_eq_resolve] at hcompile
    refine ⟨?_, ?_⟩
    · intro steps m' cause hrun
      exact RuntimeError.ofStream_iff.mp (Program.ofStream_of_run hcompile hm hrun)
    · intro n p hp hjumps
      exact Point.next?_of_jumps hcompile (@Point.inRange_of_after? _ _ ⟨m, 0⟩ _ hm hp) hjumps

/-- The program `,[.,]` with a target that is out of date, on the input 7, 8. Its first jump is that of the end, back into the loop, when
the 7 is written and the 8 is in the cell. Without targets it fails there. -/
theorem run_untarget_of_resolve_echo :
    let tokens : List Token := [.input .null, .loopStart (some (.nat 9)), .output .null, .input .null, .loopEnd none]
    let m := Machine.feed ⟨1, .blank 1, {}, {}⟩ [7, 8]
    ∃ linked r, Program.resolve tokens = .ok linked ∧ m.tape.InRange ∧ m.FirstJump linked 4 ⟨r, 4⟩ ∧
      m.run 9 (tokens.map Token.untarget) = some (r, .failed (.unresolvedJump 4)) ∧
      r.output.written = #[7] ∧ r.tape.cell = 8 ∧ r.input.consumed = 2 := by
  intro tokens m
  have hm : m.tape.InRange := by decide
  have hlinked : Program.resolve tokens =
      .ok [.input .null, .loopStart (some (.nat 4)), .output .null, .input .null, .loopEnd (some (.nat 1))] := rfl
  have hfirst : m.FirstJump [.input .null, .loopStart (some (.nat 4)), .output .null, .input .null, .loopEnd (some (.nat 1))] 4
      ⟨⟨1, ⟨#[8], 0⟩, ⟨[], 2, none⟩, ⟨#[7], none⟩⟩, 4⟩ := ⟨rfl, by decide, by decide⟩
  obtain ⟨-, hjump⟩ := (run_untarget_of_resolve hm).1 tokens _ hlinked
  obtain ⟨-, hends, -⟩ := hjump 4 _ hfirst
  exact ⟨_, _, hlinked, hm, hfirst, (hends 9 _).mpr ⟨by decide, rfl⟩, rfl, rfl, rfl⟩

end Brainfuck
