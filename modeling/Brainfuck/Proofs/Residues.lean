import Brainfuck.Proofs.Compression
import Brainfuck.Proofs.Handling
import Brainfuck.Proofs.Lockstep
import Mathlib.Data.Int.ModEq
import Mathlib.Data.List.Forall2

/-!
# Counts up to their residues

Of a count a run sees only what is left of it modulo 256 or modulo the number of cells, and of a target behind the last token only that
it is there. So tokens may be replaced, each by one that agrees with it (`Token.Agree`), in programs of any kind: paired or not, and with
targets that lead anywhere. The two runs stand at the same tokens all the time, until they are over (`run_eq_of_agree`).
-/

namespace Brainfuck

/-! ## Tokens that agree -/

namespace Token

/-- A token that does nothing on a tape of so many cells. -/
inductive Idle (cells : Nat) : Token → Prop where
  | noOp (payload : Json) : Idle cells (.noOp payload)
  | arithmetic {t : Token} {d : Int} : t.delta? = some d → d ≡ 0 [ZMOD 256] → Idle cells t
  | move {t : Token} {s : Int} : t.shift? = some s → s ≡ 0 [ZMOD cells] → Idle cells t

/-- Two targets are both missing, or they are the same, or both lead out of a program of so many tokens. -/
inductive TargetsAgree (count : Nat) : Option Numeral → Option Numeral → Prop where
  | missing : TargetsAgree count none none
  | same {a b : Numeral} : a.toNat = b.toNat → TargetsAgree count (some a) (some b)
  | beyond {a b : Numeral} : count ≤ a.toNat + 1 → count ≤ b.toNat + 1 → TargetsAgree count (some a) (some b)

/-- Two tokens agree on a tape of so many cells, in a program of so many tokens. -/
inductive Agree (cells count : Nat) : Token → Token → Prop where
  | arithmetic {t u : Token} {d e : Int} : t.delta? = some d → u.delta? = some e → d ≡ e [ZMOD 256] → Agree cells count t u
  | move {t u : Token} {s r : Int} : t.shift? = some s → u.shift? = some r → s ≡ r [ZMOD cells] → Agree cells count t u
  | idle {t u : Token} : Idle cells t → Idle cells u → Agree cells count t u
  | output (payload payload' : Json) : Agree cells count (.output payload) (.output payload')
  | input (payload payload' : Json) : Agree cells count (.input payload) (.input payload')
  | loopStart {a b : Option Numeral} : TargetsAgree count a b → Agree cells count (.loopStart a) (.loopStart b)
  | loopEnd {a b : Option Numeral} : TargetsAgree count a b → Agree cells count (.loopEnd a) (.loopEnd b)

end Token

/-! ## One token -/

namespace Tape

variable {tape : Tape} {a b : Int}

theorem add_congr (h : a ≡ b [ZMOD 256]) : tape.add a = tape.add b := by
  have hsum : ((tape.cell.toNat : Int) + a) % 256 = (tape.cell.toNat + b) % 256 := Int.ModEq.add_left _ h
  rw [add, add, hsum]

theorem move_congr (h : a ≡ b [ZMOD tape.length]) : tape.move a = tape.move b := by
  have hsum : (tape.cursor + a) % tape.length = (tape.cursor + b) % tape.length := Int.ModEq.add_left _ h
  rw [move, move, hsum]

end Tape

/-- An idle token only looks as if it changed the tape. -/
theorem Token.Idle.after {tape : Tape} {t : Token} (h : Idle tape.length t) (htape : tape.InRange) :
    t.isQuiet = true ∧ tape.after t = tape := by
  cases h with
  | noOp payload => exact ⟨rfl, rfl⟩
  | arithmetic hd hzero =>
    obtain ⟨hquiet, hafter⟩ := isQuiet_of_delta? hd
    exact ⟨hquiet, by rw [hafter, Tape.add_congr hzero, Tape.add_zero]⟩
  | move hs hzero =>
    obtain ⟨hquiet, hafter⟩ := isQuiet_of_shift? hs
    exact ⟨hquiet, by rw [hafter, Tape.move_congr hzero, Tape.move_zero htape]⟩

/-- Two indices are those of the same token of a program of so many tokens, or both are behind the last. -/
def Point.SamePlace (count i j : Nat) : Prop := i = j ∨ (count ≤ i ∧ count ≤ j)

/-- Two steps do the same to the machine, and either both fail for the same cause or both lead to the same place. -/
inductive Step.Agree (count : Nat) : Step → Step → Prop where
  | next (m : Machine) {i j : Nat} : Point.SamePlace count i j → Agree count (.next m i) (.next m j)
  | failed (m : Machine) (cause : RuntimeError) : Agree count (.failed m cause) (.failed m cause)

theorem Step.Agree.refl (count : Nat) (s : Step) : Agree count s s := by
  cases s with
  | next m index => exact .next m (Or.inl rfl)
  | failed m cause => exact .failed m cause

namespace Machine

variable {m : Machine} {t u : Token} {a b : Option Numeral} {count : Nat}

/-- Tokens that do the same to the tape, and nothing else, agree. -/
theorem exec_agree_of_isQuiet (hm : m.tape.InRange) (ht : t.isQuiet = true) (hu : u.isQuiet = true)
    (hafter : m.tape.after t = m.tape.after u) (index : Nat) : Step.Agree count (m.exec index t) (m.exec index u) := by
  rw [exec_of_isQuiet hm ht, exec_of_isQuiet hm hu, hafter]
  exact .refl _ _

theorem branch_agree (h : Token.TargetsAgree count a b) (index : Nat) (jumps : UInt8 → Bool) :
    Step.Agree count (m.branch index a jumps) (m.branch index b jumps) := by
  unfold branch
  split
  · split
    · cases h with
      | missing => exact .refl _ _
      | same heq => exact .next m (Or.inl (congrArg (· + 1) heq))
      | beyond ha hb => exact .next m (Or.inr ⟨ha, hb⟩)
    · exact .refl _ _
  · exact .refl _ _

/-- Tokens that agree do the same. -/
theorem exec_agree (hm : m.tape.InRange) (h : Token.Agree m.tape.length count t u) (index : Nat) :
    Step.Agree count (m.exec index t) (m.exec index u) := by
  cases h with
  | arithmetic hd he hmod =>
    obtain ⟨ht, htafter⟩ := Token.isQuiet_of_delta? hd
    obtain ⟨hu, huafter⟩ := Token.isQuiet_of_delta? he
    exact exec_agree_of_isQuiet hm ht hu (by rw [htafter, huafter, Tape.add_congr hmod]) index
  | move hs hr hmod =>
    obtain ⟨ht, htafter⟩ := Token.isQuiet_of_shift? hs
    obtain ⟨hu, huafter⟩ := Token.isQuiet_of_shift? hr
    exact exec_agree_of_isQuiet hm ht hu (by rw [htafter, huafter, Tape.move_congr hmod]) index
  | idle hidle hidle' =>
    obtain ⟨ht, htafter⟩ := hidle.after hm
    obtain ⟨hu, huafter⟩ := hidle'.after hm
    exact exec_agree_of_isQuiet hm ht hu (by rw [htafter, huafter]) index
  | output => exact .refl _ _
  | input => exact .refl _ _
  | loopStart htargets => exact branch_agree htargets index (· == 0)
  | loopEnd htargets => exact branch_agree htargets index (· != 0)

end Machine

/-! ## Points and ends -/

namespace Point

variable {ts us : List Token} {p q : Point}

/-- Two points have the same machine and stand at the same place of a program of so many tokens. -/
structure Agree (count : Nat) (p q : Point) : Prop where
  machine : p.machine = q.machine
  place : SamePlace count p.index q.index

/-- Programs whose tokens agree go on from the same place to the same place, or they end there in the same way. -/
theorem Agree.step (hpq : p.Agree ts.length q) (hp : p.machine.tape.InRange)
    (h : List.Forall₂ (Token.Agree p.machine.tape.length ts.length) ts us) :
    Option.Rel (Agree ts.length) (p.next? ts) (q.next? us) ∧ p.end? ts = q.end? us := by
  obtain ⟨hlength, htokens⟩ := List.forall₂_iff_get.mp h
  obtain ⟨m, i⟩ := p
  obtain ⟨m', j⟩ := q
  obtain ⟨rfl, hplace⟩ := hpq
  by_cases hi : i < ts.length
  · obtain rfl : i = j := hplace.resolve_right fun hout => absurd hi (Nat.not_lt.mpr hout.1)
    have hagree : Step.Agree ts.length (m.exec i ts[i]) (m.exec i us[i]) :=
      Machine.exec_agree hp (htokens i hi (hlength ▸ hi)) i
    simp only [next?, end?, List.getElem?_eq_getElem hi, List.getElem?_eq_getElem (hlength ▸ hi)]
    generalize m.exec i ts[i] = step, m.exec i us[i] = step' at hagree ⊢
    cases hagree with
    | next m' hplace' => exact ⟨.some ⟨rfl, hplace'⟩, rfl⟩
    | failed => exact ⟨.none, rfl⟩
  · -- one run is over, and so is the other
    have hj : us.length ≤ j := by
      simp only [SamePlace] at hplace
      omega
    simp only [next?, end?, List.getElem?_eq_none (Nat.not_lt.mp hi), List.getElem?_eq_none hj]
    exact ⟨.none, trivial⟩

/-- Programs whose tokens agree have their points at the same places all the time, and their runs end at these points in the same way. -/
theorem Agree.after? (hpq : p.Agree ts.length q) (hp : p.machine.tape.InRange)
    (h : List.Forall₂ (Token.Agree p.machine.tape.length ts.length) ts us) (n : Nat) :
    Option.Rel (Agree ts.length) (Point.after? ts n p) (Point.after? us n q) ∧
      (Point.after? ts n p).bind (end? ts) = (Point.after? us n q).bind (end? us) := by
  obtain ⟨hnext, hend⟩ := hpq.step hp h
  induction n generalizing p q with
  | zero => exact ⟨.some hpq, hend⟩
  | succ n ih =>
    rw [Point.after?, Point.after?]
    generalize hp' : p.next? ts = r, q.next? us = r' at hnext ⊢
    cases hnext with
    | none => exact ⟨.none, rfl⟩
    | some hpq' =>
      obtain ⟨t, -, hexec⟩ := exec_of_next? hp'
      have hin := Machine.inRange_of_exec hp hexec
      rw [← Machine.length_of_exec hexec] at h
      obtain ⟨hnext', hend'⟩ := hpq'.step hin h
      exact ih hpq' hin h hnext' hend'

end Point

/-- Only the residues of counts matter. Let the tokens of two programs agree one by one: the counts of arithmetic modulo 256 and those of
moves modulo the number of cells, idle tokens with one another, and targets as far as they do not lead behind the last token. Then on the
same machine the two runs have the same machine at the same place after each number of tokens, and the same end. -/
theorem run_eq_of_agree {ts us : List Token} {m : Machine} (hm : m.tape.InRange)
    (h : List.Forall₂ (Token.Agree m.tape.length ts.length) ts us) :
    (∀ n, Option.Rel (Point.Agree ts.length) (Point.after? ts n ⟨m, 0⟩) (Point.after? us n ⟨m, 0⟩)) ∧
      ∀ steps, m.run steps us = m.run steps ts := by
  have hstart : Point.Agree ts.length ⟨m, 0⟩ ⟨m, 0⟩ := ⟨rfl, Or.inl rfl⟩
  have hpoints := Point.Agree.after? hstart hm h
  have hends : ∀ n, (Point.after? us n ⟨m, 0⟩).bind (Point.end? us) =
      ((Point.after? ts n ⟨m, 0⟩).bind (Point.end? ts)).map (Prod.map id id) := by
    intro n
    rw [Prod.map_id, Option.map_id, (hpoints n).2, id]
  refine ⟨fun n => (hpoints n).1, ?_⟩
  intro steps
  have hrun := Point.runFrom_of_ends (p := ⟨m, 0⟩) (q := ⟨m, 0⟩) hends steps
  rwa [Prod.map_id, Option.map_id] at hrun

/-- On a tape of five cells 300 increments are as good as 212 decrements, seven moves to the right are as good as three to the left, and 256
increments do nothing. A jump behind the last token leads as far as any other. -/
theorem run_eq_of_agree_five :
    let ts : List Token := [.increment (.nat 300), .moveRight (.nat 7), .noOp .null, .loopStart (some (.nat 9)), .output .null]
    let us : List Token := [.decrement (.nat 212), .moveLeft (.nat 3), .increment (.nat 256), .loopStart (some (.nat 4)), .output .null]
    let m : Machine := ⟨5, .blank 5, {}, {}⟩
    m.tape.InRange ∧ List.Forall₂ (Token.Agree m.tape.length ts.length) ts us ∧
      m.run 5 us = some (⟨5, ⟨#[44, 0, 0, 0, 0], 2⟩, {}, {}⟩, .finished) := by
  intro ts us m
  have hm : m.tape.InRange := by decide
  have h : List.Forall₂ (Token.Agree m.tape.length ts.length) ts us :=
    .cons (.arithmetic rfl rfl (by decide)) <| .cons (.move rfl rfl (by decide)) <|
      .cons (.idle (.noOp _) (.arithmetic rfl (by decide))) <| .cons (.loopStart (.beyond (by decide) (by decide))) <|
      .cons (.output _ _) .nil
  refine ⟨hm, h, ?_⟩
  rw [(run_eq_of_agree hm h).2 5]
  decide

end Brainfuck
