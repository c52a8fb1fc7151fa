import Brainfuck.Proofs.Reduction

/-!
# Texts that cancel alike

Two texts cancel alike if the same is left of them, whatever stands before them (`Alike`). A command and the one that undoes it
cancel like no text at all, and texts that cancel alike do so as parts of longer texts. So a run of two commands that undo each
other cancels like the run of the one or of the other that their difference asks for (`alike_power_append`), in whatever order they
come.
-/

namespace Brainfuck.Source

/-- Two texts cancel alike: behind any kept text, in which nothing undoes its neighbour, they leave the same. -/
def Alike (u v : List Char) : Prop :=
  ∀ kept : List Char, kept.IsChain (fun a b => inverse? a ≠ some b) → u.foldl settle kept = v.foldl settle kept

namespace Alike

variable {u v w u' v' : List Char}

theorem refl (u : List Char) : Alike u u := fun _ _ => rfl

theorem trans (h : Alike u v) (h' : Alike v w) : Alike u w := fun kept hkept => (h kept hkept).trans (h' kept hkept)

/-- Texts cancel alike if their parts do. -/
theorem append (h : Alike u v) (h' : Alike u' v') : Alike (u ++ u') (v ++ v') := by
  intro kept hkept
  rw [List.foldl_append, List.foldl_append, h kept hkept]
  exact h' _ (isChain_foldl_settle v hkept)

/-- Of texts that cancel alike the same is left. -/
theorem cancelPairs_eq (h : Alike u v) : cancelPairs u = cancelPairs v :=
  congrArg List.reverse (h [] List.isChain_nil)

end Alike

variable {c d : Char}

/-- A command that is settled and then undone leaves the kept text as it was. -/
theorem settle_settle {kept : List Char} (hkept : kept.IsChain fun a b => inverse? a ≠ some b) (h : inverse? d = some c) :
    settle (settle kept c) d = kept := by
  cases kept with
  | nil => exact if_pos h
  | cons last before =>
    rw [settle]
    split
    · -- the command undoes the last one, and what undoes the command is that one again
      rename_i hlast
      obtain rfl : d = last := Option.some.inj ((inverse?_comm.mp h).symm.trans hlast)
      refine settle_eq_cons ?_
      intro first hfirst
      exact (List.isChain_cons.mp hkept).1 first hfirst
    · exact if_pos h

/-- A command and the one that undoes it cancel like no text. -/
theorem alike_pair (h : inverse? d = some c) : Alike [c, d] [] := by
  intro kept hkept
  exact settle_settle hkept h

/-! ## Runs of two commands that undo each other -/

/-- The first of two commands so many times, or the second if the number is below zero. -/
def power (up down : Char) : Int → List Char
  | .ofNat n => List.replicate n up
  | .negSucc n => List.replicate (n + 1) down

theorem power_neg (up down : Char) (n : Int) : power up down (-n) = power down up n := by
  obtain ⟨k, rfl | rfl⟩ := n.eq_nat_or_neg
  · cases k <;> rfl
  · rw [Int.neg_neg]
    cases k <;> rfl

/-- One more of the first command cancels one of the second. -/
theorem alike_power_append_singleton {up down : Char} (h : inverse? up = some down) (n : Int) :
    Alike (power up down n ++ [up]) (power up down (n + 1)) := by
  cases n with
  | ofNat n =>
    rw [show power up down (Int.ofNat n + 1) = List.replicate (n + 1) up from rfl, List.replicate_succ']
    exact .refl _
  | negSucc n =>
    have hnext : power up down (Int.negSucc n + 1) = List.replicate n down := by cases n <;> rfl
    rw [hnext, show power up down (Int.negSucc n) = List.replicate (n + 1) down from rfl, List.replicate_succ', List.append_assoc]
    have hpair := (Alike.refl (List.replicate n down)).append (alike_pair h)
    rw [List.append_nil] at hpair
    exact hpair

theorem alike_power_append_replicate {up down : Char} (h : inverse? up = some down) (n : Int) (k : Nat) :
    Alike (power up down n ++ List.replicate k up) (power up down (n + k)) := by
  induction k with
  | zero =>
    rw [List.replicate_zero, List.append_nil, Int.natCast_zero, Int.add_zero]
    exact .refl _
  | succ k ih =>
    rw [List.replicate_succ', ← List.append_assoc, Int.natCast_succ, ← Int.add_assoc]
    exact (ih.append (.refl [up])).trans (alike_power_append_singleton h _)

/-- Two runs of two commands that undo each other cancel like the run of the sum. -/
theorem alike_power_append {up down : Char} (h : inverse? up = some down) (n m : Int) :
    Alike (power up down n ++ power up down m) (power up down (n + m)) := by
  obtain ⟨k, rfl | rfl⟩ := m.eq_nat_or_neg
  · exact alike_power_append_replicate h n k
  · have hdown := alike_power_append_replicate (inverse?_comm.mp h) (-n) k
    rw [show -n + (k : Int) = -(n + -k) by omega, power_neg, power_neg] at hdown
    rw [power_neg]
    exact hdown

end Brainfuck.Source
