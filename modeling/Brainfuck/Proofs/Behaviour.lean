import Brainfuck.Proofs.Reading

/-!
# What a block shows

A run can be watched from outside: at every moment its two streams can be seen, and if it comes to an end, the machine and the
outcome (`Sight`). `Block.Shows` says what can be seen of the run of a block. The relation has no bound on rounds, so a run that
goes on for ever shows no end, but it shows its streams like any other.

A block that is executed with a number of rounds ends exactly as it shows (`exists_run_iff_shows`).
-/

namespace Brainfuck

/-- What can be seen of a run: its streams at some moment, or its end. -/
inductive Sight where
  | streams (input : InputStream) (output : OutputStream)
  | ended (machine : Machine) (outcome : Outcome)

/-- A cause that lies with a stream, and not with the program or the tape. -/
def RuntimeError.ofStream : RuntimeError → Bool
  | .inputExhausted | .inputNotReady | .outputFull => true
  | _ => false

/-- On a tape in use a token that is no loop token fails only because of a stream. -/
theorem Machine.ofStream_of_exec {m m' : Machine} {t : Token} {index : Nat} {cause : RuntimeError} (hm : m.tape.InRange)
    (ht : t.isLoop = false) (h : m.exec index t = .failed m' cause) : cause.ofStream = true := by
  have hcell := hm.onCell
  have hlength := hm.length_pos
  cases t <;> simp only [Token.isLoop, Token.kind] at ht <;> first | contradiction | skip
  all_goals
    unfold Machine.exec Machine.add Machine.move Machine.write Machine.read at h
    grind [RuntimeError.ofStream]

namespace Block

/-- What can be seen of the run of a block. What the body of a loop shows is seen of the loop, its end apart, after which the
loop begins again. -/
inductive Shows : Block → Machine → Sight → Prop where
  | now (b : Block) (m : Machine) : Shows b m (.streams m.input m.output)
  | done (m : Machine) : Shows .done m (.ended m .finished)
  | next {t : Token} {rest : Block} {m m' : Machine} {index : Nat} {s : Sight} :
      m.exec 0 t = .next m' index → Shows rest m' s → Shows (.simple t rest) m s
  | fails {t : Token} {rest : Block} {m m' : Machine} {cause : RuntimeError} :
      m.exec 0 t = .failed m' cause → Shows (.simple t rest) m (.ended m' (.failed cause))
  | skip {body rest : Block} {m : Machine} {s : Sight} :
      m.tape.cell = 0 → Shows rest m s → Shows (.loop body rest) m s
  | inside {body rest : Block} {m : Machine} {s : Sight} :
      m.tape.cell ≠ 0 → Shows body m s → (∀ m', s ≠ .ended m' .finished) → Shows (.loop body rest) m s
  | again {body rest : Block} {m m' : Machine} {s : Sight} :
      m.tape.cell ≠ 0 → Shows body m (.ended m' .finished) → Shows (.loop body rest) m' s → Shows (.loop body rest) m s

/-- To show something of all that is seen of a loop, go by its rounds. -/
@[elab_as_elim]
theorem Shows.loop_induction {body rest : Block} {motive : ∀ m s, Shows (.loop body rest) m s → Prop}
    (now : ∀ m, motive m _ (.now _ m))
    (skip : ∀ {m s} (hcell : m.tape.cell = 0) (hrest : Shows rest m s), motive m s (.skip hcell hrest))
    (inside : ∀ {m s} (hcell : m.tape.cell ≠ 0) (hbody : Shows body m s) (hne : ∀ m', s ≠ .ended m' .finished),
      motive m s (.inside hcell hbody hne))
    (again : ∀ {m m' s} (hcell : m.tape.cell ≠ 0) (hbody : Shows body m (.ended m' .finished))
      (hloop : Shows (.loop body rest) m' s), motive m' s hloop → motive m s (.again hcell hbody hloop))
    {m : Machine} {s : Sight} (h : Shows (.loop body rest) m s) : motive m s h := by
  suffices hall : ∀ b m s, Shows b m s → ∀ hb : b = .loop body rest, ∀ h, motive m s h from hall _ _ _ h rfl h
  intro b m s hs
  induction hs with
  | now => intro hb _; cases hb; exact now _
  | skip hcell hrest => intro hb _; cases hb; exact skip hcell hrest
  | inside hcell hbody hne => intro hb _; cases hb; exact inside hcell hbody hne
  | again hcell hbody hloop _ ih => intro hb _; cases hb; exact again hcell hbody hloop (ih rfl hloop)
  | done | next | fails => exact nofun

/-! ## The end of a run -/

/-- A run that ends leaves the cursor in range. -/
theorem Shows.inRange {b : Block} {m m' : Machine} {o : Outcome} (h : Shows b m (.ended m' o)) (hm : m.tape.InRange) :
    m'.tape.InRange := by
  generalize hs : Sight.ended m' o = s at h
  induction h generalizing m' o with
  | now => cases hs
  | done => cases hs; exact hm
  | next hexec _ ih => exact ih (Machine.inRange_of_exec hm hexec) hs
  | fails hexec =>
    cases hs
    rw [Machine.exec_failed hm.onCell hexec]
    exact hm
  | skip _ _ ih => exact ih hm hs
  | inside _ _ _ ih => exact ih hm hs
  | again _ _ _ ihb ihl => exact ihl (ihb hm rfl) hs

/-- A run that ends has shown the streams that it leaves. -/
theorem Shows.streams {b : Block} {m m' : Machine} {o : Outcome} (h : Shows b m (.ended m' o)) (hm : m.tape.InRange) :
    Shows b m (.streams m'.input m'.output) := by
  generalize hs : Sight.ended m' o = s at h
  induction h with
  | now => cases hs
  | done => cases hs; exact .now _ _
  | next hexec _ ih => exact .next hexec (ih (Machine.inRange_of_exec hm hexec) hs)
  | fails hexec =>
    cases hs
    rw [Machine.exec_failed hm.onCell hexec]
    exact .now _ _
  | skip hcell _ ih => exact .skip hcell (ih hm hs)
  | inside hcell _ _ ih => exact .inside hcell (ih hm hs) nofun
  | again hcell hbody _ _ ihl => exact .again hcell hbody (ihl (hbody.inRange hm) hs)

/-- A run that fails fails because of a stream. -/
theorem Shows.ofStream {b : Block} {m m' : Machine} {cause : RuntimeError} (h : Shows b m (.ended m' (.failed cause)))
    (hb : b.Plain) (hm : m.tape.InRange) : cause.ofStream = true := by
  generalize hs : Sight.ended m' (.failed cause) = s at h
  induction h with
  | now => cases hs
  | done => cases hs
  | next hexec _ ih => exact ih hb.2 (Machine.inRange_of_exec hm hexec) hs
  | fails hexec =>
    cases hs
    exact Machine.ofStream_of_exec hm hb.1 hexec
  | skip _ _ ih => exact ih hb.2 hm hs
  | inside _ _ _ ih => exact ih hb.1 hm hs
  | again _ hbody _ _ ihl => exact ihl hb (hbody.inRange hm) hs

/-! ## Rounds -/

section Rounds

variable {body body' : Machine → Option (Machine × Outcome)} {rounds rounds' : Nat} {m : Machine}
  {r : Machine × Outcome}

/-- A loop whose cell is not zero takes a round for its body, and begins again if the body comes to its end. -/
theorem repeatBody_succ (hm : m.tape.onCell = true) (hcell : m.tape.cell ≠ 0) :
    repeatBody body (rounds + 1) m =
      match body m with
      | some (m', .finished) => repeatBody body rounds m'
      | stopped => stopped := by
  rw [repeatBody.eq_def]
  rcases hbody : body m with _ | ⟨m', _ | cause⟩
  · simp [hm, hcell, hbody]
  · simp [hm, hcell, hbody]
  · simp [hm, hcell, hbody]

/-- A loop whose cell is zero is over. -/
theorem repeatBody_of_cell_eq_zero (hm : m.tape.onCell = true) (hcell : m.tape.cell = 0) :
    repeatBody body rounds m = some (m, .finished) := by
  rw [repeatBody.eq_def]
  simp [hm, hcell]

/-- More rounds keep the end of a loop, if they keep the ends of its body. -/
theorem repeatBody_of_le (hbody : ∀ m r, body m = some r → body' m = some r) (hle : rounds ≤ rounds')
    (h : repeatBody body rounds m = some r) : repeatBody body' rounds' m = some r := by
  induction rounds generalizing rounds' m with
  | zero =>
    rw [repeatBody.eq_def] at h ⊢
    grind
  | succ rounds ih =>
    obtain ⟨k, rfl⟩ : ∃ k, rounds' = k + 1 := ⟨rounds' - 1, by omega⟩
    by_cases hstop : m.tape.onCell = true ∧ m.tape.cell ≠ 0
    · rw [repeatBody_succ hstop.1 hstop.2] at h ⊢
      cases hb : body m with
      | none => simp [hb] at h
      | some ended =>
        rw [hbody m ended hb]
        obtain ⟨m', _ | cause⟩ := ended
        · simp only [hb] at h ⊢
          exact ih (by omega) h
        · simpa only [hb] using h
    · rw [repeatBody.eq_def] at h ⊢
      grind

/-- More rounds keep the end of a run. -/
theorem run_of_le {b : Block} (hle : rounds ≤ rounds') (h : b.run rounds m = some r) : b.run rounds' m = some r := by
  induction b generalizing m r with
  | done => exact h
  | simple t rest ih =>
    rw [run] at h ⊢
    cases hexec : m.exec 0 t with
    | next m' index =>
      simp only [hexec] at h ⊢
      exact ih h
    | failed m' cause => simpa only [hexec] using h
  | loop body rest ihb ihr =>
    rw [run] at h ⊢
    cases hloop : repeatBody (body.run rounds) rounds m with
    | none => simp [hloop] at h
    | some ended =>
      rw [repeatBody_of_le (fun m r => ihb) hle hloop]
      obtain ⟨m', _ | cause⟩ := ended
      · simp only [hloop] at h ⊢
        exact ihr h
      · simpa only [hloop] using h

/-- A round of a loop in front of the others, with rounds enough for all of them. -/
theorem run_loop_again {b rest : Block} {m' : Machine} (hm : m.tape.onCell = true) (hcell : m.tape.cell ≠ 0)
    (hbody : b.run rounds m = some (m', .finished)) (h : (loop b rest).run rounds' m' = some r) :
    (loop b rest).run (max rounds rounds' + 1) m = some r := by
  rw [run, repeatBody_succ hm hcell, run_of_le (by omega) hbody]
  rw [run] at h
  cases hloop : repeatBody (b.run rounds') rounds' m' with
  | none => simp [hloop] at h
  | some ended =>
    have hmore : repeatBody (b.run (max rounds rounds' + 1)) (max rounds rounds') m' = some ended :=
      repeatBody_of_le (fun _ _ => run_of_le (by omega)) (by omega) hloop
    obtain ⟨m₁, _ | cause⟩ := ended
    · simp only [hloop, hmore] at h ⊢
      exact run_of_le (by omega) h
    · simpa only [hloop, hmore] using h

end Rounds

/-! ## One block after another -/

/-- A block, and then another. -/
def append : Block → Block → Block
  | .done, c => c
  | .simple t rest, c => .simple t (rest.append c)
  | .loop body rest, c => .loop body (rest.append c)

/-- What the second block shows where the first one ends is seen of both. -/
theorem Shows.append {b c : Block} {m m' : Machine} {s : Sight} (h : Shows b m (.ended m' .finished))
    (hc : Shows c m' s) : Shows (b.append c) m s := by
  generalize hs : Sight.ended m' .finished = stop at h
  induction h with
  | now => cases hs
  | done => cases hs; exact hc
  | next hexec _ ih => exact .next hexec (ih hs)
  | fails => cases hs
  | skip hcell _ ih => exact .skip hcell (ih hs)
  | inside _ _ hne => exact absurd hs.symm (hne _)
  | again hcell hbody _ _ ih => exact .again hcell hbody (ih hs)

/-- What the first block shows is seen of both, its end apart. -/
theorem Shows.append_left {b c : Block} {m : Machine} {s : Sight} (h : Shows b m s)
    (hs : ∀ m', s ≠ .ended m' .finished) : Shows (b.append c) m s := by
  induction h with
  | now => exact .now _ _
  | done => exact absurd rfl (hs _)
  | next hexec _ ih => exact .next hexec (ih hs)
  | fails hexec => exact .fails hexec
  | skip hcell _ ih => exact .skip hcell (ih hs)
  | inside hcell hbody _ => exact .inside hcell hbody hs
  | again hcell hbody _ _ ih => exact .again hcell hbody (ih hs)

/-! ## Rounds or none: two ways to see an end -/

/-- A loop that ends with a number of rounds shows its end, if its body does. -/
theorem shows_of_repeatBody {body : Block} {rounds rounds' : Nat} {m m' : Machine} {o : Outcome}
    (hbody : ∀ {m m' o}, m.tape.InRange → body.run rounds' m = some (m', o) → Shows body m (.ended m' o))
    (hm : m.tape.InRange) (h : repeatBody (body.run rounds') rounds m = some (m', o)) :
    Shows (.loop body .done) m (.ended m' o) := by
  induction rounds generalizing m with
  | zero =>
    by_cases hcell : m.tape.cell = 0
    · rw [repeatBody_of_cell_eq_zero hm.onCell hcell] at h
      cases h
      exact .skip hcell (.done _)
    · rw [repeatBody.eq_def] at h
      simp [hm.onCell, hcell] at h
  | succ rounds ih =>
    by_cases hcell : m.tape.cell = 0
    · rw [repeatBody_of_cell_eq_zero hm.onCell hcell] at h
      cases h
      exact .skip hcell (.done _)
    · rw [repeatBody_succ hm.onCell hcell] at h
      cases hrun : body.run rounds' m with
      | none => simp [hrun] at h
      | some ended =>
        obtain ⟨m₁, _ | cause⟩ := ended
        · simp only [hrun] at h
          have hshows := hbody hm hrun
          exact .again hcell hshows (ih (hshows.inRange hm) h)
        · simp only [hrun, Option.some.injEq, Prod.mk.injEq] at h
          obtain ⟨rfl, rfl⟩ := h
          exact .inside hcell (hbody hm hrun) nofun

/-- A run that ends with a number of rounds shows its end. -/
theorem shows_of_run {b : Block} {rounds : Nat} {m m' : Machine} {o : Outcome} (hm : m.tape.InRange)
    (h : b.run rounds m = some (m', o)) : Shows b m (.ended m' o) := by
  induction b generalizing m m' o with
  | done =>
    cases h
    exact .done m
  | simple t rest ih =>
    rw [run] at h
    cases hexec : m.exec 0 t with
    | next m₁ index =>
      simp only [hexec] at h
      exact .next hexec (ih (Machine.inRange_of_exec hm hexec) h)
    | failed m₁ cause =>
      simp only [hexec, Option.some.injEq, Prod.mk.injEq] at h
      obtain ⟨rfl, rfl⟩ := h
      exact .fails hexec
  | loop body rest ihb ihr =>
    rw [run] at h
    cases hloop : repeatBody (body.run rounds) rounds m with
    | none => simp [hloop] at h
    | some ended =>
      obtain ⟨m₁, o₁⟩ := ended
      have hshows := shows_of_repeatBody ihb hm hloop
      cases o₁ with
      | finished =>
        simp only [hloop] at h
        exact hshows.append (ihr (hshows.inRange hm) h)
      | failed cause =>
        simp only [hloop, Option.some.injEq, Prod.mk.injEq] at h
        obtain ⟨rfl, rfl⟩ := h
        exact hshows.append_left nofun

/-- A run that shows its end comes to it with some number of rounds. -/
theorem exists_run_of_shows {b : Block} {m m' : Machine} {o : Outcome} (hm : m.tape.InRange)
    (h : Shows b m (.ended m' o)) : ∃ rounds, b.run rounds m = some (m', o) := by
  generalize hs : Sight.ended m' o = s at h
  induction h generalizing m' o with
  | now => cases hs
  | done m =>
    cases hs
    exact ⟨0, rfl⟩
  | next hexec _ ih =>
    obtain ⟨rounds, hrun⟩ := ih (Machine.inRange_of_exec hm hexec) hs
    exact ⟨rounds, by rw [run, hexec]; exact hrun⟩
  | fails hexec =>
    cases hs
    exact ⟨0, by rw [run, hexec]⟩
  | skip hcell _ ih =>
    obtain ⟨rounds, hrun⟩ := ih hm hs
    exact ⟨rounds, by rw [run, repeatBody_of_cell_eq_zero hm.onCell hcell]; exact hrun⟩
  | inside hcell _ hne ih =>
    subst hs
    obtain ⟨rounds, hrun⟩ := ih hm rfl
    cases o with
    | finished => exact absurd rfl (hne _)
    | failed cause =>
      have hrun' := run_of_le (Nat.le_succ rounds) hrun
      exact ⟨rounds + 1, by rw [run, repeatBody_succ hm.onCell hcell, hrun']⟩
  | again hcell hbody _ ihb ihl =>
    obtain ⟨rounds, hrun⟩ := ihb hm rfl
    obtain ⟨rounds', hrun'⟩ := ihl (hbody.inRange hm) hs
    exact ⟨_, run_loop_again hm.onCell hcell hrun hrun'⟩

/-- A block ends with some number of rounds exactly as it shows. -/
theorem exists_run_iff_shows {b : Block} {m m' : Machine} {o : Outcome} (hm : m.tape.InRange) :
    (∃ rounds, b.run rounds m = some (m', o)) ↔ Shows b m (.ended m' o) :=
  ⟨fun ⟨_, h⟩ => shows_of_run hm h, exists_run_of_shows hm⟩

end Block

end Brainfuck
