import Brainfuck.Machine.Trace
import Brainfuck.Proofs.Behaviour
import Brainfuck.Proofs.Linking

/-!
# Jumps do what loops mean

The machine has no loops, only an index and jumps to targets. A run of the linked tokens of a block shows what the block shows:
the same streams at its points, and the same end (`passes_link_iff_shows`, `exists_run_link_iff_shows`). One half follows the
rules of `Block.Shows`. The other half follows the shape of the block and counts steps in a loop, since a run may leave a loop
late or never.

With the reading of tokens as blocks, pairing and running a program is the same as reading it as a tree and executing that
(`exists_run_resolve_iff_run_block`).
-/

namespace Brainfuck

/-! ## One token at a time -/

section Exec

variable {m m' : Machine} {t : Token} {cause : RuntimeError} {index index' : Nat}

/-- A token that is no loop token goes on with the next one, wherever it stands. -/
theorem Machine.exec_next_of_not_isLoop (ht : t.isLoop = false) (h : m.exec 0 t = .next m' index') :
    m.exec index t = .next m' (index + 1) := by
  cases t <;> simp only [Token.isLoop, Token.kind] at ht <;> first | contradiction | skip
  all_goals
    unfold Machine.exec Machine.add Machine.move Machine.write Machine.read at *
    grind

/-- A token that is no loop token fails in the same way wherever it stands. -/
theorem Machine.exec_failed_of_not_isLoop (ht : t.isLoop = false) (h : m.exec 0 t = .failed m' cause) :
    m.exec index t = .failed m' cause := by
  cases t <;> simp only [Token.isLoop, Token.kind] at ht <;> first | contradiction | skip
  all_goals
    unfold Machine.exec Machine.add Machine.move Machine.write Machine.read at *
    grind

/-- Where a loop goes on after its start or its end: in its body if the cell is not zero, and behind it otherwise. -/
def Block.entry (first size : Nat) (m : Machine) : Nat := if m.tape.cell = 0 then first + 2 + size else first + 1

theorem Machine.exec_loopStart {first size : Nat} (hm : m.tape.onCell = true) :
    m.exec first (.loopStart (some (.nat (first + 1 + size)))) = .next m (Block.entry first size m) := by
  by_cases hcell : m.tape.cell = 0
  · simp [Machine.exec, Machine.branch, Machine.jump, Block.entry, hm, hcell, Numeral.toNat]
    omega
  · simp [Machine.exec, Machine.branch, Block.entry, hm, hcell]

theorem Machine.exec_loopEnd {first size : Nat} (hm : m.tape.onCell = true) :
    m.exec (first + 1 + size) (.loopEnd (some (.nat first))) = .next m (Block.entry first size m) := by
  by_cases hcell : m.tape.cell = 0
  · simp [Machine.exec, Machine.branch, Block.entry, hm, hcell]
    omega
  · simp [Machine.exec, Machine.branch, Machine.jump, Block.entry, hm, hcell, Numeral.toNat]

end Exec

/-! ## A block in a program -/

/-- The linked tokens of a block stand in a program from an index on. -/
def Block.At (program : List Token) : Nat → Block → Prop
  | _, .done => True
  | first, .simple t rest => program[first]? = some t ∧ rest.At program (first + 1)
  | first, .loop body rest =>
    program[first]? = some (.loopStart (some (.nat (first + 1 + body.size)))) ∧ body.At program (first + 1) ∧
      program[first + 1 + body.size]? = some (.loopEnd (some (.nat first))) ∧ rest.At program (first + 2 + body.size)

theorem Block.at_link (b : Block) (before after : List Token) :
    b.At (before ++ b.link before.length ++ after) before.length := by
  induction b generalizing before after with
  | done => trivial
  | simple t rest ih =>
    have h := ih (before ++ [t]) after
    simp only [List.length_append, List.length_singleton] at h
    refine ⟨by simp [Block.link], ?_⟩
    simpa [Block.link] using h
  | loop body rest ihb ihr =>
    have hb := ihb (before ++ [.loopStart (some (.nat (before.length + 1 + body.size)))])
      (.loopEnd (some (.nat before.length)) :: rest.link (before.length + 2 + body.size) ++ after)
    have hr := ihr (before ++ .loopStart (some (.nat (before.length + 1 + body.size))) ::
      body.link (before.length + 1) ++ [.loopEnd (some (.nat before.length))]) after
    have hlength : before.length + (body.size + 1 + 1) = before.length + 2 + body.size := by omega
    simp only [List.length_append, List.length_cons, List.length_nil, Nat.zero_add, List.append_assoc,
      List.cons_append, List.nil_append, length_link, hlength] at hb hr
    refine ⟨by simp [Block.link], ?_, ?_, ?_⟩
    · simpa [Block.link] using hb
    · have hindex : before.length + 1 + body.size - before.length = body.size + 1 := by omega
      simp only [Block.link, List.append_assoc, List.cons_append]
      rw [List.getElem?_append_right (by omega), hindex, List.getElem?_cons_succ, List.getElem?_append_right (by simp)]
      simp
    · simpa [Block.link] using hr

/-! ## Points and what they show -/

namespace Point

variable {program : List Token} {p q : Point} {stop : Nat} {s : Sight}

theorem after?_add (a b : Nat) (p : Point) : after? program (a + b) p = (after? program a p).bind (after? program b) := by
  induction a generalizing p with
  | zero => simp [after?]
  | succ a ih =>
    rw [Nat.add_right_comm, after?, after?]
    cases p.next? program with
    | none => rfl
    | some r => exact ih r

/-- A run gets to a point by one more token from a point that it gets to. -/
theorem after?_succ_eq_some_iff {n : Nat} :
    after? program (n + 1) p = some q ↔ ∃ r, after? program n p = some r ∧ r.next? program = some q := by
  rw [after?_add n 1, Option.bind_eq_some_iff]
  simp [after?]

theorem after?_succ_of_next? {n : Nat} (h : p.next? program = some q) :
    after? program (n + 1) p = after? program n q := by
  rw [after?, h, Option.bind_some]

/-- A token that lets the run go on leads to the next point. -/
theorem next?_of_exec {m m' : Machine} {index index' : Nat} {t : Token} (ht : program[index]? = some t)
    (h : m.exec index t = .next m' index') : next? program ⟨m, index⟩ = some ⟨m', index'⟩ := by
  simp only [next?, ht, h]

/-- At a token that lets the run go on it does not end. -/
theorem end?_of_next? (h : p.next? program = some q) : p.end? program = none := by
  unfold next? at h
  unfold end?
  grind

/-- What can be seen of a run from a point on, if it comes to its end at the index `stop` and not only where a token fails. -/
def Shows (program : List Token) (stop : Nat) (p : Point) : Sight → Prop
  | .streams input output => ∃ n q, after? program n p = some q ∧ q.machine.input = input ∧ q.machine.output = output
  | .ended m .finished => ∃ n, after? program n p = some ⟨m, stop⟩
  | .ended m (.failed cause) => ∃ n q, after? program n p = some q ∧ q.end? program = some (m, .failed cause)

/-- What is seen later is seen. -/
theorem Shows.of_after? {n : Nat} (h : after? program n p = some q) (hq : Shows program stop q s) :
    Shows program stop p s := by
  cases s with
  | streams input output =>
    obtain ⟨k, r, hr, hstreams⟩ := hq
    exact ⟨n + k, r, by rw [after?_add, h]; exact hr, hstreams⟩
  | ended m o =>
    cases o with
    | finished =>
      obtain ⟨k, hr⟩ := hq
      exact ⟨n + k, by rw [after?_add, h]; exact hr⟩
    | failed cause =>
      obtain ⟨k, r, hr, hend⟩ := hq
      exact ⟨n + k, r, by rw [after?_add, h]; exact hr, hend⟩

theorem Shows.of_next? (h : p.next? program = some q) (hq : Shows program stop q s) : Shows program stop p s :=
  hq.of_after? (n := 1) (by rw [after?_succ_of_next? h]; rfl)

/-- What is seen from a point is seen from the next one, if only the index changed in between. -/
theorem Shows.next {m : Machine} {index index' : Nat} (h : next? program ⟨m, index⟩ = some ⟨m, index'⟩) (hne : index ≠ stop)
    (hs : Shows program stop ⟨m, index⟩ s) : Shows program stop ⟨m, index'⟩ s := by
  cases s with
  | streams input output =>
    obtain ⟨n, r, hr, hstreams⟩ := hs
    cases n with
    | zero =>
      cases hr
      exact ⟨0, _, rfl, hstreams⟩
    | succ n => exact ⟨n, r, by rw [← after?_succ_of_next? h]; exact hr, hstreams⟩
  | ended m' o =>
    cases o with
    | finished =>
      obtain ⟨n, hr⟩ := hs
      cases n with
      | zero =>
        cases hr
        exact absurd rfl hne
      | succ n => exact ⟨n, by rw [← after?_succ_of_next? h]; exact hr⟩
    | failed cause =>
      obtain ⟨n, r, hr, hend⟩ := hs
      cases n with
      | zero =>
        cases hr
        rw [end?_of_next? h] at hend
        cases hend
      | succ n => exact ⟨n, r, by rw [← after?_succ_of_next? h]; exact hr, hend⟩

/-- Where a run comes to its end does not matter for what else can be seen of it. -/
theorem Shows.of_stop {stop' : Nat} (hs : ∀ m, s ≠ .ended m .finished) (h : Shows program stop p s) :
    Shows program stop' p s := by
  cases s with
  | streams => exact h
  | ended m o =>
    cases o with
    | finished => exact absurd rfl (hs m)
    | failed cause => exact h

end Point

/-! ## From the block to its tokens -/

/-- The linked tokens of a block show what the block shows. -/
theorem Block.Shows.point {program : List Token} {b : Block} {m : Machine} {s : Sight} (h : Block.Shows b m s)
    (hm : m.tape.InRange) (hb : b.Plain) {first : Nat} (hat : b.At program first) :
    Point.Shows program (first + b.size) ⟨m, first⟩ s := by
  induction h generalizing first with
  | now => exact ⟨0, _, rfl, rfl, rfl⟩
  | done => exact ⟨0, rfl⟩
  | @next t rest m m' index s hexec _ ih =>
    have hstep := Point.next?_of_exec hat.1 (Machine.exec_next_of_not_isLoop hb.1 hexec)
    have h := ih (Machine.inRange_of_exec hm hexec) hb.2 hat.2
    rw [Nat.add_right_comm] at h
    exact h.of_next? hstep
  | @fails t rest m m' cause hexec =>
    refine ⟨0, _, rfl, ?_⟩
    simp only [Point.end?, hat.1, Machine.exec_failed_of_not_isLoop hb.1 hexec]
  | @skip body rest m s hcell _ ih =>
    have hstep := Point.next?_of_exec hat.1 (Machine.exec_loopStart hm.onCell)
    rw [entry, if_pos hcell] at hstep
    have h := ih hm hb.2 hat.2.2.2
    have hstop : first + 2 + body.size + rest.size = first + (loop body rest).size := by
      rw [size]
      omega
    rw [hstop] at h
    exact h.of_next? hstep
  | inside hcell _ hne ih =>
    have hstep := Point.next?_of_exec hat.1 (Machine.exec_loopStart hm.onCell)
    rw [entry, if_neg hcell] at hstep
    exact ((ih hm hb.1 hat.2.1).of_stop hne).of_next? hstep
  | @again body rest m m' s hcell hbody _ ihb ihl =>
    -- The end of the loop leads to the same point as its start would, so what is seen from the start is seen behind the end.
    have hm' := hbody.inRange hm
    have hstep := Point.next?_of_exec hat.1 (Machine.exec_loopStart hm.onCell)
    rw [entry, if_neg hcell] at hstep
    obtain ⟨n, hn⟩ := ihb hm hb.1 hat.2.1
    have hstart := Point.next?_of_exec hat.1 (Machine.exec_loopStart hm'.onCell)
    have hend := Point.next?_of_exec hat.2.2.1 (Machine.exec_loopEnd hm'.onCell)
    have hne : first ≠ first + (loop body rest).size := by
      rw [size]
      omega
    exact (((ihl hm' hb hat).next hstart hne).of_next? hend).of_after? hn |>.of_next? hstep

/-! ## From the tokens to the block -/

/-- A point that a run through a block comes to is explained by the block: either the block came to its end before, and the run
went on behind it, or the run is still inside, and what is seen at the point is seen of the block. -/
def Block.Explains (program : List Token) (b : Block) (first n : Nat) (m : Machine) (q : Point) : Prop :=
  (∃ k m', k ≤ n ∧ b.Shows m (.ended m' .finished) ∧ Point.after? program k ⟨m', first + b.size⟩ = some q) ∨
    (b.Shows m (.streams q.machine.input q.machine.output) ∧
      ∀ m' o, q.end? program = some (m', o) → o ≠ .finished ∧ b.Shows m (.ended m' o))

/-- A point at which the run goes on is explained by a block that shows its streams. -/
theorem Block.Explains.of_next? {program : List Token} {b : Block} {first n : Nat} {m : Machine} {q r : Point}
    (h : b.Shows m (.streams q.machine.input q.machine.output)) (hq : q.next? program = some r) :
    b.Explains program first n m q := by
  refine Or.inr ⟨h, ?_⟩
  intro m' o hend
  rw [Point.end?_of_next? hq] at hend
  cases hend

/-- What explains a point for the rest of a block explains it for the block. -/
theorem Block.Explains.mono {program : List Token} {b c : Block} {first first' n n' : Nat} {m m₁ : Machine} {q : Point}
    (h : c.Explains program first' n' m₁ q) (hn : n' ≤ n) (hstop : first' + c.size = first + b.size)
    (hshows : ∀ s, c.Shows m₁ s → b.Shows m s) : b.Explains program first n m q := by
  rcases h with ⟨k, m', hk, hend, hq⟩ | ⟨hstreams, hend⟩
  · exact Or.inl ⟨k, m', by omega, hshows _ hend, by rw [← hstop]; exact hq⟩
  · refine Or.inr ⟨hshows _ hstreams, ?_⟩
    intro m' o h
    obtain ⟨hne, hended⟩ := hend m' o h
    exact ⟨hne, hshows _ hended⟩

/-- Every point that a run through a block comes to is explained by the block. -/
theorem Block.explains_of_after? {program : List Token} {b : Block} {first n : Nat} {m : Machine} {q : Point}
    (hm : m.tape.InRange) (hb : b.Plain) (hat : b.At program first)
    (h : Point.after? program n ⟨m, first⟩ = some q) : b.Explains program first n m q := by
  induction b generalizing first n m with
  | done => exact Or.inl ⟨n, m, Nat.le_refl n, .done m, h⟩
  | simple t rest ih =>
    cases hexec : m.exec 0 t with
    | next m' index =>
      have hstep := Point.next?_of_exec hat.1 (Machine.exec_next_of_not_isLoop hb.1 hexec)
      cases n with
      | zero =>
        cases h
        exact .of_next? (.now _ _) hstep
      | succ n =>
        rw [Point.after?_succ_of_next? hstep] at h
        refine (ih (Machine.inRange_of_exec hm hexec) hb.2 hat.2 h).mono (Nat.le_succ n) ?_ fun s => .next hexec
        rw [size]
        omega
    | failed m' cause =>
      have hfails : m.exec first t = .failed m' cause := Machine.exec_failed_of_not_isLoop hb.1 hexec
      cases n with
      | zero =>
        cases h
        refine Or.inr ⟨.now _ _, ?_⟩
        intro m₁ o hend
        simp only [Point.end?, hat.1, hfails, Option.some.injEq, Prod.mk.injEq] at hend
        obtain ⟨rfl, rfl⟩ := hend
        refine ⟨?_, .fails hexec⟩
        intro heq
        cases heq
      | succ n => simp [Point.after?, Point.next?, hat.1, hfails] at h
  | loop body rest ihb ihr =>
    have hstop : first + 2 + body.size + rest.size = first + (loop body rest).size := by
      rw [size]
      omega
    induction n using Nat.strongRecOn generalizing m with
    | ind n ih =>
      have hstart := Point.next?_of_exec hat.1 (Machine.exec_loopStart hm.onCell)
      cases n with
      | zero =>
        cases h
        exact .of_next? (.now _ _) hstart
      | succ n =>
        by_cases hcell : m.tape.cell = 0
        · rw [entry, if_pos hcell] at hstart
          rw [Point.after?_succ_of_next? hstart] at h
          exact (ihr hm hb.2 hat.2.2.2 h).mono (Nat.le_succ n) hstop fun s => .skip hcell
        · rw [entry, if_neg hcell] at hstart
          rw [Point.after?_succ_of_next? hstart] at h
          rcases ihb hm hb.1 hat.2.1 h with ⟨k, m', hk, hbody, hq⟩ | ⟨hstreams, hend⟩
          · -- The body is through: the run goes on as it would from the start of the loop, with fewer steps left.
            have hm' := hbody.inRange hm
            have hstart' := Point.next?_of_exec hat.1 (Machine.exec_loopStart hm'.onCell)
            have hend' := Point.next?_of_exec hat.2.2.1 (Machine.exec_loopEnd hm'.onCell)
            cases k with
            | zero =>
              cases hq
              exact .of_next? (.again hcell hbody (.now _ _)) hend'
            | succ k =>
              rw [Point.after?_succ_of_next? hend', ← Point.after?_succ_of_next? hstart'] at hq
              exact (ih (k + 1) (by omega) hm' hq).mono (by omega) rfl fun s => .again hcell hbody
          · -- The run is still in the body, and it can end there only by failing.
            refine Or.inr ⟨.inside hcell hstreams ?_, ?_⟩
            · intro m' heq
              cases heq
            · intro m' o hended
              obtain ⟨hne, hshows⟩ := hend m' o hended
              refine ⟨hne, .inside hcell hshows ?_⟩
              intro m₁ heq
              cases heq
              exact hne rfl

/-! ## Programs that read as a block -/

/-- At some moment of the run of a program the streams of the machine are these: so much is read and so much is written then. -/
def Machine.Passes (m : Machine) (program : List Token) (input : InputStream) (output : OutputStream) : Prop :=
  ∃ n q, Point.after? program n ⟨m, 0⟩ = some q ∧ q.machine.input = input ∧ q.machine.output = output

section Linked

variable {b : Block} {m : Machine}

theorem Block.at_link_zero (b : Block) : b.At (b.link 0) 0 := by
  simpa using b.at_link [] []

/-- Behind the last token a run stays where it is and is over. -/
theorem Point.eq_of_after?_length {program : List Token} {n : Nat} {q : Point}
    (h : after? program n ⟨m, program.length⟩ = some q) : q = ⟨m, program.length⟩ := by
  cases n with
  | zero =>
    cases h
    rfl
  | succ n => simp [after?, next?] at h

theorem Point.end?_length {program : List Token} : end? program ⟨m, program.length⟩ = some (m, .finished) := by
  simp [end?]

/-- A run of linked tokens passes the streams that their block shows. -/
theorem Block.passes_link_iff_shows (hb : b.Plain) (hm : m.tape.InRange) {input : InputStream} {output : OutputStream} :
    m.Passes (b.link 0) input output ↔ b.Shows m (.streams input output) := by
  constructor
  · rintro ⟨n, q, hq, rfl, rfl⟩
    rcases explains_of_after? hm hb b.at_link_zero hq with ⟨k, m', -, hend, hq⟩ | ⟨hstreams, -⟩
    · rw [Nat.zero_add, ← length_link b 0] at hq
      rw [Point.eq_of_after?_length hq]
      exact hend.streams hm
    · exact hstreams
  · intro h
    exact h.point hm hb b.at_link_zero

/-- A run of linked tokens ends as their block does. -/
theorem Block.exists_run_link_iff_shows (hb : b.Plain) (hm : m.tape.InRange) {m' : Machine} {o : Outcome} :
    (∃ steps, m.run steps (b.link 0) = some (m', o)) ↔ b.Shows m (.ended m' o) := by
  constructor
  · rintro ⟨steps, h⟩
    obtain ⟨n, q, hq, hend, -⟩ := Point.runFrom_eq_some_iff (p := ⟨m, 0⟩) |>.mp h
    rcases explains_of_after? hm hb b.at_link_zero hq with ⟨k, m₁, -, hshows, hq⟩ | ⟨-, hshows⟩
    · rw [Nat.zero_add, ← length_link b 0] at hq
      rw [Point.eq_of_after?_length hq, Point.end?_length] at hend
      cases hend
      exact hshows
    · exact (hshows m' o hend).2
  · intro h
    suffices ∃ n q, Point.after? (b.link 0) n ⟨m, 0⟩ = some q ∧ q.end? (b.link 0) = some (m', o) by
      obtain ⟨n, q, hq, hend⟩ := this
      exact ⟨_, Point.runFrom_eq_some_iff (p := ⟨m, 0⟩) |>.mpr ⟨n, q, hq, hend, Nat.le_refl _⟩⟩
    have hpoint := h.point hm hb b.at_link_zero
    cases o with
    | finished =>
      obtain ⟨n, hn⟩ := hpoint
      refine ⟨n, _, hn, ?_⟩
      rw [Nat.zero_add, ← length_link b 0]
      exact Point.end?_length
    | failed cause => exact hpoint

end Linked

/-- A run of a paired program that fails fails because of a stream. -/
theorem Program.ofStream_of_run {tokens linked : List Token} {m m' : Machine} {steps : Nat} {cause : RuntimeError}
    (h : Program.resolve tokens = .ok linked) (hm : m.tape.InRange) (hrun : m.run steps linked = some (m', .failed cause)) :
    cause.ofStream = true := by
  obtain ⟨b, hread, rfl⟩ := Block.resolve_eq_ok_iff.mp h
  have hb := Block.plain_of_read hread b (by simp)
  exact ((Block.exists_run_link_iff_shows hb hm).mp ⟨steps, hrun⟩).ofStream hb hm

/-- Pairing the loop tokens of a program and running it is reading it as a tree and executing that: one run ends if and only if
the other does, with the same outcome and the same machine, tape, cursor and streams included. A run that fails fails because of
a stream. -/
theorem exists_run_resolve_iff_run_block {tokens linked : List Token} {m : Machine}
    (h : Program.resolve tokens = .ok linked) (hm : m.tape.InRange) :
    ∃ b, Block.ofTokens? tokens = some b ∧ b.tokens = tokens.map Token.untarget ∧
      (∀ m' o, (∃ steps, m.run steps linked = some (m', o)) ↔ ∃ rounds, b.run rounds m = some (m', o)) ∧
      ∀ steps m' cause, m.run steps linked = some (m', .failed cause) → cause.ofStream = true := by
  have hfails := fun steps m' cause => @Program.ofStream_of_run _ _ _ m' steps cause h hm
  obtain ⟨b, hread, rfl⟩ := Block.resolve_eq_ok_iff.mp h
  have hblock := Block.ofTokens?_eq_some_iff.mpr hread
  have hb := Block.plain_of_read hread b (by simp)
  refine ⟨b, hblock, Block.tokens_of_ofTokens? hblock, ?_, hfails⟩
  intro m' o
  rw [Block.exists_run_link_iff_shows hb hm, Block.exists_run_iff_shows hm]

/-- The program `,[.,]` with a target that is out of date, on one cell and the input 7, 0: its tree writes the 7 and ends, and so
does its run. -/
theorem exists_run_resolve_echo :
    ∃ linked m', Program.resolve [.input .null, .loopStart (some (.nat 9)), .output .null, .input .null, .loopEnd none] =
        .ok linked ∧ (Machine.feed ⟨1, .blank 1, {}, {}⟩ [7, 0]).tape.InRange ∧ m'.output.written = #[7] ∧
      ∃ steps, (Machine.feed ⟨1, .blank 1, {}, {}⟩ [7, 0]).run steps linked = some (m', .finished) := by
  have hm : (Machine.feed ⟨1, .blank 1, {}, {}⟩ [7, 0]).tape.InRange := by decide
  obtain ⟨b, hb, -, hrun, -⟩ := @exists_run_resolve_iff_run_block
    [.input .null, .loopStart (some (.nat 9)), .output .null, .input .null, .loopEnd none] _ _ rfl hm
  obtain rfl := Option.some.inj hb
  exact ⟨_, _, rfl, hm, rfl, (hrun _ _).mpr ⟨2, rfl⟩⟩

end Brainfuck
