import Brainfuck.Proofs.Batches
import Brainfuck.Proofs.Targets

/-!
# Leaving a loop

A loop is left on a zero cell and on no other, whether it is skipped at its start or left at its end (`Point.exit_of_after?`). So a loop
that stands behind a loop is never entered, and a loop around a single loop goes round once at most. Either may be put in or taken out
anywhere in a source, also where the loops around it are opened and closed in other parts of the text (`loop_absorbs`).
-/

namespace Brainfuck

/-! ## Loops behind and around a loop -/

namespace Block

variable {body other rest : Block} {m m' : Machine} {s : Sight}

/-- On a zero cell a loop is passed over. -/
theorem shows_loop_iff_of_cell_eq_zero (hcell : m.tape.cell = 0) : Shows (.loop body rest) m s ↔ Shows rest m s := by
  constructor
  · intro h
    cases h with
    | now => exact .now _ _
    | skip _ hrest => exact hrest
    | inside hne => exact absurd hcell hne
    | again hne => exact absurd hcell hne
  · exact .skip hcell

/-- Where a loop with nothing behind it ends, the cell is zero. -/
theorem cell_of_shows_loop (h : Shows (.loop body .done) m (.ended m' .finished)) : m'.tape.cell = 0 := by
  generalize hs : Sight.ended m' .finished = s at h
  induction h using Shows.loop_induction with
  | now => cases hs
  | skip hcell hrest =>
    subst hs
    cases hrest
    exact hcell
  | inside _ _ hne => exact absurd hs.symm (hne m')
  | again _ _ _ ih => exact ih hs

/-- A loop behind a loop is never entered. -/
theorem same_loop_behind (body other rest : Block) : Same (.loop body (.loop other rest)) (.loop body rest) := by
  rintro m - s
  constructor
  · intro h
    induction h using Shows.loop_induction with
    | now => exact .now _ _
    | skip hcell hrest => exact .skip hcell ((shows_loop_iff_of_cell_eq_zero hcell).mp hrest)
    | inside hcell hbody hne => exact .inside hcell hbody hne
    | again hcell hbody _ ih => exact .again hcell hbody ih
  · intro h
    induction h using Shows.loop_induction with
    | now => exact .now _ _
    | skip hcell hrest => exact .skip hcell (.skip hcell hrest)
    | inside hcell hbody hne => exact .inside hcell hbody hne
    | again hcell hbody _ ih => exact .again hcell hbody ih

/-- A loop around a single loop is that loop. -/
theorem same_loop_around (body rest : Block) : Same (.loop (.loop body .done) rest) (.loop body rest) := by
  rintro m - s
  constructor
  · intro h
    induction h using Shows.loop_induction with
    | now => exact .now _ _
    | skip hcell hrest => exact .skip hcell hrest
    | inside _ hinner hne => exact hinner.append_left hne
    | again _ hinner _ ih =>
      -- the inner loop has left a zero, so the outer one is over
      exact hinner.append ((shows_loop_iff_of_cell_eq_zero (cell_of_shows_loop hinner)).mp ih)
  · intro h
    induction h using Shows.loop_induction with
    | now => exact .now _ _
    | skip hcell hrest => exact .skip hcell hrest
    | inside hcell hbody hne => exact .inside hcell (.inside hcell hbody hne) hne
    | again hcell hbody _ ih =>
      -- a round of the one loop joins the rounds of the inner loop
      cases ih with
      | now => exact .inside hcell (.again hcell hbody (.now _ _)) nofun
      | skip hzero hrest => exact .again hcell (.again hcell hbody (.skip hzero (.done _))) (.skip hzero hrest)
      | inside _ hinner hne => exact .inside hcell (.again hcell hbody hinner) hne
      | again _ hinner hloop => exact .again hcell (.again hcell hbody hinner) hloop

/-! ## Loops in a text -/

theorem append_done (b : Block) : b.append .done = b := by
  induction b with
  | done => rfl
  | simple t rest ih => rw [append, ih]
  | loop body rest _ ih => rw [append, ih]

/-- Tokens in front do not make a list readable. -/
theorem read_append_eq_none {us : List Token} (h : read us = none) (ts : List Token) : read (ts ++ us) = none := by
  induction ts with
  | nil => exact h
  | cons t ts ih => rw [List.cons_append, read_cons, ih, Option.bind_none]

end Block

/-- A text as the body of a loop. -/
def Source.loop (body : List Char) : List Char := '[' :: (body ++ [']'])

namespace Program

/-- A loop in front of tokens stands in front of the first block that they read as. -/
theorem read_tokenize_loop_append {body : List Char} {b c : Block} {outer : List Block} {us : List Token}
    (hbody : Block.read (tokenize body) = some [b]) (hus : Block.read us = some (c :: outer)) :
    Block.read (tokenize (Source.loop body) ++ us) = some (.loop b c :: outer) := by
  have hstop : Block.read (.loopEnd none :: us) = some (.done :: c :: outer) := by
    rw [Block.read_cons, hus]
    rfl
  have hinner := @Block.read_append_of_read _ _ [] _ _ _ hbody hstop
  have htokens : tokenize (Source.loop body) ++ us = .loopStart none :: (tokenize body ++ .loopEnd none :: us) := by
    simp [Source.loop, tokenize, Token.ofChar]
  rw [htokens, Block.read_cons, hinner, Block.append_done]
  rfl

/-- Tokens are the same in front of all others if they are the same in front of those that read as blocks. -/
theorem same_append {ts ts' : List Token}
    (h : ∀ us c outer, Block.read us = some (c :: outer) →
      ∃ b b', Block.read (ts ++ us) = some (b :: outer) ∧ Block.read (ts' ++ us) = some (b' :: outer) ∧ Block.Same b b')
    (us : List Token) : Same (ts ++ us) (ts' ++ us) := by
  unfold Same
  rcases hread : Block.read us with _ | (_ | ⟨c, outer⟩)
  · rw [Block.read_append_eq_none hread, Block.read_append_eq_none hread]
    exact .none
  · exact absurd hread Block.read_ne_nil
  · obtain ⟨b, b', hb, hb', hsame⟩ := h us c outer hread
    rw [hb, hb']
    exact .some (.cons hsame (List.forall₂_same.mpr fun b _ => .refl b))

variable {a b : List Char}

/-- In front of any tokens two loops are the same as the first of them. -/
theorem same_loop_behind (ha : Source.Balanced a) (hb : Source.Balanced b) (us : List Token) :
    Same (tokenize (Source.loop a ++ Source.loop b) ++ us) (tokenize (Source.loop a) ++ us) := by
  obtain ⟨body, hbody⟩ := exists_read ha
  obtain ⟨other, hother⟩ := exists_read hb
  refine same_append ?_ us
  intro us c outer hus
  refine ⟨_, _, ?_, read_tokenize_loop_append hbody hus, Block.same_loop_behind body other c⟩
  rw [tokenize_append, List.append_assoc]
  exact read_tokenize_loop_append hbody (read_tokenize_loop_append hother hus)

/-- In front of any tokens a loop around a loop is the same as the inner one. -/
theorem same_loop_around (ha : Source.Balanced a) (us : List Token) :
    Same (tokenize (Source.loop (Source.loop a)) ++ us) (tokenize (Source.loop a) ++ us) := by
  obtain ⟨body, hbody⟩ := exists_read ha
  have hinner : Block.read (tokenize (Source.loop a)) = some [.loop body .done] := by
    have h := read_tokenize_loop_append hbody Block.read_nil
    rwa [List.append_nil] at h
  refine same_append ?_ us
  intro us c outer hus
  exact ⟨_, _, read_tokenize_loop_append hinner hus, read_tokenize_loop_append hbody hus, Block.same_loop_around body c⟩

end Program

/-! ## Sources that do the same -/

/-- Two sources are compiled with the same options, and a machine does the same with both: their runs come to the same ends, and what has
passed through the streams at some moment of one run has at some moment of the other. -/
def Machine.SourcesAlike (options : Program.Options) (source source' : List Char) (m : Machine) : Prop :=
  ∃ tokens tokens', Program.compile options source = .ok tokens ∧ Program.compile options source' = .ok tokens' ∧
    (∀ m' o, m.SourceEnds options source m' o ↔ m.SourceEnds options source' m' o) ∧
    ∀ input output, m.Passes tokens input output ↔ m.Passes tokens' input output

/-- Sources whose tokens are the same program do the same. -/
theorem Machine.sourcesAlike_of_same {source source' : List Char} {m : Machine} (h : Source.Balanced source')
    (hsame : Program.Same (Program.tokenize source) (Program.tokenize source')) (options : Program.Options)
    (hm : m.tape.InRange) : m.SourcesAlike options source source' := by
  have hunpaired : Program.Same (Program.unpaired options source) (Program.unpaired options source') :=
    (Program.same_unpaired options source).symm.trans (hsame.trans (Program.same_unpaired options source'))
  obtain ⟨tokens', htokens'⟩ := Program.exists_compile h options
  have hresolve' := htokens'
  rw [Program.compile_eq_resolve] at hresolve'
  obtain ⟨tokens, hresolve⟩ := hunpaired.symm.exists_resolve hresolve'
  have htokens : Program.compile options source = .ok tokens := by rw [Program.compile_eq_resolve, hresolve]
  obtain ⟨hends, hpasses⟩ := hunpaired.runsAlike hresolve hresolve' hm
  refine ⟨tokens, tokens', htokens, htokens', ?_, hpasses⟩
  intro m' o
  rw [Machine.sourceEnds_iff htokens, Machine.sourceEnds_iff htokens']
  exact hends m' o

/-! ## Where a loop is left -/

/-- A step of a paired program that leads behind the end of a loop is taken at one of the two ends of the loop, on a zero cell, and
changes nothing else. -/
theorem Point.exit_of_next? {tokens linked : List Token} {p q : Point} {stop : Nat} {target : Option Numeral}
    (h : Program.resolve tokens = .ok linked) (hp : p.machine.tape.InRange) (hnext : p.next? linked = some q)
    (hstop : linked[stop]? = some (.loopEnd target)) (hq : q.index = stop + 1) :
    (p.index = stop ∨ Program.Partners linked p.index stop) ∧ q.machine = p.machine ∧ q.machine.tape.cell = 0 := by
  by_cases hjumps : p.Jumps linked
  · obtain ⟨partner, hmatched, hlands⟩ := next?_of_jumps h hp hjumps
    obtain rfl : q = ⟨p.machine, partner + 1⟩ := Option.some.inj (hnext.symm.trans hlands)
    obtain rfl : partner = stop := Nat.succ.inj hq
    rcases hmatched with hpartners | hpartners
    · obtain ⟨t, ht, hcell⟩ := hjumps
      obtain ⟨target', hstart⟩ := hpartners.opens
      obtain rfl : t = .loopStart target' := Option.some.inj (ht.symm.trans hstart)
      exact ⟨Or.inr hpartners, rfl, eq_of_beq hcell⟩
    · obtain ⟨target', hstart⟩ := hpartners.opens
      cases hstart.symm.trans hstop
  · obtain rfl : p.index = stop := Nat.succ.inj ((index_of_next? hjumps hnext).symm.trans hq)
    have hcell : p.machine.tape.cell = 0 := by
      by_contra hne
      exact hjumps ⟨_, hstop, bne_iff_ne.mpr hne⟩
    have hexec : p.machine.exec p.index (.loopEnd target) = .next p.machine (p.index + 1) := by
      simp [Machine.exec, Machine.branch, hp.onCell, hcell]
    obtain rfl : q = ⟨p.machine, p.index + 1⟩ := Option.some.inj (hnext.symm.trans (next?_of_exec hstop hexec))
    exact ⟨Or.inl rfl, rfl, hcell⟩

/-- Whenever a run of a paired program stands behind the end of a loop, it has come there from one of the two ends of the loop, and the
cell is zero. -/
theorem Point.exit_of_after? {tokens linked : List Token} {m : Machine} {n stop : Nat} {q : Point} {target : Option Numeral}
    (h : Program.resolve tokens = .ok linked) (hm : m.tape.InRange) (hq : after? linked n ⟨m, 0⟩ = some q)
    (hstop : linked[stop]? = some (.loopEnd target)) (hindex : q.index = stop + 1) :
    (∃ k p, n = k + 1 ∧ after? linked k ⟨m, 0⟩ = some p ∧ q.machine = p.machine ∧
      (p.index = stop ∨ Program.Partners linked p.index stop)) ∧ q.machine.tape.cell = 0 := by
  cases n with
  | zero =>
    cases hq
    cases hindex
  | succ k =>
    obtain ⟨p, hp, hnext⟩ := after?_succ_eq_some_iff.mp hq
    have hin : p.machine.tape.InRange := @inRange_of_after? _ _ ⟨m, 0⟩ _ hm hp
    obtain ⟨hends, hmachine, hcell⟩ := exit_of_next? h hin hnext hstop hindex
    exact ⟨⟨k, p, rfl, hp, hmachine, hends⟩, hcell⟩

/-- A loop is left only on a zero cell. In a balanced source with a loop in it, whose body is balanced, another loop may be put behind the
loop or around it, and under all settings the source does the same as before; what stands before the loop and behind it need not be
balanced. And whenever the run of a compiled source stands behind the end of a loop, it has come there from one of the two ends of the
loop, and the cell under the cursor is zero. -/
theorem loop_absorbs {m : Machine} (hm : m.tape.InRange) :
    (∀ before a b after, Source.Balanced a → Source.Balanced b → Source.Balanced (before ++ Source.loop a ++ after) → ∀ options,
      m.SourcesAlike options (before ++ Source.loop a ++ Source.loop b ++ after) (before ++ Source.loop a ++ after) ∧
        m.SourcesAlike options (before ++ Source.loop (Source.loop a) ++ after) (before ++ Source.loop a ++ after)) ∧
    ∀ options source tokens, Program.compile options source = .ok tokens → ∀ n q stop target,
      Point.after? tokens n ⟨m, 0⟩ = some q → tokens[stop]? = some (.loopEnd target) → q.index = stop + 1 →
        (∃ k p, n = k + 1 ∧ Point.after? tokens k ⟨m, 0⟩ = some p ∧ q.machine = p.machine ∧
          (p.index = stop ∨ Program.Partners tokens p.index stop)) ∧ q.machine.tape.cell = 0 := by
  refine ⟨?_, ?_⟩
  · intro before a b after ha hb h options
    have hbehind := (Program.same_loop_behind ha hb (Program.tokenize after)).append_left (Program.tokenize before)
    have haround := (Program.same_loop_around ha (Program.tokenize after)).append_left (Program.tokenize before)
    refine ⟨Machine.sourcesAlike_of_same h ?_ options hm, Machine.sourcesAlike_of_same h ?_ options hm⟩
    · simpa only [Program.tokenize_append, List.append_assoc] using hbehind
    · simpa only [Program.tokenize_append, List.append_assoc] using haround
  · intro options source tokens hcompile n q stop target hq hstop hindex
    rw [Program.compile_eq_resolve] at hcompile
    exact Point.exit_of_after? hcompile hm hq hstop hindex

/-- In `+[[-]>]` the inner loop stands in a loop that is opened before it and closed behind it. With `[,]` behind it or another loop around
it the source ends in the same way, though there is nothing to read. -/
theorem loop_absorbs_nested :
    let m : Machine := ⟨2, .blank 2, {}, {}⟩
    let before := ['+', '[']
    let after := ['>', ']']
    Source.Balanced ['-'] ∧ Source.Balanced [','] ∧ Source.Balanced (before ++ Source.loop ['-'] ++ after) ∧ m.tape.InRange ∧
      ∃ r, r.tape.cells = #[0, 0] ∧ r.tape.cursor = 1 ∧
        m.SourceEnds {} (before ++ Source.loop ['-'] ++ Source.loop [','] ++ after) r .finished ∧
        m.SourceEnds {} (before ++ Source.loop (Source.loop ['-']) ++ after) r .finished := by
  intro m before after
  have ha : Source.Balanced ['-'] := by decide
  have hb : Source.Balanced [','] := by decide
  have h : Source.Balanced (before ++ Source.loop ['-'] ++ after) := by decide
  have hm : m.tape.InRange := by decide
  obtain ⟨⟨-, -, -, -, hbehind, -⟩, -, -, -, -, haround, -⟩ := (loop_absorbs hm).1 before ['-'] [','] after ha hb h {}
  have hends : m.SourceEnds {} (before ++ Source.loop ['-'] ++ after) ⟨2, ⟨#[0, 0], 1⟩, {}, {}⟩ .finished := ⟨9, _, rfl⟩
  exact ⟨ha, hb, h, hm, _, rfl, rfl, (hbehind _ _).mpr hends, (haround _ _).mpr hends⟩

end Brainfuck
