import Brainfuck.Proofs.Batches
import Brainfuck.Proofs.Symmetry
import Mathlib.Data.Nat.Find
import Mathlib.Logic.Function.Iterate
import Mathlib.Order.Bounds.Basic

/-!
# Linear loops

A loop is linear if its body only adds and moves, and comes back to the cell where it began. What such a body adds to each cell is the
same in every round (`Source.gain`), so the loop can be summed up: it stops after the least number of rounds that brings the cell under
the cursor to zero, and has then added to each cell what the body adds, as many times (`runSource_linear_loop`). Cells and displacements
are meant modulo the length of the tape, so on a short tape the body may come to one cell at several displacements.

What a text or some rounds of it do to a tape is told by a displacement and a gain for each place (`Tape.Gains`); one lemma says how
these go on one after the other, and serves for the commands of the body as well as for the rounds of the loop.
-/

namespace Brainfuck

/-! ## Displacements and gains of a text -/

namespace Source

/-- What a command adds to the cell under the cursor. -/
def amount : Char → Int
  | '+' => 1
  | '-' => -1
  | _ => 0

/-- By how many cells a command moves the cursor to the right. -/
def shift : Char → Int
  | '>' => 1
  | '<' => -1
  | _ => 0

/-- By how many cells a text moves the cursor to the right. -/
def displacement (text : List Char) : Int := (text.map shift).sum

/-- The characters of a text, each with the displacement of the text before it. -/
def placed (text : List Char) : List (Int × Char) := (text.inits.map displacement).zip text

/-- What a text adds to the cell at a place, counted from where the cursor is at first: the sum of what its characters add that are
executed at a displacement of this place, modulo the length of the tape. -/
def gain (length : Nat) (text : List Char) (place : Int) : Int :=
  (((placed text).filter fun p => (p.1 - place) % length = 0).map fun p => amount p.2).sum

/-- The body `->>+>` on a tape of three cells takes from the first cell what it adds to the last one, and comes back. -/
example : displacement ['-', '>', '>', '+', '>'] % 3 = 0 ∧ gain 3 ['-', '>', '>', '+', '>'] 0 = -1 ∧
    gain 3 ['-', '>', '>', '+', '>'] 1 = 0 ∧ gain 3 ['-', '>', '>', '+', '>'] 2 = 1 := by decide

theorem displacement_cons (c : Char) (text : List Char) : displacement (c :: text) = shift c + displacement text := by
  rw [displacement, List.map_cons, List.sum_cons, displacement]

theorem placed_cons (c : Char) (text : List Char) :
    placed (c :: text) = (0, c) :: (placed text).map (Prod.map (shift c + ·) id) := by
  have hbefore : displacement ∘ List.cons c = (shift c + ·) ∘ displacement := by
    funext before
    exact displacement_cons c before
  rw [placed, List.inits_cons, List.map_cons, List.zip_cons_cons, List.map_map, hbefore, ← List.map_map, List.zip_map_left,
    placed, show displacement [] = 0 from rfl]

theorem gain_cons (length : Nat) (c : Char) (text : List Char) (place : Int) :
    gain length (c :: text) place = (if place % length = 0 then amount c else 0) + gain length text (place - shift c) := by
  have hlater : ((fun p : Int × Char => decide ((p.1 - place) % length = 0)) ∘ Prod.map (shift c + ·) id) =
      fun p => decide ((p.1 - (place - shift c)) % length = 0) := by
    funext p
    have hplace : shift c + p.1 - place = p.1 - (place - shift c) := by omega
    simp only [Function.comp_apply, Prod.map_fst, hplace]
  have hhere : (0 - place) % length = 0 ↔ place % length = 0 := by
    rw [Int.zero_sub, ← Int.dvd_iff_emod_eq_zero, ← Int.dvd_iff_emod_eq_zero, Int.dvd_neg]
  rw [gain, placed_cons, List.filter_cons, List.filter_map, hlater]
  by_cases hplace : place % length = 0
  · rw [if_pos hplace, if_pos (by simpa using hhere.mpr hplace), List.map_cons, List.sum_cons, List.map_map]
    rfl
  · rw [if_neg hplace, if_neg (by simpa using mt hhere.mp hplace), List.map_map, Int.zero_add]
    rfl

end Source

/-! ## Bytes by place -/

namespace Tape

/-- The byte in the cell at a place, which is meant modulo the length of the tape. -/
def byteAt (t : Tape) (place : Int) : UInt8 := t.cells.getD (place % t.length).toNat 0

variable {t t' t'' : Tape} {place place' s s' : Int} {g g' : Int → Int}

theorem byteAt_congr (h : (place - place') % t.length = 0) : t.byteAt place = t.byteAt place' := by
  rw [byteAt, byteAt, Int.emod_eq_emod_iff_emod_sub_eq_zero.mpr h]

/-- The byte under the cursor is that at its place. -/
theorem InRange.byteAt_cursor (h : t.InRange) : t.byteAt t.cursor = t.cell := by
  rw [byteAt, cell, h.slot_cursor, Int.emod_eq_of_lt h.1 h.2]

/-- A byte that is written is at the places of the cursor, and at the others is what was there. -/
theorem InRange.byteAt_write (h : t.InRange) (b : UInt8) (place : Int) :
    (t.write b).byteAt place = if (place - t.cursor) % t.length = 0 then b else t.byteAt place := by
  have hnonneg := (emod_inRange place h.length_pos).1
  have hwhere : t.cursor = ((place % t.length).toNat : Int) ↔ (place - t.cursor) % t.length = 0 := by
    rw [Int.toNat_of_nonneg hnonneg, ← Int.emod_eq_emod_iff_emod_sub_eq_zero, Int.emod_eq_of_lt h.1 h.2]
    exact eq_comm
  rw [byteAt, byteAt, length_write, Array.getD_eq_getD_getElem?, h.getElem?_write, Array.getD_eq_getD_getElem?]
  simp only [hwhere]
  split <;> rfl

/-! ## What texts do to a tape -/

/-- The tape behind tokens that change nothing else. -/
def afterAll (ts : List Token) (t : Tape) : Tape := ts.foldl after t

theorem InRange.afterAll (h : t.InRange) (ts : List Token) : (afterAll ts t).InRange := by
  induction ts generalizing t with
  | nil => exact h
  | cons u ts ih => exact ih (h.after u)

/-- The second tape is the first with the cursor so many cells further on, and with so much added to the cell at each place, counted
from the cursor of the first. -/
structure Gains (t t' : Tape) (s : Int) (g : Int → Int) : Prop where
  length : t'.length = t.length
  cursor : t'.cursor = (t.cursor + s) % t.length
  bytes : ∀ place, ((t'.byteAt (t.cursor + place)).toNat : Int) = ((t.byteAt (t.cursor + place)).toNat + g place) % 256

theorem toNat_emod (b : UInt8) : (b.toNat : Int) % 256 = b.toNat := by
  have hb := b.toNat_lt
  omega

theorem Gains.refl (h : t.InRange) : t.Gains t 0 fun _ => 0 where
  length := rfl
  cursor := by rw [Int.add_zero, Int.emod_eq_of_lt h.1 h.2]
  bytes place := by rw [Int.add_zero, toNat_emod]

theorem Gains.inRange (h : t.Gains t' s g) (ht : t.InRange) : t'.InRange := by
  rw [InRange, h.length, h.cursor]
  exact emod_inRange _ ht.length_pos

/-- Gains add up; those of the second part are counted from where the first part has moved the cursor to. -/
theorem Gains.trans (h : t.Gains t' s g) (h' : t'.Gains t'' s' g') :
    t.Gains t'' (s + s') fun place => g place + g' (place - s) where
  length := h'.length.trans h.length
  cursor := by rw [h'.cursor, h.length, h.cursor, Int.emod_add_emod, Int.add_assoc]
  bytes place := by
    have hwhere : (t.cursor + place - (t'.cursor + (place - s))) % t.length = 0 := by
      have hdiff : t.cursor + place - (t'.cursor + (place - s)) = t.cursor + s - (t.cursor + s) % t.length := by
        rw [h.cursor]
        omega
      rw [hdiff]
      exact Int.emod_eq_zero_of_dvd (Int.dvd_self_sub_emod)
    rw [@byteAt_congr t'' _ _ (by rw [h'.length, h.length]; exact hwhere), h'.bytes,
      ← @byteAt_congr t' _ _ (by rw [h.length]; exact hwhere), h.bytes, Int.emod_add_emod, Int.add_assoc]

theorem gains_add (h : t.InRange) (delta : Int) :
    t.Gains (t.add delta) 0 fun place => if place % t.length = 0 then delta else 0 where
  length := length_add t delta
  cursor := by rw [cursor_add, Int.add_zero, Int.emod_eq_of_lt h.1 h.2]
  bytes place := by
    have hplace : t.cursor + place - t.cursor = place := by omega
    rw [add, h.byteAt_write, hplace]
    by_cases hhere : place % t.length = 0
    · have hsame : t.byteAt (t.cursor + place) = t.cell := by
        rw [← h.byteAt_cursor]
        exact byteAt_congr (by rw [hplace, hhere])
      rw [if_pos hhere, if_pos hhere, hsame, UInt8.toNat_ofNat']
      omega
    · rw [if_neg hhere, if_neg hhere, Int.add_zero, toNat_emod]

theorem gains_move (shift : Int) : t.Gains (t.move shift) shift fun _ => 0 where
  length := rfl
  cursor := rfl
  bytes place := by rw [Int.add_zero, toNat_emod]; rfl

/-- A command that adds or moves does what its amount and its shift say. -/
theorem after_ofChar {c : Char} (hc : c ∈ ['+', '-', '<', '>']) (h : t.InRange) :
    t.after (Token.ofChar c) = (t.add (Source.amount c)).move (Source.shift c) := by
  simp only [List.mem_cons, List.not_mem_nil, or_false] at hc
  rcases hc with rfl | rfl | rfl | rfl
  · exact (move_zero (h.add 1)).symm
  · exact (move_zero (h.add (-1))).symm
  · exact congrArg (move · (-1)) (add_zero t).symm
  · exact congrArg (move · 1) (add_zero t).symm

/-- A text that only adds and moves has its displacement and its gain. -/
theorem gains_text {text : List Char} (htext : ∀ c ∈ text, c ∈ ['+', '-', '<', '>']) (h : t.InRange) :
    t.Gains (afterAll (Program.tokenize text) t) (Source.displacement text) (Source.gain t.length text) := by
  induction text generalizing t with
  | nil => exact .refl h
  | cons c text ih =>
    obtain ⟨hc, htext⟩ := List.forall_mem_cons.mp htext
    have hchar := (gains_add h (Source.amount c)).trans (gains_move (Source.shift c))
    rw [← after_ofChar hc h, Int.zero_add] at hchar
    have hboth := hchar.trans (ih htext (h.after _))
    rw [hchar.length] at hboth
    have hgain : Source.gain t.length (c :: text) = fun place : Int =>
        (if place % t.length = 0 then Source.amount c else 0) + 0 + Source.gain t.length text (place - Source.shift c) := by
      funext place
      rw [Source.gain_cons, Int.add_zero]
    rw [Source.displacement_cons, hgain]
    exact hboth

/-- Rounds of a text that comes back to where it began have the gain of one round as often as there are rounds. -/
theorem gains_iterate {text : List Char} (htext : ∀ c ∈ text, c ∈ ['+', '-', '<', '>']) (h : t.InRange)
    (hback : Source.displacement text % t.length = 0) (k : Nat) :
    t.Gains ((afterAll (Program.tokenize text))^[k] t) 0 fun place => k * Source.gain t.length text place := by
  induction k with
  | zero =>
    have hgain : (fun place => ((0 : Nat) : Int) * Source.gain t.length text place) = fun _ => 0 := by
      funext place
      exact Int.zero_mul _
    rw [hgain]
    exact .refl h
  | succ k ih =>
    have hround := gains_text htext (ih.inRange h)
    rw [ih.length] at hround
    have hboth := ih.trans hround
    rw [← Function.iterate_succ_apply' (afterAll (Program.tokenize text)), Int.zero_add] at hboth
    refine ⟨hboth.length, ?_, ?_⟩
    · rw [hboth.cursor, Int.add_emod, hback, Int.add_zero, Int.add_zero, Int.emod_emod]
    · intro place
      rw [hboth.bytes, Int.sub_zero, Int.natCast_succ, Int.add_mul, Int.one_mul]

/-- The cell under the cursor after some rounds is zero if the byte that was in it and the gain of these rounds are zero modulo 256. -/
theorem cell_iterate_eq_zero_iff {text : List Char} (htext : ∀ c ∈ text, c ∈ ['+', '-', '<', '>']) (h : t.InRange)
    (hback : Source.displacement text % t.length = 0) (k : Nat) :
    ((afterAll (Program.tokenize text))^[k] t).cell = 0 ↔
      ((t.cell.toNat : Int) + k * Source.gain t.length text 0) % 256 = 0 := by
  have hgains := gains_iterate htext h hback k
  have hcursor := hgains.cursor
  have hbyte := hgains.bytes 0
  rw [Int.add_zero, Int.emod_eq_of_lt h.1 h.2] at hcursor
  rw [Int.add_zero, h.byteAt_cursor, ← hcursor, (hgains.inRange h).byteAt_cursor] at hbyte
  rw [← hbyte, ← UInt8.toNat_inj]
  exact Int.natCast_eq_zero.symm

end Tape

/-! ## Loops over quiet tokens -/

/-- The first number with a property, if zero does not have it, is one more than the first whose successor has it. -/
theorem isLeast_succ_iff {p : Nat → Prop} (hzero : ¬ p 0) {k : Nat} : IsLeast {k | p k} (k + 1) ↔ IsLeast {k | p (k + 1)} k := by
  constructor
  · rintro ⟨hk, hleast⟩
    refine ⟨hk, ?_⟩
    intro j hj
    exact Nat.le_of_succ_le_succ (hleast hj)
  · rintro ⟨hk, hleast⟩
    refine ⟨hk, ?_⟩
    intro j hj
    cases j with
    | zero => exact absurd hj hzero
    | succ j => exact Nat.succ_le_succ (hleast hj)

namespace Block

variable {ts : List Token} {m m' : Machine} {o : Outcome}

theorem shows_done_ended_iff : Shows .done m (.ended m' o) ↔ m' = m ∧ o = .finished := by
  constructor
  · intro h
    cases h
    exact ⟨rfl, rfl⟩
  · rintro ⟨rfl, rfl⟩
    exact .done m'

/-- A loop over tokens that only change the tape ends when they have been executed so often that the cell under the cursor is zero, and
not before, and changes nothing else. -/
theorem shows_loop_prepend_iff (hts : ∀ t ∈ ts, t.isQuiet = true) (hm : m.tape.InRange) :
    Shows (.loop (prepend ts .done) .done) m (.ended m' o) ↔
      ∃ k, IsLeast {k | ((Tape.afterAll ts)^[k] m.tape).cell = 0} k ∧
        m' = { m with tape := (Tape.afterAll ts)^[k] m.tape } ∧ o = .finished := by
  constructor
  · intro h
    generalize hs : Sight.ended m' o = s at h
    induction h using Shows.loop_induction with
    | now => cases hs
    | skip hcell hrest =>
      subst hs
      obtain ⟨rfl, rfl⟩ := shows_done_ended_iff.mp hrest
      exact ⟨0, ⟨hcell, fun j _ => Nat.zero_le j⟩, rfl, rfl⟩
    | inside _ hbody hgoes =>
      -- a body that only changes the tape comes to its end
      subst hs
      rw [shows_prepend_iff hm hts, shows_done_ended_iff] at hbody
      obtain ⟨-, rfl⟩ := hbody
      exact absurd rfl (hgoes m')
    | again hcell hbody _ ih =>
      rw [shows_prepend_iff hm hts, shows_done_ended_iff] at hbody
      obtain ⟨rfl, -⟩ := hbody
      obtain ⟨k, hleast, hend⟩ := ih (hm.afterAll ts) hs
      exact ⟨k + 1, (isLeast_succ_iff hcell).mpr hleast, hend⟩
  · rintro ⟨k, hleast, rfl, rfl⟩
    induction k generalizing m with
    | zero => exact .skip hleast.1 (.done m)
    | succ k ih =>
      have hcell : m.tape.cell ≠ 0 := by
        intro hzero
        exact absurd (hleast.2 hzero) (Nat.not_succ_le_zero k)
      have hbody : Shows (prepend ts .done) m (.ended { m with tape := Tape.afterAll ts m.tape } .finished) :=
        (shows_prepend_iff hm hts).mpr (.done _)
      refine .again hcell hbody (ih (hm.afterAll ts) ?_)
      exact (@isLeast_succ_iff (fun k => ((Tape.afterAll ts)^[k] m.tape).cell = 0) hcell k).mp hleast

end Block

/-! ## Linear loops as sources -/

section LinearLoop

variable {body : List Char} {m : Machine} {options : Program.Options}

theorem isQuiet_of_mem_tokenize (hbody : ∀ c ∈ body, c ∈ ['+', '-', '<', '>']) : ∀ t ∈ Program.tokenize body, t.isQuiet = true := by
  intro t ht
  obtain ⟨c, hc, rfl⟩ := List.mem_map.mp ht
  have hcommand := hbody c hc
  simp only [List.mem_cons, List.not_mem_nil, or_false] at hcommand
  rcases hcommand with rfl | rfl | rfl | rfl <;> rfl

/-- A text without brackets between two brackets reads as one loop. -/
theorem read_tokenize_loop (hbody : ∀ c ∈ body, c ∈ ['+', '-', '<', '>']) :
    Block.read (Program.tokenize ('[' :: body ++ [']'])) =
      some [.loop (Block.prepend (Program.tokenize body) .done) .done] := by
  have hquiet := isQuiet_of_mem_tokenize hbody
  have hinner : Block.read (Program.tokenize body ++ Program.tokenize [']']) =
      some [Block.prepend (Program.tokenize body) .done, .done] := by
    rw [Block.read_append fun t ht => Token.isLoop_of_isQuiet (hquiet t ht)]
    rfl
  rw [Program.tokenize_append, Program.tokenize, List.map_cons, List.cons_append, ← Program.tokenize, Block.read_cons, hinner]
  rfl

/-- A run of a balanced source stops exactly if it ends, well or with a failure. -/
theorem exists_runSource_iff {source : List Char} (h : Source.Balanced source) :
    (∃ steps ended, m.runSource steps options source = some ended) ↔ ∃ m' o, m.SourceEnds options source m' o := by
  constructor
  · rintro ⟨steps, ⟨m', result⟩, hrun⟩
    rcases result with (loop | cause) | count
    · exact absurd hrun (Machine.runSource_ne_unmatched h)
    · exact ⟨m', .failed cause, steps, hrun⟩
    · exact ⟨m', .finished, steps, count, hrun⟩
  · rintro ⟨m', _ | cause, hends⟩
    · obtain ⟨steps, count, hrun⟩ := hends
      exact ⟨steps, _, hrun⟩
    · obtain ⟨steps, hrun⟩ := hends
      exact ⟨steps, _, hrun⟩

/-- Linear loops compute exactly. Let the body of a loop only add and move, and come back to the cell where it began on the tape that it
runs on. Then, under all settings, the loop stops exactly if for some number of rounds the byte under the cursor and the gain of these
rounds at the cursor are zero modulo 256. For the least such number the run ends well, with the gain of so many rounds added to each
cell modulo 256 and the cursor, the length and the streams as they were. -/
theorem runSource_linear_loop (hbody : ∀ c ∈ body, c ∈ ['+', '-', '<', '>']) (hm : m.tape.InRange)
    (hback : Source.displacement body % m.tape.length = 0) (options : Program.Options) :
    let source := '[' :: body ++ [']']
    let rounds := {k : Nat | ((m.tape.cell.toNat : Int) + k * Source.gain m.tape.length body 0) % 256 = 0}
    ((∃ steps ended, m.runSource steps options source = some ended) ↔ ∃ k, k ∈ rounds) ∧
      ∀ k, IsLeast rounds k → ∃ steps count tape, m.runSource steps options source = some ({ m with tape := tape }, .ok count) ∧
        tape.length = m.tape.length ∧ tape.cursor = m.tape.cursor ∧
        ∀ place : Int, 0 ≤ place → place < m.tape.length →
          ((tape.byteAt (m.tape.cursor + place)).toNat : Int) =
            ((m.tape.byteAt (m.tape.cursor + place)).toNat + k * Source.gain m.tape.length body place) % 256 := by
  intro source rounds
  have hread := read_tokenize_loop hbody
  have hbalanced : Source.Balanced source := balanced_tokenize_iff.mp (Block.balanced_iff_read.mpr ⟨_, hread⟩)
  have hrounds : rounds = {k | ((Tape.afterAll (Program.tokenize body))^[k] m.tape).cell = 0} := by
    ext k
    exact (Tape.cell_iterate_eq_zero_iff hbody hm hback k).symm
  have hends : ∀ m' o, m.SourceEnds options source m' o ↔ ∃ k, IsLeast rounds k ∧
      m' = { m with tape := (Tape.afterAll (Program.tokenize body))^[k] m.tape } ∧ o = .finished := by
    intro m' o
    rw [Machine.sourceEnds_iff_shows hread hm, Block.shows_loop_prepend_iff (isQuiet_of_mem_tokenize hbody) hm, hrounds]
  refine ⟨?_, ?_⟩
  · rw [exists_runSource_iff hbalanced]
    constructor
    · rintro ⟨m', o, h⟩
      obtain ⟨k, hleast, -, -⟩ := (hends m' o).mp h
      exact ⟨k, hleast.1⟩
    · rintro ⟨k, hk⟩
      have hexists : ∃ k, k ∈ rounds := ⟨k, hk⟩
      exact ⟨_, _, (hends _ _).mpr ⟨Nat.find hexists, ⟨Nat.find_spec hexists, fun j hj => Nat.find_min' hexists hj⟩, rfl, rfl⟩⟩
  · intro k hleast
    obtain ⟨steps, count, hrun⟩ := (hends _ _).mpr ⟨k, hleast, rfl, rfl⟩
    have hgains := Tape.gains_iterate hbody hm hback k
    refine ⟨steps, count, _, hrun, hgains.length, ?_, ?_⟩
    · rw [hgains.cursor, Int.add_zero, Int.emod_eq_of_lt hm.1 hm.2]
    · intro place _ _
      exact hgains.bytes place

/-- On three cells the loop `[->>+>]` takes what is in the first to the last, which its body comes to at a displacement of two, and stops
after two rounds. The loop `[++]` never stops on an odd byte. -/
theorem runSource_linear_loop_wraps :
    let m : Machine := ⟨3, ⟨#[2, 5, 7], 0⟩, {}, {}⟩
    let odd : Machine := ⟨1, ⟨#[1], 0⟩, {}, {}⟩
    (m.tape.InRange ∧ Source.displacement ['-', '>', '>', '+', '>'] % 3 = 0) ∧
      (∃ steps count tape, m.runSource steps {} ['[', '-', '>', '>', '+', '>', ']'] = some ({ m with tape := tape }, .ok count) ∧
        tape.cursor = 0 ∧ tape.byteAt 0 = 0 ∧ tape.byteAt 1 = 5 ∧ tape.byteAt 2 = 9) ∧
      odd.tape.InRange ∧ ¬ ∃ steps ended, odd.runSource steps {} ['[', '+', '+', ']'] = some ended := by
  intro m odd
  have hm : m.tape.InRange := by decide
  have hodd : odd.tape.InRange := by decide
  have hback : Source.displacement ['-', '>', '>', '+', '>'] % 3 = 0 := rfl
  refine ⟨⟨hm, hback⟩, ?_, hodd, ?_⟩
  · obtain ⟨-, hends⟩ := @runSource_linear_loop ['-', '>', '>', '+', '>'] m (by simp) hm hback {}
    have hrounds : IsLeast {k : Nat | (((2 : Nat) : Int) + k * -1) % 256 = 0} 2 := by
      refine ⟨rfl, ?_⟩
      intro j hj
      have hj : (((2 : Nat) : Int) + j * -1) % 256 = 0 := hj
      omega
    obtain ⟨steps, count, tape, hrun, -, hcursor, hbytes⟩ := hends 2 hrounds
    refine ⟨steps, count, tape, hrun, hcursor, ?_, ?_, ?_⟩
    · exact UInt8.toNat_inj.mp (Int.natCast_inj.mp (hbytes 0 (by decide) (by decide)))
    · exact UInt8.toNat_inj.mp (Int.natCast_inj.mp (hbytes 1 (by decide) (by decide)))
    · exact UInt8.toNat_inj.mp (Int.natCast_inj.mp (hbytes 2 (by decide) (by decide)))
  · intro hstops
    obtain ⟨k, hk⟩ := (@runSource_linear_loop ['+', '+'] odd (by simp) hodd rfl {}).1.mp hstops
    have hk : (((1 : Nat) : Int) + k * 2) % 256 = 0 := hk
    omega

end LinearLoop

end Brainfuck
