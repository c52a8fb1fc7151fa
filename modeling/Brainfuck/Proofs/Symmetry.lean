import Brainfuck.Proofs.Lockstep
import Brainfuck.Proofs.Options
import Mathlib.Data.Int.ModEq

/-!
# The symmetries of the ring

The tape has no first cell and no preferred direction. A program does on a rotated tape what it does on the tape, and with its moves
turned round it does so on the reflected tape (`ring_symmetric`). Both maps put a cell in another place of the ring, a rotation by an
offset and the reflection by a change of sign (`Tape.relabel`); a move by some number of cells becomes a move by the number with that
sign. In a source, moves are turned round by swapping two characters, and no step of compiling treats these differently.
-/

namespace Brainfuck

/-! ## Tapes with the cells in other places -/

namespace Tape

variable {t : Tape} {sign offset : Int}

/-- The place of the ring that a place comes to. -/
def relocate (sign offset : Int) (length : Nat) (place : Int) : Int := (sign * place + offset) % length

/-- The place of the ring that comes to a place. -/
def origin (sign offset : Int) (length : Nat) (place : Int) : Int := (sign * (place - offset)) % length

/-- The tape with each cell in another place, and the cursor with its cell. -/
def relabel (sign offset : Int) (t : Tape) : Tape where
  cells := Array.ofFn fun place : Fin t.length => t.cells.getD (origin sign offset t.length place).toNat 0
  cursor := relocate sign offset t.length t.cursor

/-- One tape has the cells of another in the places that a map gives them, round the ring, and the cursor with its cell. -/
structure Rearranges (f : Int → Int) (t t' : Tape) : Prop where
  length : t'.length = t.length
  cursor : t'.cursor = f t.cursor % t.length
  cells : ∀ place : Nat, place < t.length → t'.cells[(f place % t.length).toNat]? = t.cells[place]?

/-- The tape rotated by a number of cells. -/
def rotate (offset : Int) : Tape → Tape := relabel 1 offset

/-- The tape reflected in its first cell. -/
def reflect : Tape → Tape := relabel (-1) 0

@[simp] theorem length_relabel : (t.relabel sign offset).length = t.length := Array.size_ofFn

section Places

variable {length : Nat} {place : Int}

theorem emod_inRange (a : Int) (hlength : 0 < length) : 0 ≤ a % length ∧ a % length < length := by
  have hpos : (0 : Int) < length := by omega
  exact ⟨Int.emod_nonneg a (Int.ne_of_gt hpos), Int.emod_lt_of_pos a hpos⟩

theorem relocate_inRange (hlength : 0 < length) :
    0 ≤ relocate sign offset length place ∧ relocate sign offset length place < length := emod_inRange _ hlength

theorem origin_inRange (hlength : 0 < length) :
    0 ≤ origin sign offset length place ∧ origin sign offset length place < length := emod_inRange _ hlength

theorem origin_relocate (hsign : sign * sign = 1) (h : 0 ≤ place) (h' : place < length) :
    origin sign offset length (relocate sign offset length place) = place := by
  have hback : sign * (relocate sign offset length place - offset) ≡ sign * (sign * place + offset - offset) [ZMOD length] :=
    ((Int.mod_modEq _ _).sub_right offset).mul_left sign
  have hundo : sign * (sign * place + offset - offset) = place := by
    rw [Int.add_sub_cancel, ← Int.mul_assoc, hsign, Int.one_mul]
  rw [hundo] at hback
  exact Eq.trans hback (Int.emod_eq_of_lt h h')

theorem relocate_origin (hsign : sign * sign = 1) (h : 0 ≤ place) (h' : place < length) :
    relocate sign offset length (origin sign offset length place) = place := by
  have hback : sign * origin sign offset length place + offset ≡ sign * (sign * (place - offset)) + offset [ZMOD length] :=
    ((Int.mod_modEq _ _).mul_left sign).add_right offset
  have hundo : sign * (sign * (place - offset)) + offset = place := by
    rw [← Int.mul_assoc, hsign, Int.one_mul, Int.sub_add_cancel]
  rw [hundo] at hback
  exact Eq.trans hback (Int.emod_eq_of_lt h h')

/-- One place comes to another exactly if the other comes from the one. -/
theorem relocate_eq_iff {place' : Int} (hsign : sign * sign = 1) (h : 0 ≤ place) (hlt : place < length) (h' : 0 ≤ place')
    (hlt' : place' < length) : relocate sign offset length place = place' ↔ place = origin sign offset length place' := by
  constructor
  · rintro rfl
    exact (origin_relocate hsign h hlt).symm
  · rintro rfl
    exact relocate_origin hsign h' hlt'

/-- Moving before the places are changed comes to moving behind it, with the sign. -/
theorem relocate_add (shift : Int) :
    relocate sign offset length ((place + shift) % length) = (relocate sign offset length place + sign * shift) % length := by
  have hleft : sign * ((place + shift) % length) + offset ≡ sign * (place + shift) + offset [ZMOD length] :=
    ((Int.mod_modEq _ _).mul_left sign).add_right offset
  have hright : relocate sign offset length place + sign * shift ≡ sign * place + offset + sign * shift [ZMOD length] :=
    (Int.mod_modEq _ _).add_right _
  have hsame : sign * (place + shift) + offset = sign * place + offset + sign * shift := by
    rw [Int.mul_add]
    omega
  rw [hsame] at hleft
  exact hleft.trans hright.symm

end Places

/-- In a place is what was in the place that came to it. -/
theorem getElem?_relabel_origin {place : Nat} (h : place < t.length) :
    (t.relabel sign offset).cells[place]? = t.cells[(origin sign offset t.length place).toNat]? := by
  have horigin := @origin_inRange sign offset t.length place (by omega)
  have hsize : (origin sign offset t.length place).toNat < t.cells.size := by
    rw [show t.cells.size = t.length from rfl]
    omega
  rw [relabel, Array.getElem?_ofFn, dif_pos h]
  simp [Array.getD, hsize]

/-- What is in a cell is in the place that the cell comes to. -/
theorem getElem?_relabel (hsign : sign * sign = 1) {place : Nat} (h : place < t.length) :
    (t.relabel sign offset).cells[(relocate sign offset t.length place).toNat]? = t.cells[place]? := by
  obtain ⟨hnonneg, hlt⟩ := @relocate_inRange sign offset t.length place (by omega)
  rw [getElem?_relabel_origin (by omega), Int.toNat_of_nonneg hnonneg, origin_relocate hsign (by omega) (by omega),
    Int.toNat_natCast]

theorem rearranges_relabel (hsign : sign * sign = 1) (t : Tape) :
    t.Rearranges (fun place => sign * place + offset) (t.relabel sign offset) where
  length := length_relabel
  cursor := rfl
  cells _ h := getElem?_relabel hsign h

/-- A rotation puts each cell so many cells further on. -/
theorem rearranges_rotate (t : Tape) (offset : Int) : t.Rearranges (· + offset) (t.rotate offset) := by
  have h := @rearranges_relabel 1 offset rfl t
  simp only [Int.one_mul] at h
  exact h

/-- The reflection puts each cell as many cells before the first as it was behind it. -/
theorem rearranges_reflect (t : Tape) : t.Rearranges (- ·) t.reflect := by
  have h := @rearranges_relabel (-1) 0 rfl t
  simp only [Int.neg_one_mul, Int.add_zero] at h
  exact h

/-- A byte that is written is in the cell under the cursor, and in the others is what was there. -/
theorem InRange.getElem?_write (h : t.InRange) (b : UInt8) (place : Nat) :
    (t.write b).cells[place]? = if t.cursor = place then some b else t.cells[place]? := by
  have hlt : t.cursor.toNat < t.cells.size := h.slot_cursor ▸ t.slot_lt h.onCell
  have hcursor : t.cursor = place ↔ t.cursor.toNat = place := by
    have hnonneg := h.1
    omega
  rw [Tape.write, h.slot_cursor, Array.getElem?_setIfInBounds, if_pos hlt]
  simp only [hcursor]

theorem InRange.relabel (h : t.InRange) (sign offset : Int) : (t.relabel sign offset).InRange := by
  have hrange := @relocate_inRange sign offset t.length t.cursor h.length_pos
  refine ⟨hrange.1, ?_⟩
  rw [length_relabel]
  exact hrange.2

/-- Writing before the places are changed comes to writing behind it. -/
theorem relabel_write (hsign : sign * sign = 1) (h : t.InRange) (b : UInt8) :
    (t.write b).relabel sign offset = (t.relabel sign offset).write b := by
  have hcells : ((t.write b).relabel sign offset).cells = ((t.relabel sign offset).write b).cells := by
    apply Array.ext
    · exact length_relabel.trans ((length_write t b).trans ((length_write _ b).trans length_relabel).symm)
    · intro place hplace hplace'
      have hlt : place < t.length := Nat.lt_of_lt_of_eq hplace (length_relabel.trans (length_write t b))
      have hwhere : (t.relabel sign offset).cursor = place ↔ t.cursor = (origin sign offset t.length place).toNat := by
        rw [Int.toNat_of_nonneg (origin_inRange h.length_pos).1]
        exact relocate_eq_iff hsign h.1 h.2 (by omega) (by omega)
      rw [← Option.some.injEq, ← Array.getElem?_eq_getElem, ← Array.getElem?_eq_getElem,
        getElem?_relabel_origin (by rw [length_write]; exact hlt), length_write, h.getElem?_write,
        (h.relabel sign offset).getElem?_write, getElem?_relabel_origin hlt]
      simp only [hwhere]
  have hcursor : ((t.write b).relabel sign offset).cursor = ((t.relabel sign offset).write b).cursor := by
    rw [cursor_write, relabel, relabel, length_write, cursor_write]
  exact congrArg₂ Tape.mk hcells hcursor

/-- A tape is carried over to the tape with its cells in other places. -/
theorem carriedBy_relabel (hsign : sign * sign = 1) (h : t.InRange) : t.CarriedBy (relabel sign offset) where
  inRange := h.relabel sign offset
  cell := by
    have hlt : t.cursor.toNat < t.length := h.slot_cursor ▸ t.slot_lt h.onCell
    have hsame := @getElem?_relabel t sign offset hsign _ hlt
    rw [Int.toNat_of_nonneg h.1, h.getElem?_cursor] at hsame
    exact Option.some.inj ((h.relabel sign offset).getElem?_cursor.symm.trans hsame)
  write := relabel_write hsign h

/-- A move is carried over to the move with the sign. -/
theorem relabel_move (shift : Int) : (t.move shift).relabel sign offset = (t.relabel sign offset).move (sign * shift) := by
  have hcursor := @relocate_add sign offset t.length t.cursor shift
  rw [move, move, length_relabel]
  exact congrArg (Tape.mk (t.relabel sign offset).cells) hcursor

end Tape

/-! ## Turning moves round -/

/-- A token with its moves turned round. -/
def Token.mirror : Token → Token
  | .moveLeft count => .moveRight count
  | .moveRight count => .moveLeft count
  | t => t

/-- A character with the two commands that move swapped. -/
def Source.mirror : Char → Char
  | '<' => '>'
  | '>' => '<'
  | c => c

namespace Token

variable {t : Token}

theorem delta?_mirror (t : Token) : t.mirror.delta? = t.delta? := by
  cases t <;> rfl

theorem shift?_mirror (t : Token) : t.mirror.shift? = t.shift?.map (- ·) := by
  cases t <;> simp [mirror, shift?]

theorem mirror_of_shift?_eq_none (h : t.shift? = none) : t.mirror = t := by
  cases t with
  | moveLeft | moveRight => cases h
  | _ => rfl

/-- Pairing does not look at moves. -/
theorem keepsLoops_mirror : KeepsLoops mirror where
  opens _ := ⟨_, rfl⟩
  closes _ := ⟨_, rfl⟩
  other t ht := by cases t <;> first | rfl | exact ht
  aim index t := by cases t <;> rfl

end Token

/-! ## Runs -/

namespace Machine

/-- The machine with its tape rotated by a number of cells. -/
def rotate (offset : Int) : Machine → Machine := refit id (Tape.rotate offset)

/-- The machine with its tape reflected. -/
def reflect : Machine → Machine := refit id Tape.reflect

/-- A program does to a tape with its cells in other places what it does to the tape, if its moves are taken with the sign. -/
theorem sameThrough_relabel {sign offset : Int} {g : Token → Token} (hsign : sign * sign = 1)
    (hstill : ∀ t : Token, t.shift? = none → g t = t)
    (hmove : ∀ (t : Token) s, t.shift? = some s → (g t).shift? = some (sign * s)) (tokens : List Token) {m : Machine} (hm : m.tape.InRange) :
    m.SameThrough (refit id (Tape.relabel sign offset)) tokens (tokens.map g) := by
  refine sameThrough_of_inStep ?_
  intro n p hp
  refine Point.inStep_of_exec ?_
  intro t _
  have hin : p.machine.tape.InRange := @Point.inRange_of_after? _ _ ⟨m, 0⟩ _ hm hp
  refine exec_refit hin (Tape.carriedBy_relabel hsign hin) (hstill t) ?_ p.index
  intro s hs
  exact ⟨sign * s, hmove t s hs, Tape.relabel_move s⟩

theorem sameThrough_rotate (offset : Int) (tokens : List Token) {m : Machine} (hm : m.tape.InRange) :
    m.SameThrough (rotate offset) tokens tokens := by
  have h := @sameThrough_relabel 1 offset id rfl (fun _ _ => rfl) (fun t s hs => by rw [Int.one_mul]; exact hs) tokens m hm
  rw [List.map_id] at h
  exact h

theorem sameThrough_reflect (tokens : List Token) {m : Machine} (hm : m.tape.InRange) :
    m.SameThrough reflect tokens (tokens.map Token.mirror) := by
  refine sameThrough_relabel rfl (fun _ => Token.mirror_of_shift?_eq_none) ?_ tokens hm
  intro t s hs
  rw [Token.shift?_mirror, hs, Option.map_some, Int.neg_one_mul]

end Machine

/-! ## Compiling -/

namespace Source

theorem mirror_mirror (c : Char) : mirror (mirror c) = c := by
  unfold mirror
  grind

theorem isCommand_mirror (c : Char) : isCommand (mirror c) = isCommand c := by
  unfold mirror
  split <;> rfl

theorem inverse?_mirror (c : Char) : inverse? (mirror c) = (inverse? c).map mirror := by
  unfold inverse? mirror
  grind

theorem stripComments_map_mirror (source : List Char) :
    stripComments (source.map mirror) = (stripComments source).map mirror := by
  rw [stripComments, stripComments, List.filter_map]
  simp only [Function.comp_def, isCommand_mirror]

theorem settle_map_mirror (kept : List Char) (c : Char) :
    settle (kept.map mirror) (mirror c) = (settle kept c).map mirror := by
  cases kept with
  | nil => rfl
  | cons last rest =>
    have hsame : inverse? (mirror c) = some (mirror last) ↔ inverse? c = some last := by
      rw [inverse?_mirror]
      exact (Option.map_injective (Function.LeftInverse.injective mirror_mirror)).eq_iff (b := some last)
    rw [List.map_cons, settle, settle]
    simp only [hsame]
    split <;> rfl

theorem cancelPairs_map_mirror (source : List Char) : cancelPairs (source.map mirror) = (cancelPairs source).map mirror := by
  have hfold : ∀ kept : List Char, (source.map mirror).foldl settle (kept.map mirror) = (source.foldl settle kept).map mirror := by
    induction source with
    | nil => exact fun _ => rfl
    | cons c source ih =>
      intro kept
      rw [List.map_cons, List.foldl_cons, settle_map_mirror, ih, List.foldl_cons]
  rw [cancelPairs, cancelPairs, List.map_reverse]
  exact congrArg List.reverse (hfold [])

theorem optimize_map_mirror (source : List Char) : optimize (source.map mirror) = (optimize source).map mirror := by
  rw [optimize, stripComments_map_mirror, cancelPairs_map_mirror, ← optimize]

end Source

namespace Program

theorem ofChar_mirror (c : Char) : Token.ofChar (Source.mirror c) = (Token.ofChar c).mirror := by
  unfold Source.mirror
  split
  · rfl
  · rfl
  · rename_i hleft hright
    unfold Token.ofChar
    split <;> first | rfl | exact absurd rfl hleft | exact absurd rfl hright

theorem tokenize_map_mirror (source : List Char) :
    tokenize (source.map Source.mirror) = (tokenize source).map Token.mirror := by
  rw [tokenize, tokenize, List.map_map, List.map_map]
  exact List.map_congr_left fun c _ => ofChar_mirror c

theorem map_mirror_arithmetic (delta : Int) : (arithmetic delta).map Token.mirror = arithmetic delta := by
  unfold arithmetic
  split
  · rfl
  · split <;> rfl

theorem map_mirror_move (shift : Int) : (move shift).map Token.mirror = move (-shift) := by
  unfold move
  grind [Token.mirror]

/-- The sum of moves that are turned round is the sum of the moves, turned round. -/
theorem compressFrom_map_mirror (delta shift : Int) (ts : List Token) :
    compressFrom delta (-shift) (ts.map Token.mirror) = (compressFrom delta shift ts).map Token.mirror := by
  induction ts generalizing delta shift with
  | nil => rw [compressFrom, List.map_append, map_mirror_arithmetic, map_mirror_move, List.map_nil, compressFrom]
  | cons t ts ih =>
    rw [List.map_cons, compressFrom, compressFrom, Token.delta?_mirror, Token.shift?_mirror]
    cases t.delta? with
    | some d => simp only [List.map_append, map_mirror_move, ← ih, Int.neg_zero]
    | none =>
      cases t.shift? with
      | some s => simp only [Option.map_some, List.map_append, map_mirror_arithmetic, ← ih, Int.neg_add]
      | none =>
        simp only [Option.map_none, List.map_append, List.map_cons, map_mirror_arithmetic, map_mirror_move, ← ih, Int.neg_zero]

theorem compress_map_mirror (ts : List Token) : compress (ts.map Token.mirror) = (compress ts).map Token.mirror :=
  compressFrom_map_mirror 0 0 ts

theorem compile_map_mirror (options : Options) (source : List Char) :
    compile options (source.map Source.mirror) = (compile options source).map (List.map Token.mirror) := by
  have hunpaired : unpaired options (source.map Source.mirror) = (unpaired options source).map Token.mirror := by
    obtain ⟨optimize, compress⟩ := options
    cases optimize <;> cases compress <;>
      simp only [unpaired, Source.optimize_map_mirror, tokenize_map_mirror, compress_map_mirror, if_true, Bool.false_eq_true, if_false]
  rw [compile_eq_resolve, compile_eq_resolve, hunpaired, resolve_map Token.keepsLoops_mirror]

end Program

/-- The tape is a ring without a first cell and without a direction. On a machine in use any list of tokens, whatever its counts and
targets, does with the tape rotated what it does with the tape, and with its moves turned round and the tape reflected it does so too:
the runs have the same points and the same end, with the same streams, and with the tape of the one rotated or reflected. Swapping the
two commands that move in a source turns the moves of its program round, under all settings. -/
theorem ring_symmetric :
    (∀ (tokens : List Token) (m : Machine), m.tape.InRange →
      (∀ offset : Int, m.SameThrough (Machine.rotate offset) tokens tokens) ∧
        m.SameThrough Machine.reflect tokens (tokens.map Token.mirror)) ∧
    (∀ t : Tape, (∀ offset : Int, t.Rearranges (· + offset) (t.rotate offset)) ∧ t.Rearranges (- ·) t.reflect) ∧
    ∀ options source, Program.compile options (source.map Source.mirror) =
      (Program.compile options source).map (List.map Token.mirror) := by
  refine ⟨?_, ?_, Program.compile_map_mirror⟩
  · intro tokens m hm
    exact ⟨fun offset => Machine.sameThrough_rotate offset tokens hm, Machine.sameThrough_reflect tokens hm⟩
  · intro t
    exact ⟨t.rearranges_rotate, t.rearranges_reflect⟩

/-- On a tape of three cells, moves by seven and by five go round it more than once, in either direction. -/
theorem ring_symmetric_seven :
    let tokens : List Token := [.moveRight (.nat 7), .output .null, .moveLeft (.nat 5), .increment (.nat 300), .output .null]
    let m : Machine := ⟨3, ⟨#[1, 2, 3], 1⟩, {}, {}⟩
    let r : Machine := ⟨3, ⟨#[45, 2, 3], 0⟩, {}, ⟨#[3, 45], none⟩⟩
    m.tape.InRange ∧ m.run 6 tokens = some (r, .finished) ∧ (m.rotate 2).run 6 tokens = some (r.rotate 2, .finished) ∧
      m.reflect.run 6 (tokens.map Token.mirror) = some (r.reflect, .finished) := by
  intro tokens m r
  have hm : m.tape.InRange := by decide
  have hrun : m.run 6 tokens = some (r, .finished) := by decide +kernel
  obtain ⟨hrotate, hreflect⟩ := ring_symmetric.1 tokens m hm
  refine ⟨hm, hrun, ?_, ?_⟩
  · rw [(hrotate 2).2, hrun]
    rfl
  · rw [hreflect.2, hrun]
    rfl

end Brainfuck
