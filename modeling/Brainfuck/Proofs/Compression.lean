import Brainfuck.Proofs.Rewriting

/-!
# Merging runs

Merging the runs of a program gives the same program to an observer, whatever its counts and targets are
(`Program.same_compress`). The proof walks over the tokens with the run that is pending, which adds to the cell or moves the
cursor but never does both: what is pending stands in front of the tokens to come, and each token joins it or lets it out.
-/

namespace Brainfuck

/-! ## Adding and moving more than once -/

namespace Tape

theorem write_write (t : Tape) (a b : UInt8) : (t.write a).write b = t.write b := by
  simp [write, slot, Tape.length]

theorem write_cell (t : Tape) : t.write t.cell = t := by
  have h : t.cells.setIfInBounds (t.slot t.cursor) (t.cells.getD (t.slot t.cursor) 0) = t.cells := by
    by_cases hslot : t.slot t.cursor < t.cells.size
    · simp [Array.setIfInBounds, Array.getD, hslot]
    · simp [Array.setIfInBounds, hslot]
  rw [write, cell, h]

/-- A byte that is taken modulo 256 is itself. -/
theorem ofNat_emod_toNat (b : UInt8) : UInt8.ofNat ((b.toNat : Int) % 256).toNat = b := by
  have hb : b.toNat < 256 := b.toNat_lt
  have h : ((b.toNat : Int) % 256).toNat = b.toNat := by omega
  rw [h, UInt8.ofNat_toNat]

theorem add_zero (t : Tape) : t.add 0 = t := by
  rw [add, Int.add_zero, ofNat_emod_toNat, write_cell]

theorem add_add {t : Tape} (h : t.onCell = true) (a b : Int) : (t.add a).add b = t.add (a + b) := by
  rw [add, toNat_cell_add h, Int.emod_add_emod, Int.add_assoc, add, write_write, add]

theorem move_zero {t : Tape} (h : t.InRange) : t.move 0 = t := by
  have : (t.cursor + 0) % t.length = t.cursor := by
    rw [Int.add_zero]
    exact Int.emod_eq_of_lt h.1 h.2
  rw [move, this]

theorem move_move (t : Tape) (a b : Int) : (t.move a).move b = t.move (a + b) := by
  simp only [move, Tape.length]
  rw [Int.emod_add_emod, Int.add_assoc]

end Tape

/-! ## What merged tokens do -/

theorem Token.isQuiet_of_delta? {t : Token} {d : Int} (h : t.delta? = some d) :
    t.isQuiet = true ∧ ∀ tape : Tape, tape.after t = tape.add d := by
  cases t <;> simp only [Token.delta?, Option.some.injEq, reduceCtorEq] at h <;> subst h <;> exact ⟨rfl, fun _ => rfl⟩

theorem Token.isQuiet_of_shift? {t : Token} {s : Int} (h : t.shift? = some s) :
    t.isQuiet = true ∧ ∀ tape : Tape, tape.after t = tape.move s := by
  cases t <;> simp only [Token.shift?, Option.some.injEq, reduceCtorEq] at h <;> subst h <;> exact ⟨rfl, fun _ => rfl⟩

namespace Program

theorem isQuiet_of_mem_arithmetic {delta : Int} {t : Token} (h : t ∈ arithmetic delta) : t.isQuiet = true := by
  unfold arithmetic at h
  split at h
  · simp_all [Token.isQuiet]
  · split at h <;> simp_all [Token.isQuiet]

theorem isQuiet_of_mem_move {shift : Int} {t : Token} (h : t ∈ move shift) : t.isQuiet = true := by
  unfold move at h
  split at h
  · simp_all [Token.isQuiet]
  · split at h <;> simp_all [Token.isQuiet]

/-- The token of a sum adds it, and the token that is missing for zero would add nothing. -/
theorem foldl_after_arithmetic (delta : Int) (tape : Tape) : (arithmetic delta).foldl Tape.after tape = tape.add delta := by
  unfold arithmetic
  split
  · have h : (delta.toNat : Int) = delta := by omega
    simp only [List.foldl_cons, List.foldl_nil, Tape.after, Numeral.toNat, h]
  · split
    · have h : -((-delta).toNat : Int) = delta := by omega
      simp only [List.foldl_cons, List.foldl_nil, Tape.after, Numeral.toNat, h]
    · obtain rfl : delta = 0 := by omega
      rw [List.foldl_nil, Tape.add_zero]

/-- The token of a distance moves by it, and the token that is missing for zero would not move. -/
theorem foldl_after_move (shift : Int) {tape : Tape} (htape : tape.InRange) :
    (move shift).foldl Tape.after tape = tape.move shift := by
  unfold move
  split
  · have h : (shift.toNat : Int) = shift := by omega
    simp only [List.foldl_cons, List.foldl_nil, Tape.after, Numeral.toNat, h]
  · split
    · have h : -((-shift).toNat : Int) = shift := by omega
      simp only [List.foldl_cons, List.foldl_nil, Tape.after, Numeral.toNat, h]
    · obtain rfl : shift = 0 := by omega
      rw [List.foldl_nil, Tape.move_zero htape]

/-! ## Merging -/

/-- A token of arithmetic joins the sum that is pending, behind the moves that are pending. Only one of the two is not zero, so
the order in which they are let out does not matter. -/
theorem same_of_delta? {delta shift d : Int} {t : Token} (ht : t.delta? = some d) (hpending : delta = 0 ∨ shift = 0)
    (ts : List Token) :
    Same (arithmetic delta ++ (move shift ++ t :: ts)) (move shift ++ (arithmetic (delta + d) ++ ts)) := by
  obtain ⟨hquiet, hafter⟩ := Token.isQuiet_of_delta? ht
  have h := @Same.replace (arithmetic delta ++ move shift ++ [t]) (move shift ++ arithmetic (delta + d)) ts ?_ ?_ ?_
  · simpa only [List.append_assoc, List.singleton_append] using h
  · simp only [List.mem_append, List.mem_singleton]
    rintro u ((hu | hu) | rfl)
    · exact isQuiet_of_mem_arithmetic hu
    · exact isQuiet_of_mem_move hu
    · exact hquiet
  · simp only [List.mem_append]
    rintro u (hu | hu)
    · exact isQuiet_of_mem_move hu
    · exact isQuiet_of_mem_arithmetic hu
  · intro tape htape
    simp only [List.foldl_append, List.foldl_cons, List.foldl_nil, foldl_after_arithmetic, hafter]
    rw [foldl_after_move shift (htape.add delta), foldl_after_move shift htape]
    rcases hpending with rfl | rfl
    · rw [Tape.add_zero, Int.zero_add]
    · rw [Tape.move_zero (htape.add delta), Tape.move_zero htape, Tape.add_add htape.onCell]

/-- A move joins the moves that are pending. -/
theorem same_of_shift? {shift s : Int} {t : Token} (ht : t.shift? = some s) (ts : List Token) :
    Same (move shift ++ t :: ts) (move (shift + s) ++ ts) := by
  obtain ⟨hquiet, hafter⟩ := Token.isQuiet_of_shift? ht
  have h := @Same.replace (move shift ++ [t]) (move (shift + s)) ts ?_ ?_ ?_
  · simpa only [List.append_assoc, List.singleton_append] using h
  · simp only [List.mem_append, List.mem_singleton]
    rintro u (hu | rfl)
    · exact isQuiet_of_mem_move hu
    · exact hquiet
  · exact fun u hu => isQuiet_of_mem_move hu
  · intro tape htape
    simp only [List.foldl_append, List.foldl_cons, List.foldl_nil, hafter]
    rw [foldl_after_move shift htape, foldl_after_move (shift + s) htape, Tape.move_move]

/-- Merging the tokens behind a run that is pending gives the same program as letting the run out in front of them. -/
theorem same_compressFrom {delta shift : Int} (hpending : delta = 0 ∨ shift = 0) (ts : List Token) :
    Same (arithmetic delta ++ (move shift ++ ts)) (compressFrom delta shift ts) := by
  induction ts generalizing delta shift with
  | nil =>
    rw [List.append_nil, compressFrom]
    exact .refl _
  | cons t ts ih =>
    rw [compressFrom]
    cases hdelta : t.delta? with
    | some d => exact (same_of_delta? hdelta hpending ts).trans ((ih (Or.inr rfl)).append_left (move shift))
    | none =>
      cases hshift : t.shift? with
      | some s => exact ((same_of_shift? hshift ts).trans (ih (Or.inl rfl))).append_left (arithmetic delta)
      | none =>
        have h : Same ts (compressFrom 0 0 ts) := @ih 0 0 (Or.inl rfl)
        simp only [List.append_assoc]
        exact ((h.cons t).append_left (move shift)).append_left (arithmetic delta)

/-- A program with its runs merged is the same program to an observer. -/
theorem same_compress (ts : List Token) : Same ts (compress ts) :=
  @same_compressFrom 0 0 (Or.inl rfl) ts

/-! ## What merging does not reach across -/

/-- The tokens before and behind one that neither adds nor moves are merged apart. -/
theorem compressFrom_append_cons {t : Token} (hdelta : t.delta? = none) (hshift : t.shift? = none) (delta shift : Int)
    (ts us : List Token) : compressFrom delta shift (ts ++ t :: us) = compressFrom delta shift ts ++ t :: compress us := by
  induction ts generalizing delta shift with
  | nil => simp only [List.nil_append, compressFrom, hdelta, hshift, compress]
  | cons u ts ih =>
    rw [List.cons_append, compressFrom, compressFrom]
    cases u.delta? with
    | some d => simp only [ih, List.append_assoc]
    | none =>
      cases u.shift? with
      | some s => simp only [ih, List.append_assoc]
      | none => simp only [ih, List.append_assoc, List.cons_append]

theorem compress_append_cons {t : Token} (hdelta : t.delta? = none) (hshift : t.shift? = none) (ts us : List Token) :
    compress (ts ++ t :: us) = compress ts ++ t :: compress us :=
  compressFrom_append_cons hdelta hshift 0 0 ts us

/-- Merging keeps the loop tokens. -/
theorem filter_isLoop_compressFrom (delta shift : Int) (ts : List Token) :
    (compressFrom delta shift ts).filter Token.isLoop = ts.filter Token.isLoop := by
  have hquiet : ∀ {us : List Token}, (∀ u ∈ us, u.isQuiet = true) → us.filter Token.isLoop = [] := by
    intro us hus
    rw [List.filter_eq_nil_iff]
    intro u hu
    rw [Token.isLoop_of_isQuiet (hus u hu)]
    exact Bool.false_ne_true
  have harithmetic := fun d => hquiet fun u (hu : u ∈ arithmetic d) => isQuiet_of_mem_arithmetic hu
  have hmove := fun s => hquiet fun u (hu : u ∈ move s) => isQuiet_of_mem_move hu
  induction ts generalizing delta shift with
  | nil => rw [compressFrom, List.filter_append, harithmetic, hmove, List.nil_append, List.filter_nil]
  | cons t ts ih =>
    rw [compressFrom]
    cases hdelta : t.delta? with
    | some d =>
      have ht : t.isLoop = false := Token.isLoop_of_isQuiet (Token.isQuiet_of_delta? hdelta).1
      simp only [List.filter_append, hmove, ih, List.nil_append, List.filter_cons, ht, Bool.false_eq_true, if_false]
    | none =>
      cases hshift : t.shift? with
      | some s =>
        have ht : t.isLoop = false := Token.isLoop_of_isQuiet (Token.isQuiet_of_shift? hshift).1
        simp only [List.filter_append, harithmetic, ih, List.nil_append, List.filter_cons, ht, Bool.false_eq_true, if_false]
      | none => simp only [List.filter_append, List.filter_cons, harithmetic, hmove, ih, List.nil_append]

/-! ## Targets that are out of date -/

theorem map_untarget_of_isQuiet {ts : List Token} (h : ∀ t ∈ ts, t.isQuiet = true) : ts.map Token.untarget = ts := by
  have huntarget : ∀ t ∈ ts, t.untarget = id t := fun t ht =>
    Token.untarget_of_not_isLoop (Token.isLoop_of_isQuiet (h t ht))
  rw [List.map_congr_left huntarget, List.map_id]

/-- Merging keeps targets and does not look at them. -/
theorem map_untarget_compressFrom (delta shift : Int) (ts : List Token) :
    (compressFrom delta shift ts).map Token.untarget = compressFrom delta shift (ts.map Token.untarget) := by
  have harithmetic := fun d => map_untarget_of_isQuiet fun t (ht : t ∈ arithmetic d) => isQuiet_of_mem_arithmetic ht
  have hmove := fun s => map_untarget_of_isQuiet fun t (ht : t ∈ move s) => isQuiet_of_mem_move ht
  induction ts generalizing delta shift with
  | nil => rw [compressFrom, List.map_append, harithmetic, hmove, List.map_nil, compressFrom]
  | cons t ts ih =>
    have hdelta : t.untarget.delta? = t.delta? := by cases t <;> rfl
    have hshift : t.untarget.shift? = t.shift? := by cases t <;> rfl
    rw [List.map_cons, compressFrom, compressFrom, hdelta, hshift]
    cases t.delta? with
    | some d => simp only [List.map_append, hmove, ih]
    | none =>
      cases t.shift? with
      | some s => simp only [List.map_append, harithmetic, ih]
      | none => simp only [List.map_append, List.map_cons, harithmetic, hmove, ih]

/-- What a program is paired to depends on its tokens without their targets. -/
theorem resolve_congr {ts us : List Token} (h : ts.map Token.untarget = us.map Token.untarget)
    {linked : List Token} (hts : resolve ts = .ok linked) : resolve us = .ok linked := by
  obtain ⟨b, hread, rfl⟩ := Block.resolve_eq_ok_iff.mp hts
  rw [← Block.read_map_untarget, h, Block.read_map_untarget] at hread
  exact Block.resolve_of_read hread

/-- Pairing changes nothing but targets. -/
theorem map_untarget_of_resolve {ts linked : List Token} (h : resolve ts = .ok linked) :
    linked.map Token.untarget = ts.map Token.untarget := by
  obtain ⟨b, hread, rfl⟩ := Block.resolve_eq_ok_iff.mp h
  rw [Block.map_untarget_link (Block.plain_of_read hread b (by simp)),
    Block.tokens_of_ofTokens? (Block.ofTokens?_eq_some_iff.mpr hread)]

/-- Merging the runs of any list of tokens keeps what it does. The merged list can be paired if and only if the list itself can;
targets that the list has, such as those of an earlier pairing, do not matter; and the two lists, once paired, run alike on every
machine in use. -/
theorem resolve_compress_runsAlike (tokens : List Token) :
    ((∃ e, resolve (compress tokens) = .error e) ↔ ∃ e, resolve tokens = .error e) ∧
      ∀ linked, resolve tokens = .ok linked → resolve (compress linked) = resolve (compress tokens) ∧
        ∃ merged, resolve (compress tokens) = .ok merged ∧ ∀ m : Machine, m.tape.InRange → m.RunsAlike linked merged := by
  have hsame := same_compress tokens
  refine ⟨?_, ?_⟩
  · constructor
    · rintro ⟨e, he⟩
      exact hsame.symm.exists_error he
    · rintro ⟨e, he⟩
      exact hsame.exists_error he
  · intro linked h
    obtain ⟨merged, hmerged⟩ := hsame.exists_resolve h
    have huntarget : (compress tokens).map Token.untarget = (compress linked).map Token.untarget := by
      rw [compress, compress, map_untarget_compressFrom, map_untarget_compressFrom, map_untarget_of_resolve h]
    refine ⟨?_, merged, hmerged, ?_⟩
    · rw [hmerged, resolve_congr huntarget hmerged]
    · intro m hm
      exact hsame.runsAlike h hmerged hm

/-- A loop with a target that is out of date, in which moves beyond the end of the tape cancel and a count is written as a truth
value: four of the six tokens are left, and they do the same on a tape of two cells. -/
theorem resolve_compress_runsAlike_stale :
    ∃ linked merged,
      resolve [.increment (.nat 300), .loopStart (some (.nat 9)), .moveRight (.nat 5), .moveLeft (.nat 5),
        .decrement (.truth true), .loopEnd none] = .ok linked ∧
      resolve (compress [.increment (.nat 300), .loopStart (some (.nat 9)), .moveRight (.nat 5), .moveLeft (.nat 5),
        .decrement (.truth true), .loopEnd none]) = .ok merged ∧
      linked.length = 6 ∧ merged.length = 4 ∧ (⟨2, .blank 2, {}, {}⟩ : Machine).tape.InRange ∧
      (⟨2, .blank 2, {}, {}⟩ : Machine).RunsAlike linked merged := by
  have hm : (⟨2, .blank 2, {}, {}⟩ : Machine).tape.InRange := by decide
  obtain ⟨-, merged, hmerged, halike⟩ := (resolve_compress_runsAlike [.increment (.nat 300), .loopStart (some (.nat 9)),
    .moveRight (.nat 5), .moveLeft (.nat 5), .decrement (.truth true), .loopEnd none]).2 _ rfl
  obtain rfl := Except.ok.inj hmerged
  exact ⟨_, _, rfl, rfl, rfl, rfl, hm, halike _ hm⟩

end Program

end Brainfuck
