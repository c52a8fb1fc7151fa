import Brainfuck.Proofs.Jumps
import Mathlib.Data.List.Forall2

/-!
# Programs that show the same

Two blocks are the same to an observer if they show the same on every machine in use (`Block.Same`). Loops and sequences of such
blocks are the same again, so a program may be rewritten anywhere, also in the middle of loops (`Program.Same`). The rewriting
that compilation needs replaces tokens that only change the tape by others that change it in the same way
(`Program.Same.replace`).
-/

namespace Brainfuck

/-! ## Blocks -/

namespace Block

/-- Two blocks show the same on every machine whose cursor is in range. -/
def Same (b c : Block) : Prop := ∀ m : Machine, m.tape.InRange → ∀ s, Shows b m s ↔ Shows c m s

theorem Same.refl (b : Block) : Same b b := fun _ _ _ => Iff.rfl

theorem Same.symm {b c : Block} (h : Same b c) : Same c b := fun m hm s => (h m hm s).symm

theorem Same.trans {b c d : Block} (h : Same b c) (h' : Same c d) : Same b d :=
  fun m hm s => (h m hm s).trans (h' m hm s)

/-- The same block behind a token. -/
theorem Same.simple {b c : Block} (t : Token) (h : Same b c) : Same (.simple t b) (.simple t c) := by
  have half : ∀ {b c : Block}, Same b c → ∀ {m : Machine} {s : Sight}, m.tape.InRange → Shows (.simple t b) m s →
      Shows (.simple t c) m s := by
    intro b c h m s hm hs
    cases hs with
    | now => exact .now _ _
    | next hexec hrest => exact .next hexec ((h _ (Machine.inRange_of_exec hm hexec) s).mp hrest)
    | fails hexec => exact .fails hexec
  exact fun m hm s => ⟨half h hm, half h.symm hm⟩

/-- What a loop shows is shown by a loop of the same body before the same rest. -/
theorem Shows.loop_of_same {body body' rest rest' : Block} (hbody : Same body body') (hrest : Same rest rest') {m : Machine}
    {s : Sight} (hm : m.tape.InRange) (h : Shows (.loop body rest) m s) : Shows (.loop body' rest') m s := by
  induction h using Shows.loop_induction with
  | now => exact .now _ _
  | skip hcell hs => exact .skip hcell ((hrest _ hm _).mp hs)
  | inside hcell hs hne => exact .inside hcell ((hbody _ hm _).mp hs) hne
  | again hcell hs _ ih => exact .again hcell ((hbody _ hm _).mp hs) (ih (hs.inRange hm))

/-- A loop of the same body before the same rest. -/
theorem Same.loop {body body' rest rest' : Block} (hbody : Same body body') (hrest : Same rest rest') :
    Same (.loop body rest) (.loop body' rest') :=
  fun _ hm _ => ⟨Shows.loop_of_same hbody hrest hm, Shows.loop_of_same hbody.symm hrest.symm hm⟩

end Block

/-! ## Programs -/

namespace Program

/-- Two programs read as blocks that are the same one by one, or neither reads as blocks at all. -/
def Same (ts us : List Token) : Prop := Option.Rel (List.Forall₂ Block.Same) (Block.read ts) (Block.read us)

theorem forall₂_same_trans {bs cs ds : List Block} (h : List.Forall₂ Block.Same bs cs)
    (h' : List.Forall₂ Block.Same cs ds) : List.Forall₂ Block.Same bs ds := by
  induction h generalizing ds with
  | nil => exact h'
  | cons hb _ ih =>
    cases h' with
    | cons hc hcs => exact .cons (hb.trans hc) (ih hcs)

/-- A token opens or extends the same blocks in the same way. -/
theorem extend_same {bs cs : List Block} (t : Token) (h : List.Forall₂ Block.Same bs cs) :
    Option.Rel (List.Forall₂ Block.Same) (Block.extend t bs) (Block.extend t cs) := by
  by_cases ht : t.isLoop = true
  · cases t with
    | loopStart target =>
      cases h with
      | nil => exact .none
      | cons hbody hrest =>
        cases hrest with
        | nil => exact .none
        | cons hrest houter => exact .some (.cons (hbody.loop hrest) houter)
    | loopEnd target => exact .some (.cons (.refl _) h)
    | _ => simp [Token.isLoop, Token.kind] at ht
  · rw [Bool.not_eq_true] at ht
    cases h with
    | nil => cases t <;> first | exact .none | simp [Token.isLoop, Token.kind] at ht
    | cons hb houter =>
      rw [Block.extend_of_not_isLoop ht, Block.extend_of_not_isLoop ht]
      exact .some (.cons (hb.simple t) houter)

theorem Same.refl (ts : List Token) : Same ts ts := by
  unfold Same
  cases Block.read ts with
  | none => exact .none
  | some blocks => exact .some (List.forall₂_same.mpr fun b _ => .refl b)

theorem Same.symm {ts us : List Token} (h : Same ts us) : Same us ts := by
  unfold Same at h ⊢
  generalize Block.read ts = blocks, Block.read us = blocks' at h
  cases h with
  | none => exact .none
  | some hblocks => exact .some (hblocks.flip.imp fun _ _ h => Block.Same.symm h)

theorem Same.trans {ts us vs : List Token} (h : Same ts us) (h' : Same us vs) : Same ts vs := by
  unfold Same at h h' ⊢
  generalize Block.read ts = blocks, Block.read us = blocks', Block.read vs = blocks'' at h h'
  cases h with
  | none =>
    cases h'
    exact .none
  | some hblocks =>
    cases h' with
    | some hblocks' => exact .some (forall₂_same_trans hblocks hblocks')

/-- A token in front of the same programs. -/
theorem Same.cons {ts us : List Token} (t : Token) (h : Same ts us) : Same (t :: ts) (t :: us) := by
  unfold Same at h ⊢
  rw [Block.read_cons, Block.read_cons]
  generalize Block.read ts = blocks, Block.read us = blocks' at h
  cases h with
  | none => exact .none
  | some hblocks => exact extend_same t hblocks

theorem Same.append_left {ts us : List Token} (before : List Token) (h : Same ts us) : Same (before ++ ts) (before ++ us) := by
  induction before with
  | nil => exact h
  | cons t before ih => exact ih.cons t

end Program

/-! ## The same programs run alike -/

/-- Two programs run alike on a machine: they come to the same ends, and what has passed through the streams at some moment of one
run has at some moment of the other. -/
def Machine.RunsAlike (m : Machine) (ts us : List Token) : Prop :=
  (∀ m' o, (∃ steps, m.run steps ts = some (m', o)) ↔ ∃ steps, m.run steps us = some (m', o)) ∧
    ∀ input output, m.Passes ts input output ↔ m.Passes us input output

namespace Program

/-- Of programs that are the same, each can be paired if the other can. -/
theorem Same.exists_resolve {ts us linked : List Token} (h : Same ts us) (hts : resolve ts = .ok linked) :
    ∃ linked', resolve us = .ok linked' := by
  obtain ⟨b, hread, -⟩ := Block.resolve_eq_ok_iff.mp hts
  unfold Same at h
  rw [hread] at h
  generalize hread' : Block.read us = blocks at h
  cases h with
  | some hblocks =>
    cases hblocks with
    | cons _ hnil =>
      cases hnil
      exact ⟨_, Block.resolve_of_read hread'⟩

/-- Of programs that are the same, each fails to be paired if the other does. -/
theorem Same.exists_error {ts us : List Token} {e : UnmatchedLoop} (h : Same ts us) (hts : resolve ts = .error e) :
    ∃ e', resolve us = .error e' := by
  cases hus : resolve us with
  | error e' => exact ⟨e', rfl⟩
  | ok linked =>
    obtain ⟨linked', hlinked'⟩ := h.symm.exists_resolve hus
    rw [hts] at hlinked'
    cases hlinked'

/-- Programs that are the same run alike when they are paired. -/
theorem Same.runsAlike {ts us linked linked' : List Token} {m : Machine} (h : Same ts us) (hts : resolve ts = .ok linked)
    (hus : resolve us = .ok linked') (hm : m.tape.InRange) : m.RunsAlike linked linked' := by
  obtain ⟨b, hread, rfl⟩ := Block.resolve_eq_ok_iff.mp hts
  obtain ⟨c, hread', rfl⟩ := Block.resolve_eq_ok_iff.mp hus
  have hb := Block.plain_of_read hread b (by simp)
  have hc := Block.plain_of_read hread' c (by simp)
  unfold Same at h
  rw [hread, hread'] at h
  cases h with
  | some hblocks =>
    cases hblocks with
    | cons hsame _ =>
      constructor
      · intro m' o
        rw [Block.exists_run_link_iff_shows hb hm, Block.exists_run_link_iff_shows hc hm]
        exact hsame m hm _
      · intro input output
        rw [Block.passes_link_iff_shows hb hm, Block.passes_link_iff_shows hc hm]
        exact hsame m hm _

end Program

/-! ## Tokens that only change the tape -/

/-- A token that changes the tape and nothing else. -/
def Token.isQuiet (t : Token) : Bool :=
  match t with
  | .increment _ | .decrement _ | .moveLeft _ | .moveRight _ | .noOp _ => true
  | _ => false

/-- The tape behind a token that changes nothing else. -/
def Tape.after (tape : Tape) : Token → Tape
  | .increment n => tape.add n.toNat
  | .decrement n => tape.add (-n.toNat)
  | .moveRight n => tape.move n.toNat
  | .moveLeft n => tape.move (-n.toNat)
  | _ => tape

theorem Tape.InRange.after {tape : Tape} (h : tape.InRange) (t : Token) : (tape.after t).InRange := by
  cases t <;> first | exact h | exact h.add _ | exact Tape.inRange_move h.length_pos _

theorem Token.isLoop_of_isQuiet {t : Token} (h : t.isQuiet = true) : t.isLoop = false := by
  cases t <;> first | rfl | simp [Token.isQuiet] at h

theorem Machine.exec_of_isQuiet {m : Machine} {t : Token} (hm : m.tape.InRange) (ht : t.isQuiet = true) (index : Nat) :
    m.exec index t = .next { m with tape := m.tape.after t } (index + 1) := by
  have hcell := hm.onCell
  have hlength := Nat.ne_of_gt hm.length_pos
  cases t <;> simp_all [Token.isQuiet, Machine.exec, Machine.add, Machine.move, Tape.after]

namespace Block

/-- A block behind some tokens. -/
def prepend (ts : List Token) (b : Block) : Block := ts.foldr .simple b

/-- A quiet token lets through what is seen behind it. -/
theorem shows_simple_iff_of_isQuiet {t : Token} {b : Block} {m : Machine} {s : Sight} (hm : m.tape.InRange)
    (ht : t.isQuiet = true) : Shows (.simple t b) m s ↔ Shows b { m with tape := m.tape.after t } s := by
  have hexec := Machine.exec_of_isQuiet hm ht 0
  constructor
  · intro h
    cases h with
    | now => exact .now b { m with tape := m.tape.after t }
    | next hexec' hs =>
      rw [hexec] at hexec'
      cases hexec'
      exact hs
    | fails hexec' =>
      rw [hexec] at hexec'
      cases hexec'
  · exact fun h => .next hexec h

/-- Quiet tokens let through what is seen behind them. -/
theorem shows_prepend_iff {ts : List Token} {b : Block} {m : Machine} {s : Sight} (hm : m.tape.InRange)
    (hts : ∀ t ∈ ts, t.isQuiet = true) : Shows (prepend ts b) m s ↔ Shows b { m with tape := ts.foldl Tape.after m.tape } s := by
  induction ts generalizing m with
  | nil => rfl
  | cons t ts ih =>
    rw [prepend, List.foldr_cons, ← prepend, shows_simple_iff_of_isQuiet hm (hts t (by simp)),
      ih (hm.after t) fun t ht => hts t (by simp [ht])]
    rfl

/-- Tokens in front of a program that are no loop tokens stand in front of the first block that the program reads as. -/
theorem read_append {ts us : List Token} (hts : ∀ t ∈ ts, t.isLoop = false) :
    read (ts ++ us) = (read us).map (List.modifyHead (prepend ts)) := by
  induction ts with
  | nil =>
    have hid : prepend [] = id := rfl
    rw [List.nil_append, hid, List.modifyHead_id, Option.map_id, id]
  | cons t ts ih =>
    rw [List.cons_append, read_cons, ih fun t ht => hts t (by simp [ht])]
    rcases hread : read us with _ | (_ | ⟨b, outer⟩)
    · rfl
    · exact absurd hread read_ne_nil
    · exact extend_of_not_isLoop (hts t (by simp)) _ _

end Block

namespace Program

/-- Quiet tokens may be replaced by quiet tokens that change every tape in use in the same way. -/
theorem Same.replace {before after us : List Token} (hbefore : ∀ t ∈ before, t.isQuiet = true)
    (hafter : ∀ t ∈ after, t.isQuiet = true)
    (heffect : ∀ tape : Tape, tape.InRange → before.foldl Tape.after tape = after.foldl Tape.after tape) :
    Same (before ++ us) (after ++ us) := by
  unfold Same
  rw [Block.read_append fun t ht => Token.isLoop_of_isQuiet (hbefore t ht),
    Block.read_append fun t ht => Token.isLoop_of_isQuiet (hafter t ht)]
  rcases Block.read us with _ | (_ | ⟨b, outer⟩)
  · exact .none
  · exact .some .nil
  · refine .some (.cons ?_ (List.forall₂_same.mpr fun b _ => .refl b))
    intro m hm s
    rw [Block.shows_prepend_iff hm hbefore, Block.shows_prepend_iff hm hafter, heffect m.tape hm]

end Program

end Brainfuck
