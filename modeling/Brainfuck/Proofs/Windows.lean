import Brainfuck.Proofs.Answers

/-!
# Windows

What an answer shows of a tape is what is there (`windows_faithful`). The cells that are shown are those up to the asked number of
places from the cursor, cut off at the two ends of the tape, and each is shown with its byte (`State.Faithful`). The window is laid
out by the capacity and the cells are taken from the tape, so this rests on what holds of every machine of a reachable store: its tape
has as many cells as the capacity says, and the cursor is on one of them (`Reachable.fits`).

What is said of the size of a window and of several windows on one tape follows from this alone.
-/

namespace Brainfuck.Service

/-! ## What is shown -/

/-- A state shows a machine with up to `window` cells on either side of the cursor. The places that it shows are those of the tape
that are not farther from the cursor, and it shows the bytes that are there. -/
structure State.Faithful (window : Nat) (m : Machine) (state : State) : Prop where
  capacity : state.capacity = m.capacity
  cells : state.capacity = m.tape.length
  cursor : state.cursor = m.tape.cursor
  inRange : 0 ≤ state.cursor ∧ state.cursor < state.capacity
  places : ∀ i : Int, (state.tapeStart ≤ i ∧ i < state.tapeStart + state.tape.length) ↔
    (0 ≤ i ∧ i < state.capacity) ∧ (i - state.cursor).natAbs ≤ window
  bytes : ∀ i : Nat, state.tapeStart ≤ i → i < state.tapeStart + state.tape.length →
    state.tape[i - state.tapeStart]? = m.tape.cells[i]?

section Faithful

variable {window window' : Nat} {m m' : Machine} {state state' : State}

/-- A machine with the cells of its capacity is shown as it is. -/
theorem faithful_ofMachine (hm : m.Fits m.capacity) (window : Nat) (machineId : Option String) (runs : Nat) :
    (State.ofMachine window machineId runs m).Faithful window m := by
  have hlength : (m.tape.cells.size : Int) = m.capacity := hm.length
  obtain ⟨hleft, hright⟩ := hm.inRange
  have hright : m.tape.cursor < m.capacity := hlength ▸ hright
  -- the window ends within the tape, so all of it is cut from there
  have hshown : (State.ofMachine window machineId runs m).tape.length =
      (min m.capacity (m.tape.cursor + window + 1)).toNat - (m.tape.cursor - window).toNat := by
    simp only [State.ofMachine, Tape.slice, Array.length_toList, Array.size_extract]
    omega
  refine ⟨rfl, hlength.symm, rfl, ⟨hleft, hright⟩, fun i => ?_, fun i hstart hstop => ?_⟩
  · rw [hshown]
    simp only [State.ofMachine]
    omega
  · rw [hshown] at hstop
    simp only [State.ofMachine, Tape.slice, Array.getElem?_toList, Array.getElem?_extract] at hstart hstop ⊢
    rw [if_pos (by omega), Nat.add_sub_cancel' hstart]

namespace State.Faithful

variable (h : state.Faithful window m)
include h

/-- The cell under the cursor is shown. -/
theorem cursor_shown : (state.tapeStart ≤ state.cursor ∧ state.cursor < state.tapeStart + state.tape.length) ∧
    state.tape[(state.cursor - state.tapeStart).toNat]? = some m.tape.cell := by
  have hinside := (h.places state.cursor).mpr ⟨h.inRange, by omega⟩
  have hrange : m.tape.InRange := by
    rw [Tape.InRange, ← h.cursor, ← h.cells]
    exact h.inRange
  obtain ⟨hleft, -⟩ := h.inRange
  have hbyte := h.bytes state.cursor.toNat (by omega) (by omega)
  have hplace : (state.cursor - state.tapeStart).toNat = state.cursor.toNat - state.tapeStart := by omega
  refine ⟨hinside, ?_⟩
  rw [hplace, hbyte, h.cursor, hrange.getElem?_cursor]

theorem tape_ne_nil : state.tape ≠ [] := by
  intro hnil
  have hinside := h.cursor_shown.1
  rw [hnil, List.length_nil] at hinside
  omega

/-- A window has a cell for the cursor and at most as many as asked for on either side. -/
theorem length_le : state.tape.length ≤ 2 * window + 1 := by
  have hpos := List.length_pos_iff.mpr h.tape_ne_nil
  obtain ⟨-, hfirst⟩ := (h.places state.tapeStart).mp ⟨by omega, by omega⟩
  obtain ⟨-, hlast⟩ := (h.places (state.tapeStart + (state.tape.length - 1 : Nat))).mp ⟨by omega, by omega⟩
  omega

/-- A window that reaches from one end to the other shows the whole tape. -/
theorem whole (hwide : state.capacity - 1 ≤ window) : state.tapeStart = 0 ∧ state.tape = m.tape.cells.toList := by
  obtain ⟨hleft, hright⟩ := h.inRange
  have hfirst := (h.places 0).mpr ⟨⟨by omega, by omega⟩, by omega⟩
  have hlast := (h.places (state.capacity - 1)).mpr ⟨⟨by omega, by omega⟩, by omega⟩
  have hnext := mt (h.places state.capacity).mp (by omega)
  have hstart : state.tapeStart = 0 := by omega
  have hlength : (state.tape.length : Int) = m.tape.cells.size := by
    have hcells : state.capacity = m.tape.cells.size := h.cells
    omega
  refine ⟨hstart, List.ext_getElem? fun i => ?_⟩
  by_cases hi : i < state.tape.length
  · have hbyte := h.bytes i (by omega) (by omega)
    rw [hstart, Nat.sub_zero] at hbyte
    rw [hbyte, Array.getElem?_toList]
  · have hbeyond : m.tape.cells.toList.length ≤ i := by
      rw [Array.length_toList]
      omega
    rw [List.getElem?_eq_none (Nat.le_of_not_lt hi), List.getElem?_eq_none hbeyond]

/-- Two windows on the same tape agree where they overlap. -/
theorem agree (h' : state'.Faithful window' m') (htape : m.tape = m'.tape) {i : Nat}
    (hi : state.tapeStart ≤ i ∧ i < state.tapeStart + state.tape.length)
    (hi' : state'.tapeStart ≤ i ∧ i < state'.tapeStart + state'.tape.length) :
    state.tape[i - state.tapeStart]? = state'.tape[i - state'.tapeStart]? := by
  rw [h.bytes i hi.1 hi.2, h'.bytes i hi'.1 hi'.2, htape]

end State.Faithful

end Faithful

/-! ## Answers that show a machine -/

/-- The state that a reply shows, if it shows one. -/
def Reply.state? : Reply → Option State
  | .ran _ _ state | .created state | .found state => some state
  | _ => none

/-- The state stands in the body: it is the whole body, or beside the output of a program. -/
theorem Reply.body_of_state? {reply : Reply} {state : State} (h : reply.state? = some state) :
    reply.body = state.toJson ∨ reply.body.field? "state" = some state.toJson := by
  cases reply with
  | ran output count shown =>
    cases h
    exact Or.inr rfl
  | created shown | found shown =>
    cases h
    exact Or.inl rfl
  | _ => cases h

/-- How many cells a call wants to be shown on either side of the cursor. -/
def Call.window : Call → Nat
  | .runOnce program _ | .runOn _ program => program.window
  | .inspect _ window => window.toNat
  | .create _ | .reset _ | .delete _ => defaultWindow

/-- The machine that an answer is about, as it is then: the one that ran the program and is in no store, or the one that is in the
store under the identifier of the state. A machine that is created has an identifier of its own, and others are called by theirs. -/
def Call.Subject (steps : Nat) (s' : Store) (state : State) (m : Machine) : Call → Prop
  | .runOnce program capacity => state.machineId = none ∧
      ∃ fresh count, Machine.create capacity = .ok fresh ∧ program.run steps fresh = some (m, .ok count)
  | .create _ => ∃ r, state.machineId = some r.id ∧ s'.get? r.id = some r ∧ r.machine = m
  | .inspect id _ | .runOn id _ | .reset id => state.machineId = some id ∧ ∃ r, s'.get? id = some r ∧ r.machine = m
  | .delete _ => False

/-- A request to a reachable store was answered with a state, which shows a machine with a window. -/
inductive Shown : Nat → Machine → State → Prop
  | answered {steps : Nat} {s s' : Store} {request : Request} {call : Call} {reply : Reply} {m : Machine} {state : State}
      (hs : Reachable s) (hcall : request.call = .ok call) (h : handle steps s request = some (reply, s'))
      (hstate : reply.state? = some state) (hm : call.Subject steps s' state m) : Shown call.window m state

variable {steps : Nat} {s s' : Store} {call : Call} {reply : Reply} {m : Machine} {state : State}

/-- A new state of a live record is found in its place. -/
theorem get?_update_same {id : String} {r r' : Record} (hget : s.get? id = some r) (hid : r'.id = id) :
    (s.update r').get? id = some r' := by
  rw [Store.get?_update hget (hid.trans (Store.id_of_get? hget).symm), if_pos rfl]

/-- An answer is about one machine. -/
theorem Call.Subject.unique {m' : Machine} (h : call.Subject steps s' state m) (h' : call.Subject steps s' state m') : m = m' := by
  cases call with
  | runOnce program capacity =>
    obtain ⟨-, fresh, count, hcreate, hrun⟩ := h
    obtain ⟨-, fresh', count', hcreate', hrun'⟩ := h'
    cases hcreate.symm.trans hcreate'
    cases hrun.symm.trans hrun'
    rfl
  | create =>
    obtain ⟨r, hid, hget, rfl⟩ := h
    obtain ⟨r', hid', hget', rfl⟩ := h'
    have hsame : r.id = r'.id := Option.some.inj (hid.symm.trans hid')
    rw [hsame] at hget
    cases hget.symm.trans hget'
    rfl
  | inspect | runOn | reset =>
    obtain ⟨-, r, hget, rfl⟩ := h
    obtain ⟨-, r', hget', rfl⟩ := h'
    cases hget.symm.trans hget'
    rfl
  | delete => cases h

/-- An answer with a state is about a machine, and shows it with the window of the call. -/
theorem exists_subject (hs : s.Issued) (h : Exit steps s call reply s') (hstate : reply.state? = some state) :
    ∃ m, call.Subject steps s' state m ∧ ∃ id runs, state = State.ofMachine call.window id runs m := by
  cases h with
  | onceFinished hcreate hrun =>
    cases hstate
    exact ⟨_, ⟨rfl, _, _, hcreate, hrun⟩, _, _, rfl⟩
  | @created _ r _ hcreate =>
    cases hstate
    have hget : s'.get? r.id = some r := by rw [Store.get?_create hs hcreate, if_pos rfl]
    exact ⟨_, ⟨r, rfl, hget, rfl⟩, _, _, rfl⟩
  | @found id _ r _ hget =>
    cases hstate
    have hid := Store.id_of_get? hget
    exact ⟨_, ⟨congrArg some hid, r, hget, rfl⟩, _, _, rfl⟩
  | @finished id _ r m _ hget =>
    cases hstate
    have hid := Store.id_of_get? hget
    exact ⟨_, ⟨congrArg some hid, r.after m, get?_update_same hget hid, rfl⟩, _, _, rfl⟩
  | @reset id r hget =>
    cases hstate
    have hid := Store.id_of_get? hget
    exact ⟨_, ⟨congrArg some hid, r.cleared, get?_update_same hget hid, rfl⟩, _, _, rfl⟩
  | _ => cases hstate

/-- The machine that an answer is about has the cells of its capacity. -/
theorem fits_of_subject (hs : Reachable s') (hm : call.Subject steps s' state m) : m.Fits m.capacity := by
  cases call with
  | runOnce program capacity =>
    obtain ⟨-, fresh, count, hcreate, hrun⟩ := hm
    obtain ⟨-, rfl⟩ := Machine.create_eq_ok_iff.mp hcreate
    exact ProgramBody.fits_of_run (Machine.fits_create hcreate) hrun
  | create =>
    obtain ⟨r, -, hget, rfl⟩ := hm
    exact hs.fits hget
  | inspect | runOn | reset =>
    obtain ⟨-, r, hget, rfl⟩ := hm
    exact hs.fits hget
  | delete => cases hm

/-- What is shown is there. -/
theorem Shown.faithful {window : Nat} (h : Shown window m state) : state.Faithful window m := by
  obtain ⟨hs, hcall, hhandle, hstate, hm⟩ := h
  obtain ⟨m', hm', id, runs, rfl⟩ := exists_subject hs.issued (exit_of_handle hcall hhandle) hstate
  obtain rfl := hm.unique hm'
  exact faithful_ofMachine (fits_of_subject (hs.handle hhandle) hm) _ id runs

/-- The window of the tape that is shown is faithful. Every answer with a state, to any request to a reachable store, is about a machine
of the store or the one that ran the program, and a live machine can be looked at with windows of any size. The places that are shown
are those of the tape that are as near to the cursor as the window says, and each is shown with its byte. So the cell under the cursor
is among them, there is at most one for the cursor and as many as the window says on either side, a window that is wide enough shows
the whole tape, and two windows on the same tape agree where they overlap. -/
theorem windows_faithful :
    (∀ steps s s' request call reply state, Reachable s → request.call = .ok call →
      handle steps s request = some (reply, s') → reply.state? = some state →
        (reply.body = state.toJson ∨ reply.body.field? "state" = some state.toJson) ∧
          ∃ m, call.Subject steps s' state m ∧ Shown call.window m state) ∧
    (∀ steps s request id r, ∀ w : Int, Reachable s → s.get? id = some r → request.call = .ok (.inspect id w) → 0 ≤ w →
      ∃ state, handle steps s request = some (.found state, s) ∧ Shown w.toNat r.machine state) ∧
    (∀ window m state, Shown window m state → state.Faithful window m ∧
      ((state.tapeStart ≤ state.cursor ∧ state.cursor < state.tapeStart + state.tape.length) ∧
        state.tape[(state.cursor - state.tapeStart).toNat]? = some m.tape.cell) ∧
      state.tape ≠ [] ∧ state.tape.length ≤ 2 * window + 1 ∧
      (state.capacity - 1 ≤ window → state.tapeStart = 0 ∧ state.tape = m.tape.cells.toList)) ∧
    ∀ window window' m m' state state', Shown window m state → Shown window' m' state' → m.tape = m'.tape → ∀ i : Nat,
      state.tapeStart ≤ i ∧ i < state.tapeStart + state.tape.length →
        state'.tapeStart ≤ i ∧ i < state'.tapeStart + state'.tape.length →
          state.tape[i - state.tapeStart]? = state'.tape[i - state'.tapeStart]? := by
  refine ⟨?_, ?_, ?_, ?_⟩
  · intro steps s s' request call reply state hs hcall h hstate
    obtain ⟨m, hm, -⟩ := exists_subject hs.issued (exit_of_handle hcall h) hstate
    exact ⟨Reply.body_of_state? hstate, m, hm, .answered hs hcall h hstate hm⟩
  · intro steps s request id r w hs hget hcall hw
    have hhandle : handle steps s request = some (.found (State.ofRecord w.toNat r), s) := by
      rw [handle, hcall]
      exact answer_of_exit (.found (Int.not_lt.mpr hw) hget)
    have hid : (State.ofRecord w.toNat r).machineId = some id := congrArg some (Store.id_of_get? hget)
    exact ⟨_, hhandle, .answered hs hcall hhandle rfl ⟨hid, r, hget, rfl⟩⟩
  · intro window m state h
    exact ⟨h.faithful, h.faithful.cursor_shown, h.faithful.tape_ne_nil, h.faithful.length_le, h.faithful.whole⟩
  · intro window window' m m' state state' h h' htape i hi hi'
    exact h.faithful.agree h'.faithful htape hi hi'

/-- A machine of three cells has its cursor on the last. With far more cells on either side than the tape has, all of it is shown; with
one on either side, the last cell is shown as well, and with the same byte. -/
theorem windows_faithful_far :
    ∃ s r near far, Reachable s ∧ s.get? (Store.idOf 1) = some r ∧ r.machine.tape = ⟨#[7, 0, 1], 2⟩ ∧
      Shown 99999999999 r.machine far ∧ far.tapeStart = 0 ∧ far.tape = [7, 0, 1] ∧
      Shown 1 r.machine near ∧ near.tape.length ≤ 3 ∧ near.tape[2 - near.tapeStart]? = some 1 := by
  let requests : List Request :=
    [⟨"POST", "/api/machine", "\x7b\"tape_size\":3\x7d"⟩,
      ⟨"POST", "/api/machine/00000000000000000000000000000001/run", "\x7b\"code\":\"+++++++<+\"\x7d"⟩]
  have hends : (handleAll 10 {} requests).map
      (fun answered => (answered.1.map (·.status), (answered.2.get? (Store.idOf 1)).map (·.machine.tape))) =
      some ([201, 200], some ⟨#[7, 0, 1], 2⟩) := by decide +kernel
  obtain ⟨⟨replies, s⟩, hhistory, heq⟩ := Option.map_eq_some_iff.mp hends
  obtain ⟨-, hlive⟩ := Prod.mk.inj heq
  obtain ⟨r, hget, htape⟩ := Option.map_eq_some_iff.mp hlive
  have hs : Reachable s := Reachable.empty.handleAll hhistory
  have hcall : Request.call ⟨"GET", "/api/machine/00000000000000000000000000000001?tape_window=1", ""⟩ =
      .ok (.inspect (Store.idOf 1) 1) := by decide +kernel
  have hcall' : Request.call ⟨"GET", "/api/machine/00000000000000000000000000000001?tape_window=99999999999", ""⟩ =
      .ok (.inspect (Store.idOf 1) 99999999999) := by decide +kernel
  obtain ⟨-, hlook, hfaithful, hagree⟩ := windows_faithful
  obtain ⟨near, -, hnear⟩ := hlook 0 s _ _ r 1 hs hget hcall (by decide)
  obtain ⟨far, -, hfar⟩ := hlook 0 s _ _ r 99999999999 hs hget hcall' (by decide)
  obtain ⟨hplaces, -, -, hlength, -⟩ := hfaithful _ _ near hnear
  obtain ⟨hplaces', -, -, -, hwhole⟩ := hfaithful _ _ far hfar
  obtain ⟨hstart, hthree⟩ := hwhole (by rw [hplaces'.cells, htape]; decide)
  rw [htape] at hthree
  have hlast := (hplaces.places 2).mpr (by rw [hplaces.cells, hplaces.cursor, htape]; decide)
  have hsame := hagree _ _ _ _ near far hnear hfar rfl 2 (by omega) (by rw [hstart, hthree]; decide)
  rw [hstart, hthree] at hsame
  exact ⟨s, r, near, far, hs, hget, htape, hfar, hstart, hthree, hnear, hlength, hsame⟩

end Brainfuck.Service
