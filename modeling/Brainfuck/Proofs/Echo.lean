import Brainfuck.Message
import Brainfuck.Proofs.Agreement
import Brainfuck.Proofs.Batches
import Brainfuck.Proofs.OneShot
import Brainfuck.Proofs.Symmetry

/-!
# The echo

The program `,[.,]` writes what it reads, up to the first zero. It is seen as a program that starts anew after each byte: a byte that is
not zero is read and written, and what is left to do is what the program does on the machine after that (`Block.shows_echo_relay`).
So a text of such bytes is passed on by as many relays (`Machine.relay`), after which the next read finds a zero, or nothing.

The service takes the bytes to read from the characters of a text and gives those that were written as such a text again. Texts of
characters up to U+00FF are the texts of bytes (`exists_textOfBytes_iff`), so they come back as they were sent.
-/

namespace Brainfuck

/-! ## Streams that hold out -/

/-- A count can go on by `n` before it comes to the limit, if there is one. -/
def Allows (limit : Option Nat) (count n : Nat) : Prop := ∀ bound ∈ limit, count + n ≤ bound

instance (limit : Option Nat) (count n : Nat) : Decidable (Allows limit count n) :=
  inferInstanceAs (Decidable (∀ bound ∈ limit, count + n ≤ bound))

section Allows

variable {limit : Option Nat} {count n k : Nat}

theorem allows_none : Allows none count n := by simp [Allows]

theorem Allows.mono (h : Allows limit count n) (hk : k ≤ n) : Allows limit count k :=
  fun bound hbound => (Nat.add_le_add_left hk count).trans (h bound hbound)

/-- Going on by some uses up as many of what is allowed. -/
theorem Allows.add (h : Allows limit count (k + n)) : Allows limit (count + k) n :=
  fun bound hbound => Nat.add_assoc count k n ▸ h bound hbound

theorem Allows.reached (h : Allows limit count n) (hn : 0 < n) : reached limit count = false := by
  cases limit with
  | none => rfl
  | some bound =>
    have hle : count + n ≤ bound := h bound rfl
    exact decide_eq_false (by omega)

end Allows

/-- The stream does not fail on the next `n` reads; it may lack bytes. -/
def InputStream.ReadyFor (s : InputStream) (n : Nat) : Prop := Allows s.failAfter s.consumed n

/-- The stream does not fail on the next `n` writes. -/
def OutputStream.HasRoomFor (s : OutputStream) (n : Nat) : Prop := Allows s.failAfter s.written.size n

instance (s : InputStream) (n : Nat) : Decidable (s.ReadyFor n) := inferInstanceAs (Decidable (Allows _ _ _))

instance (s : OutputStream) (n : Nat) : Decidable (s.HasRoomFor n) := inferInstanceAs (Decidable (Allows _ _ _))

/-! ## One byte after another -/

namespace Machine

/-- The machine that has read a byte. -/
def accept (m : Machine) (b : UInt8) : Machine :=
  { m with
    tape := m.tape.write b
    input := { m.input with pending := m.input.pending.tail, consumed := m.input.consumed + 1 } }

/-- The machine that has read a byte and written it. -/
def relay (m : Machine) (b : UInt8) : Machine := { m.accept b with output := m.output.push b }

/-- A machine that has passed bytes on from its input to its output. It has written the bytes, it has read a number of bytes and left
the rest, and it has a byte in the cell under the cursor; the cursor, the other cells and the capacity are as they were. -/
structure Relayed (m : Machine) (bytes : List UInt8) (reads : Nat) (rest : List UInt8) (last : UInt8) (m' : Machine) : Prop where
  written : m'.output.written.toList = m.output.written.toList ++ bytes
  consumed : m'.input.consumed = m.input.consumed + reads
  pending : m'.input.pending = rest
  cell : m'.tape.cell = last
  cursor : m'.tape.cursor = m.tape.cursor
  length : m'.tape.length = m.tape.length
  others : ∀ place : Nat, (place : Int) ≠ m.tape.cursor → m'.tape.cells[place]? = m.tape.cells[place]?
  capacity : m'.capacity = m.capacity

variable {m : Machine} {b : UInt8} {rest : List UInt8} {payload : Json}

theorem exec_input (hm : m.tape.onCell = true) (hin : m.input.ReadyFor 1) (hpending : m.input.pending = b :: rest) :
    m.exec 0 (.input payload) = .next (m.accept b) 1 := by
  have hup : m.input.isDown = false := hin.reached Nat.one_pos
  simp [exec, read, hup, hpending, hm, accept]

theorem exec_input_of_nil (hin : m.input.ReadyFor 1) (hpending : m.input.pending = []) :
    m.exec 0 (.input payload) = .failed m .inputExhausted := by
  have hup : m.input.isDown = false := hin.reached Nat.one_pos
  simp [exec, read, hup, hpending]

theorem exec_output (hm : m.tape.onCell = true) (hout : m.output.HasRoomFor 1) :
    m.exec 0 (.output payload) = .next { m with output := m.output.push m.tape.cell } 1 := by
  have hroom : m.output.isFull = false := hout.reached Nat.one_pos
  simp [exec, write, hm, hroom]

/-- The machine that has passed on some bytes. -/
theorem foldl_relay (hm : m.tape.InRange) (x : List UInt8) :
    x.foldl relay m =
      { capacity := m.capacity
        tape := m.tape.write (x.getLastD m.tape.cell)
        input := ⟨m.input.pending.drop x.length, m.input.consumed + x.length, m.input.failAfter⟩
        output := ⟨m.output.written ++ x.toArray, m.output.failAfter⟩ } := by
  induction x generalizing m with
  | nil => simp [Tape.write_cell]
  | cons b x ih =>
    have hcount : m.input.consumed + 1 + x.length = m.input.consumed + (x.length + 1) := by omega
    rw [List.foldl_cons, ih (hm.write b), List.getLastD_cons]
    simp [-List.getLastD_eq_getLast?, relay, accept, OutputStream.push, Tape.cell_write hm.onCell, Tape.write_write, hcount]

end Machine

/-! ## The program -/

/-- The source of the echo. -/
def Source.echo : List Char := [',', '[', '.', ',', ']']

namespace Block

/-- The block of the echo. -/
def echo : Block := .simple (.input .null) (.loop (.simple (.output .null) (.simple (.input .null) .done)) .done)

theorem read_tokenize_echo : read (Program.tokenize Source.echo) = some [echo] := rfl

variable {m m' : Machine} {b : UInt8} {x rest : List UInt8} {o : Outcome}

/-- A byte that is not zero is passed on, and the echo goes on as if it began there. -/
theorem shows_echo_relay (hm : m.tape.InRange) (hin : m.input.ReadyFor 1) (hout : m.output.HasRoomFor 1)
    (hpending : m.input.pending = b :: rest) (hb : b ≠ 0) (h : Shows echo (m.relay b) (.ended m' o)) :
    Shows echo m (.ended m' o) := by
  have hcell : (m.accept b).tape.cell = b := Tape.cell_write hm.onCell b
  have hwrite : (m.accept b).exec 0 (.output .null) = .next (m.relay b) 1 := by
    rw [Machine.exec_output (m := m.accept b) (hm.write b).onCell hout, hcell]
    rfl
  have hloop : (m.accept b).tape.cell ≠ 0 := hcell.symm ▸ hb
  -- The read that the echo begins with is the one at the end of a round of its loop.
  refine .next (Machine.exec_input hm.onCell hin hpending) ?_
  cases h with
  | next hread hrest => exact .again hloop (.next hwrite (.next hread (.done _))) hrest
  | fails hread => exact .inside hloop (.next hwrite (.fails hread)) nofun

/-- A text without a zero is passed on, and the echo goes on as if it began there. -/
theorem shows_echo_foldl_relay (hm : m.tape.InRange) (hin : m.input.ReadyFor x.length) (hout : m.output.HasRoomFor x.length)
    (hpending : m.input.pending = x ++ rest) (hx : 0 ∉ x) (h : Shows echo (x.foldl Machine.relay m) (.ended m' o)) :
    Shows echo m (.ended m' o) := by
  induction x generalizing m with
  | nil => exact h
  | cons b x ih =>
    obtain ⟨hb, hx⟩ := List.ne_and_not_mem_of_not_mem_cons hx
    rw [List.length_cons, Nat.add_comm] at hin hout
    have hone : 1 ≤ 1 + x.length := Nat.le_add_right 1 _
    have hroom : (m.relay b).output.HasRoomFor x.length := by
      rw [OutputStream.HasRoomFor, Machine.relay, OutputStream.push, Array.size_push]
      exact hout.add
    refine shows_echo_relay hm (hin.mono hone) (hout.mono hone) hpending hb.symm ?_
    refine ih (hm.write b) hin.add hroom ?_ hx h
    simp [Machine.relay, Machine.accept, hpending]

/-- At a zero the echo ends. -/
theorem shows_echo_zero (hm : m.tape.InRange) (hin : m.input.ReadyFor 1) (hpending : m.input.pending = 0 :: rest) :
    Shows echo m (.ended (m.accept 0) .finished) :=
  .next (Machine.exec_input hm.onCell hin hpending) (.skip (Tape.cell_write hm.onCell 0) (.done _))

/-- Where nothing is left to read the echo fails. -/
theorem shows_echo_nil (hin : m.input.ReadyFor 1) (hpending : m.input.pending = []) :
    Shows echo m (.ended m (.failed .inputExhausted)) := .fails (Machine.exec_input_of_nil hin hpending)

end Block

/-! ## What the echo leaves -/

namespace Machine

variable {m m' : Machine} {b last : UInt8} {x rest : List UInt8} {reads : Nat}

/-- The relays of some bytes pass them on. -/
theorem relayed_foldl_relay (hm : m.tape.InRange) (hpending : m.input.pending = x ++ rest) :
    m.Relayed x x.length rest (x.getLastD m.tape.cell) (x.foldl relay m) := by
  rw [foldl_relay hm]
  refine ⟨by simp, rfl, by simp [hpending], Tape.cell_write hm.onCell _, rfl, Tape.length_write _ _, ?_, rfl⟩
  intro place hplace
  rw [hm.getElem?_write, if_neg hplace.symm]

/-- One more byte that is read is left in the cell. -/
theorem Relayed.accept (h : m.Relayed x reads (b :: rest) last m') (hm : m.tape.InRange) :
    m.Relayed x (reads + 1) rest b (m'.accept b) := by
  have hm' : m'.tape.InRange := by
    rw [Tape.InRange, h.cursor, h.length]
    exact hm
  have hconsumed := h.consumed
  refine ⟨h.written, ?_, ?_, Tape.cell_write hm'.onCell b, h.cursor, ?_, ?_, h.capacity⟩
  · simp only [Machine.accept]
    omega
  · simp only [Machine.accept, h.pending, List.tail_cons]
  · simp only [Machine.accept, Tape.length_write, h.length]
  · intro place hplace
    rw [Machine.accept, hm'.getElem?_write, h.cursor, if_neg hplace.symm, h.others place hplace]

/-- The echo passes on a text without a zero, under all settings. If a zero follows it ends there, and otherwise it fails. -/
theorem runSource_echo (hm : m.tape.InRange) (hx : 0 ∉ x) (hin : m.input.ReadyFor (x.length + 1))
    (hout : m.output.HasRoomFor x.length) (options : Program.Options) :
    (m.input.pending = x ++ 0 :: rest → ∃ steps count m', m.runSource steps options Source.echo = some (m', .ok count) ∧
      m.Relayed x (x.length + 1) rest 0 m') ∧
    (m.input.pending = x → ∃ steps m',
      m.runSource steps options Source.echo = some (m', .error (.runtime .inputExhausted)) ∧
        m.Relayed x x.length [] (x.getLastD m.tape.cell) m') := by
  have hends : ∀ m' o, m.SourceEnds options Source.echo m' o ↔ Block.Shows .echo m (.ended m' o) :=
    fun m' o => sourceEnds_iff_shows Block.read_tokenize_echo hm
  have hrelays : (x.foldl relay m).tape.InRange := by
    rw [foldl_relay hm]
    exact hm.write _
  have hready : (x.foldl relay m).input.ReadyFor 1 := by
    rw [foldl_relay hm]
    exact hin.add
  have hbefore : m.input.ReadyFor x.length := hin.mono (Nat.le_succ _)
  refine ⟨fun hpending => ?_, fun hpending => ?_⟩
  · have hrelayed := relayed_foldl_relay hm hpending
    have hshows := Block.shows_echo_foldl_relay hm hbefore hout hpending hx
      (Block.shows_echo_zero hrelays hready hrelayed.pending)
    obtain ⟨steps, count, hrun⟩ := (hends _ .finished).mpr hshows
    exact ⟨steps, count, _, hrun, hrelayed.accept hm⟩
  · have hall : m.input.pending = x ++ [] := by rw [hpending, List.append_nil]
    have hrelayed := relayed_foldl_relay hm hall
    have hshows := Block.shows_echo_foldl_relay hm hbefore hout hall hx (Block.shows_echo_nil hready hrelayed.pending)
    obtain ⟨steps, hrun⟩ := (hends _ (.failed _)).mpr hshows
    exact ⟨steps, _, hrun, hrelayed⟩

end Machine

/-! ## Texts of bytes -/

theorem textOfBytes_append (bytes bytes' : List UInt8) :
    textOfBytes (bytes ++ bytes') = textOfBytes bytes ++ textOfBytes bytes' := by
  rw [textOfBytes, List.map_append, String.ofList_append, textOfBytes, textOfBytes]

/-- The characters up to U+00FF are those of the bytes. -/
theorem exists_textOfBytes_iff {text : String} : (∃ bytes, textOfBytes bytes = text) ↔ ∀ c ∈ text.toList, c.toNat ≤ 0xFF := by
  constructor
  · rintro ⟨bytes, rfl⟩ c hc
    rw [textOfBytes, String.toList_ofList] at hc
    obtain ⟨b, -, rfl⟩ := List.mem_map.mp hc
    have hb := b.toNat_lt
    rw [toNat_charOfByte]
    omega
  · intro h
    refine ⟨text.toList.map fun c => UInt8.ofNat c.toNat, ?_⟩
    have hid : ∀ c ∈ text.toList, (charOfByte ∘ fun c : Char => UInt8.ofNat c.toNat) c = id c := by
      intro c hc
      have hle := h c hc
      rw [Function.comp_apply, charOfByte, UInt8.toNat_ofNat', Nat.mod_eq_of_lt (by omega), Char.ofNat_toNat]
      rfl
    rw [textOfBytes, List.map_map, List.map_congr_left hid, List.map_id, String.ofList_toList]

/-- Two texts of characters up to U+00FF with a zero between them are one of bytes, in which the first zero is this one if the text in
front has none. -/
theorem exists_bytes_of_forall {x y : String} (hx : ∀ c ∈ x.toList, 1 ≤ c.toNat ∧ c.toNat ≤ 0xFF)
    (hy : ∀ c ∈ y.toList, c.toNat ≤ 0xFF) :
    ∃ bytes rest, 0 ∉ bytes ∧ textOfBytes bytes = x ∧ textOfBytes (bytes ++ 0 :: rest) = x ++ "\u0000" ++ y := by
  obtain ⟨bytes, rfl⟩ := exists_textOfBytes_iff.mpr fun c hc => (hx c hc).2
  obtain ⟨rest, rfl⟩ := exists_textOfBytes_iff.mpr hy
  refine ⟨bytes, rest, ?_, rfl, ?_⟩
  · intro hmem
    have hc : charOfByte 0 ∈ (textOfBytes bytes).toList := by
      rw [textOfBytes, String.toList_ofList]
      exact List.mem_map_of_mem hmem
    exact absurd (hx _ hc).1 (by decide)
  · rw [← List.singleton_append, textOfBytes_append, textOfBytes_append, String.append_assoc]
    rfl

namespace Service

/-- The bytes of a text are told by the numbers of its characters. -/
theorem bytesJson_eq (bytes : List UInt8) :
    bytesJson bytes = .array ((textOfBytes bytes).toList.map fun c => .integer c.toNat) := by
  rw [textOfBytes, String.toList_ofList, List.map_map, bytesJson]
  congr 2
  funext b
  simp only [Function.comp_apply, toNat_charOfByte]

/-- A request to run a text with an input on a machine of its own, whose other fields hold what they may hold. -/
def Request.Brings (request : Request) (code input : String) : Prop :=
  request.RunsOnce ∧ ∃ object capacity, Json.ofText request.body = .ok object ∧ object.IsObject ∧
    object.field? "code" = some (.string code) ∧ object.field? "input" = some (.string input) ∧
    (∀ name value, object.field? name = some value → name ≠ "code" → name ≠ "input" → Accepts name value) ∧
    readTapeSize object = .ok capacity

/-- There is such a request for every text to run and every text of bytes. -/
theorem exists_brings (code : String) (bytes : List UInt8) : ∃ request : Request, request.Brings code (textOfBytes bytes) := by
  have hmax : ((1 : Nat) : Int) ≤ maxCapacity := by decide
  have hcapacity := readTapeSize_runFields code.toList bytes {} Nat.one_pos hmax
  refine ⟨runRequest code.toList bytes {} 1, runsOnce_runRequest _ _ _ _, _, _, ofText_runRequest _ _ _ Nat.one_pos hmax, trivial,
    ?_, rfl, ?_, hcapacity⟩
  · exact congrArg (fun text => some (Json.string text)) String.ofList_toList
  · intro name value hvalue hcode hinput
    refine ⟨fun h => absurd h hcode, fun h => absurd h hinput, ?_, ?_⟩
    · rintro (rfl | rfl)
      · cases hvalue
        exact ⟨_, rfl⟩
      · cases hvalue
        exact ⟨_, rfl⟩
    · rintro rfl
      cases hvalue

variable {request : Request} {code : String}

/-- A field is in order if its reader has no complaint about what it holds. -/
theorem exists_field {α : Type} {object : Json} {name : String} {absent : α} {reader : Reader α}
    (h : ∀ value, object.field? name = some value → ∃ a, reader value = .ok a) :
    ∃ a, field object name absent reader = .ok a := by
  cases hfield : object.field? name with
  | none => exact ⟨absent, field_eq_ok_iff.mpr (Or.inl ⟨hfield, rfl⟩)⟩
  | some value =>
    obtain ⟨a, hread⟩ := h value hfield
    exact ⟨a, field_eq_ok_iff.mpr (Or.inr ⟨value, hfield, hread⟩)⟩

/-- What such a request asks for, if its input is the text of some bytes. -/
theorem asks_of_brings {bytes : List UInt8} (h : request.Brings code (textOfBytes bytes)) :
    ∃ options capacity, 1 ≤ capacity ∧ request.Asks code.toList bytes options capacity := by
  obtain ⟨hruns, object, capacity, hread, hobject, hcode, hinput, hothers, hcapacity⟩ := h
  have hsource : field object "code" "" readText = .ok code := field_eq_ok_iff.mpr (Or.inr ⟨_, hcode, rfl⟩)
  have hbytes : field object "input" [] readBytes = .ok bytes := by
    refine field_eq_ok_iff.mpr (Or.inr ⟨_, hinput, ?_⟩)
    rw [readBytes, bytesOfText?_textOfBytes]
  obtain ⟨optimize, hoptimize⟩ : ∃ b, field object "optimize" true readSwitch = .ok b :=
    exists_field fun value hvalue => (hothers _ value hvalue (by decide) (by decide)).switch (Or.inl rfl)
  obtain ⟨compress, hcompress⟩ : ∃ b, field object "compress" true readSwitch = .ok b :=
    exists_field fun value hvalue => (hothers _ value hvalue (by decide) (by decide)).switch (Or.inr rfl)
  obtain ⟨window, hwindow⟩ : ∃ n, field object "tape_window" defaultWindow readNatural = .ok n :=
    exists_field fun value hvalue =>
      exists_readNatural_iff.mpr ((hothers _ value hvalue (by decide) (by decide)).window rfl)
  have hprogram : readProgram object = .ok ⟨code.toList, bytes, ⟨optimize, compress⟩, window⟩ := by
    simp only [readProgram, hsource, hbytes, hoptimize, hcompress, hwindow]
  refine ⟨⟨optimize, compress⟩, capacity, (capacity_of_readTapeSize hcapacity).1, window, ?_⟩
  have hrun : readRun object = .ok (⟨code.toList, bytes, ⟨optimize, compress⟩, window⟩, capacity) :=
    readRun_eq_ok_iff.mpr ⟨hprogram, hcapacity⟩
  rw [call_of_runsOnce hruns, readBody_of_isObject hread hobject, hrun]
  rfl

/-- The service passes on a text without a zero, whatever follows it and whatever else the request says. -/
theorem handle_echo {bytes rest : List UInt8} (hbytes : 0 ∉ bytes)
    (h : request.Brings ",[.,]" (textOfBytes (bytes ++ 0 :: rest))) (s : Store) :
    ∃ n reply, (∀ steps, n ≤ steps → handle steps s request = some (reply, s)) ∧ reply.status = 200 ∧ reply.Gives bytes := by
  obtain ⟨options, capacity, hcapacity, hasks⟩ := asks_of_brings h
  obtain ⟨window, hhandle⟩ := handle_eq hasks (Machine.create_eq_ok_iff.mpr ⟨hcapacity, rfl⟩)
  have hfresh : (Tape.blank capacity.toNat).InRange := Tape.inRange_blank (by omega)
  obtain ⟨n, count, m, hrun, hrelayed⟩ :=
    (Machine.runSource_echo (m := Machine.feed ⟨capacity, .blank capacity.toNat, {}, {}⟩ (bytes ++ 0 :: rest)) hfresh hbytes
      allows_none allows_none options).1 rfl
  have hwritten : m.output.written.toList = bytes := hrelayed.written
  refine ⟨n, Reply.ofEnd window (m, .ok count), ?_, rfl, hwritten ▸ gives_ran _ _ _⟩
  intro steps hsteps
  rw [hhandle]
  exact congrArg (Option.map _) (Machine.runSource_of_le hsteps hrun)

end Service

/-- The echo is transparent to bytes. On a machine in use, of any capacity and under all settings, it passes on a text without a zero.
If a zero follows the text it ends well, with the zero read and in the cell, and what follows the zero is not read. If nothing follows
the text it fails for want of input, with the last byte of the text in the cell, or what was there if the text is empty. It is
enough that the streams do not fail on so many reads and writes. Over the service a text of characters comes back as it was sent, with
their numbers, on a machine of any size and whatever else the request says; every text can be sent. -/
theorem echo_transparent :
    (∀ (m : Machine) (x : List UInt8) (options : Program.Options), m.tape.InRange → 0 ∉ x →
      m.input.ReadyFor (x.length + 1) → m.output.HasRoomFor x.length →
        (∀ y, m.input.pending = x ++ 0 :: y → ∃ steps count m',
          m.runSource steps options [',', '[', '.', ',', ']'] = some (m', .ok count) ∧ m.Relayed x (x.length + 1) y 0 m') ∧
        (m.input.pending = x → ∃ steps cause m',
          m.runSource steps options [',', '[', '.', ',', ']'] = some (m', .error (.runtime cause)) ∧
            cause.message = "Input stream exhausted" ∧ m.Relayed x x.length [] (x.getLastD m.tape.cell) m')) ∧
      ∀ x y : String, (∀ c ∈ x.toList, 1 ≤ c.toNat ∧ c.toNat ≤ 0xFF) → (∀ c ∈ y.toList, c.toNat ≤ 0xFF) →
        (∃ request : Service.Request, request.Brings ",[.,]" (x ++ "\u0000" ++ y)) ∧
          ∀ (request : Service.Request) (s : Store), request.Brings ",[.,]" (x ++ "\u0000" ++ y) →
            ∃ n reply, (∀ steps, n ≤ steps → Service.handle steps s request = some (reply, s)) ∧ reply.status = 200 ∧
              reply.body.field? "output" = some (.string x) ∧
              reply.body.field? "output_bytes" = some (.array (x.toList.map fun c => .integer c.toNat)) := by
  refine ⟨fun m x options hm hx hin hout => ⟨fun y => ?_, fun hpending => ?_⟩, fun x y hx hy => ?_⟩
  · exact (Machine.runSource_echo hm hx hin hout options).1
  · obtain ⟨steps, m', hrun, hrelayed⟩ := (@Machine.runSource_echo m x [] hm hx hin hout options).2 hpending
    exact ⟨steps, .inputExhausted, m', hrun, rfl, hrelayed⟩
  · obtain ⟨bytes, rest, hbytes, rfl, hinput⟩ := exists_bytes_of_forall hx hy
    rw [← hinput]
    refine ⟨Service.exists_brings _ _, fun request s h => ?_⟩
    obtain ⟨n, reply, hhandle, hstatus, hgives⟩ := Service.handle_echo hbytes h s
    exact ⟨n, reply, hhandle, hstatus, hgives.text, Service.bytesJson_eq bytes ▸ hgives.numbers⟩

/-- On two cells the echo passes on the bytes 3 and 255 and leaves the 9 behind the zero. Without the zero it fails with 255 in the
cell, on streams that would fail on one more read and write. The service passes on the text `é` and leaves the `z`. -/
theorem echo_transparent_latin :
    let ended : Machine := ⟨2, ⟨#[5, 7], 1⟩, { pending := [3, 255, 0, 9] }, {}⟩
    let failed : Machine := ⟨2, ⟨#[5, 7], 1⟩, ⟨[3, 255], 0, some 3⟩, ⟨#[], some 2⟩⟩
    let request : Service.Request :=
      ⟨"POST", "/api/run", "\x7b\"code\":\",[.,]\",\"input\":\"\\u00e9\\u0000z\",\"compress\":\"no\"\x7d"⟩
    (∃ steps count m', ended.runSource steps {} [',', '[', '.', ',', ']'] = some (m', .ok count) ∧
      ended.Relayed [3, 255] 3 [9] 0 m') ∧
      (∃ steps cause m', failed.runSource steps ⟨false, true⟩ [',', '[', '.', ',', ']'] = some (m', .error (.runtime cause)) ∧
        cause.message = "Input stream exhausted" ∧ failed.Relayed [3, 255] 2 [] 255 m') ∧
      request.Brings ",[.,]" "é\u0000z" ∧
      ∃ n reply, Service.handle n {} request = some (reply, {}) ∧ reply.status = 200 ∧
        reply.body.field? "output" = some (.string "é") ∧ reply.body.field? "output_bytes" = some (.array [.integer 0xE9]) := by
  intro ended failed request
  have hbrings : request.Brings ",[.,]" "é\u0000z" := by
    refine ⟨⟨by decide +kernel, by cbv⟩,
      .object [("code", .string ",[.,]"), ("input", .string "é\u0000z"), ("compress", .string "no")], 30000, by cbv, trivial, rfl, rfl,
      ?_, rfl⟩
    intro name value hvalue hcode hinput
    obtain ⟨rfl, rfl⟩ : name = "compress" ∧ value = .string "no" := by
      unfold Json.field? Json.lastOf at hvalue
      grind
    exact Service.accepts_iff.mpr (by decide +kernel)
  obtain ⟨hmachine, hservice⟩ := echo_transparent
  obtain ⟨n, reply, hhandle, hstatus, houtput, hbytes⟩ := (hservice "é" "z" (by simp) (by simp)).2 request {} hbrings
  refine ⟨?_, ?_, hbrings, n, reply, hhandle n (Nat.le_refl n), hstatus, houtput, hbytes⟩
  · exact (hmachine ended [3, 255] {} (by decide) (by decide) (by decide) (by decide)).1 [9] rfl
  · exact (hmachine failed [3, 255] ⟨false, true⟩ (by decide) (by decide) (by decide) (by decide)).2 rfl

end Brainfuck
