import Brainfuck.Proofs.Bodies
import Brainfuck.Proofs.Options
import Brainfuck.Proofs.Reachable
import Brainfuck.Proofs.Texts

/-!
# Answers

What a request to a reachable store is answered with, and what it leaves of the store. The body of a request to run a program on a
stored machine is judged first, then the machine is looked up, then the program is compiled and run, and each of these steps has
its own answers. A request that is refused leaves the store alone, and a program that was run changes its own machine only.

That an invalid body is reported has two exceptions (`invalid_not_reported`): a body may be refused while it is read, and a value
at fault may be one that a report cannot quote.
-/

namespace Brainfuck

/-- A source that fails on a machine in use fails because of a stream. -/
theorem Machine.ofStream_of_runSource {m m' : Machine} {steps : Nat} {options : Program.Options} {source : List Char}
    {cause : RuntimeError} (hm : m.tape.InRange)
    (h : m.runSource steps options source = some (m', .error (.runtime cause))) : cause.ofStream = true := by
  obtain ⟨tokens, hcompile, hrun⟩ := runSource_eq_some_iff.mp h
  rw [Program.compile_eq_resolve] at hcompile
  exact Program.ofStream_of_run hcompile hm hrun

namespace Service

/-- A request to run a program on the machine of an identifier. -/
def Request.RunsOn (request : Request) (id : String) : Prop :=
  Method.ofText request.method = .post ∧ resourceAt (Address.ofText request.target.toList).place = .ok (.machineRun id)

/-- A request to run a program on a machine of its own. -/
def Request.RunsOnce (request : Request) : Prop :=
  Method.ofText request.method = .post ∧ resourceAt (Address.ofText request.target.toList).place = .ok .run

/-- The program of a request, if it brings one, comes to an end. -/
def Terminates (s : Store) (request : Request) : Prop :=
  match request.call with
  | .ok (.runOnce program capacity) => ∀ fresh, Machine.create capacity = .ok fresh → ∃ steps, program.run steps fresh ≠ none
  | .ok (.runOn id program) => ∀ r, s.get? id = some r → ∃ steps, program.run steps r.machine ≠ none
  | _ => True

/-- What the handler of a call gives: a reply to return, or a refusal that it means to make. A program fails because of a
stream. -/
def Reply.Handled : Reply → Prop
  | .ran .. | .created _ | .found _ | .deleted | .negativeWindow | .uncompilable _ | .unknown _ | .nothingToDelete _ => True
  | .failed cause => cause.ofStream = true
  | _ => False

variable {s s' : Store} {steps : Nat} {request : Request} {reply : Reply} {call : Call} {id : String}

/-! ## The call of a request -/

theorem call_of_runsOn (h : request.RunsOn id) : request.call = (readBody request.body readProgram).map (.runOn id) := by
  obtain ⟨hmethod, hresource⟩ := h
  simp [Request.call, callAt, hmethod, hresource]

theorem call_of_runsOnce (h : request.RunsOnce) :
    request.call = (readBody request.body readRun).map fun b => .runOnce b.1 b.2 := by
  obtain ⟨hmethod, hresource⟩ := h
  simp [Request.call, callAt, hmethod, hresource]

/-- A request that is no call gets its refusal, and the store is left alone. -/
theorem handle_of_error {refusal : Reply} (hcall : request.call = .error refusal) :
    handle steps s request = some (refusal, s) := by
  rw [handle, hcall]
  rfl

theorem exit_of_handle (hcall : request.call = .ok call) (h : handle steps s request = some (reply, s')) :
    Exit steps s call reply s' := by
  rw [handle, hcall] at h
  exact exit_of_answer h

/-- A body that is refused refuses its request. -/
theorem handle_of_readBody {refusal : Reply} (hruns : request.RunsOn id)
    (hread : readBody request.body readProgram = .error refusal) : handle steps s request = some (refusal, s) := by
  refine handle_of_error ?_
  rw [call_of_runsOn hruns, hread]
  rfl

theorem exit_of_readBody {program : ProgramBody} (hruns : request.RunsOn id)
    (hread : readBody request.body readProgram = .ok program) (h : handle steps s request = some (reply, s')) :
    request.call = .ok (.runOn id program) ∧ Exit steps s (.runOn id program) reply s' := by
  have hcall : request.call = .ok (.runOn id program) := by
    rw [call_of_runsOn hruns, hread]
    rfl
  exact ⟨hcall, exit_of_handle hcall h⟩

/-- The number of cells in a body is one that a machine of the service may have. -/
theorem capacity_of_readTapeSize {object : Json} {capacity : Int} (h : readTapeSize object = .ok capacity) :
    1 ≤ capacity ∧ capacity ≤ maxCapacity := by
  rcases field_eq_ok_iff.mp (mapError_eq_ok_iff.mp h) with ⟨-, rfl⟩ | ⟨value, -, hread⟩
  · decide
  · unfold readCapacity at hread
    cases hinteger : readInteger value with
    | error c => simp [hinteger] at hread
    | ok n =>
      simp only [hinteger] at hread
      split at hread
      · cases hread
      · split at hread
        · cases hread
        · cases hread
          omega

/-- What is read from a body is read from an object. -/
theorem exists_of_readBody {α : Type} {body : String} {reader : Json → Except (List Problem) α} {a : α}
    (h : readBody body reader = .ok a) : ∃ object, bodyObject body = .ok object ∧ reader object = .ok a := by
  unfold readBody at h
  cases hbody : bodyObject body with
  | error reply => simp [hbody, Except.bind] at h
  | ok object =>
    cases hread : reader object with
    | error ps => simp [hbody, hread, Except.bind, Except.mapError] at h
    | ok a' =>
      simp [hbody, hread, Except.bind, Except.mapError] at h
      exact ⟨object, rfl, h ▸ hread⟩

/-- A program and a number of cells are read from an object if each of the two is. -/
theorem readRun_eq_ok_iff {object : Json} {b : ProgramBody × Int} :
    readRun object = .ok b ↔ readProgram object = .ok b.1 ∧ readTapeSize object = .ok b.2 := by
  unfold readRun
  obtain ⟨program, capacity⟩ := b
  cases readProgram object <;> cases readTapeSize object <;> simp

/-- The calls that make a new machine ask for one that the service may have. -/
theorem capacity_of_call (h : request.call = .ok call) {capacity : Int}
    (hnew : (∃ program, call = .runOnce program capacity) ∨ call = .create capacity) : 1 ≤ capacity := by
  have hcall : callAt (Address.ofText request.target.toList) (Method.ofText request.method) request.body = .ok call := by
    unfold Request.call at h
    dsimp only at h
    split at h
    · exact mapError_eq_ok_iff.mp h
    · exact h
  -- the capacity of such a call is read from the body, and other calls have none
  unfold callAt at hcall
  split at hcall
  case h_1 => cases hcall
  split at hcall
  case h_1 =>
    obtain ⟨b, hread, rfl⟩ := map_eq_ok_iff.mp hcall
    obtain ⟨object, -, hrun⟩ := exists_of_readBody hread
    obtain ⟨program, ⟨⟩⟩ | ⟨⟨⟩⟩ := hnew
    exact (capacity_of_readTapeSize (readRun_eq_ok_iff.mp hrun).2).1
  case h_2 =>
    obtain ⟨n, hread, rfl⟩ := map_eq_ok_iff.mp hcall
    obtain ⟨object, -, hsize⟩ := exists_of_readBody hread
    obtain ⟨program, ⟨⟩⟩ | ⟨⟨⟩⟩ := hnew
    exact (capacity_of_readTapeSize hsize).1
  case h_3 | h_5 =>
    obtain ⟨b, -, rfl⟩ := map_eq_ok_iff.mp hcall
    obtain ⟨program, ⟨⟩⟩ | ⟨⟨⟩⟩ := hnew
  case h_4 | h_6 =>
    cases hcall
    obtain ⟨program, ⟨⟩⟩ | ⟨⟨⟩⟩ := hnew
  case h_7 => cases hcall

/-! ## Every request is answered -/

/-- A call is answered if its program comes to an end. -/
theorem exists_answer (h : Terminates s request) (hcall : request.call = .ok call) :
    ∃ steps reply s', answer steps s call = some (reply, s') := by
  suffices ∃ steps, answer steps s call ≠ none by
    obtain ⟨steps, hsome⟩ := this
    obtain ⟨⟨reply, s'⟩, hanswer⟩ := Option.ne_none_iff_exists'.mp hsome
    exact ⟨steps, reply, s', hanswer⟩
  simp only [ne_eq, answer_eq_none_iff, not_or]
  unfold Terminates at h
  simp only [hcall] at h
  cases call with
  | runOnce program capacity =>
    cases hcreate : Machine.create capacity with
    | error e => exact ⟨0, by simp [hcreate], by simp⟩
    | ok fresh =>
      obtain ⟨steps, hrun⟩ := h fresh hcreate
      refine ⟨steps, ?_, by simp⟩
      rintro ⟨program', capacity', fresh', ⟨⟩, hcreate', hnone⟩
      cases hcreate.symm.trans hcreate'
      exact hrun hnone
  | runOn id program =>
    cases hget : s.get? id with
    | none => exact ⟨0, by simp, by simp [hget]⟩
    | some r =>
      obtain ⟨steps, hrun⟩ := h r hget
      refine ⟨steps, by simp, ?_⟩
      rintro ⟨id', program', r', ⟨⟩, hget', hnone⟩
      cases hget.symm.trans hget'
      exact hrun hnone
  | _ => exact ⟨0, by simp, by simp⟩

/-- A request is answered if its program, should it bring one, comes to an end. -/
theorem exists_handle (h : Terminates s request) : ∃ steps reply s', handle steps s request = some (reply, s') := by
  cases hcall : request.call with
  | error refusal => exact ⟨0, refusal, s, handle_of_error hcall⟩
  | ok call =>
    obtain ⟨steps, reply, s', hanswer⟩ := exists_answer h hcall
    exact ⟨steps, reply, s', by simp [handle, hcall, hanswer]⟩

/-! ## Handlers -/

/-- On a reachable store the handler of a call gives what it means to give. -/
theorem handled_of_exit (hs : Reachable s) (hcall : request.call = .ok call) (h : Exit steps s call reply s') :
    reply.Handled := by
  have hfresh : ∀ {capacity : Int} {fresh : Machine}, Machine.create capacity = .ok fresh → fresh.tape.InRange := by
    intro capacity fresh hcreate
    obtain ⟨hcapacity, rfl⟩ := Machine.create_eq_ok_iff.mp hcreate
    exact Tape.inRange_blank (by omega)
  cases h with
  | @onceNoCells program capacity tokens e hcompile hcreate =>
    have hcapacity := capacity_of_call hcall (Or.inl ⟨program, rfl⟩)
    rw [Machine.create, if_neg (by omega)] at hcreate
    cases hcreate
  | @createNoCells capacity e hcreate =>
    have hcapacity := capacity_of_call hcall (Or.inr rfl)
    rw [Store.create, Machine.create, if_neg (by omega)] at hcreate
    cases hcreate
  | @onceFailed program capacity fresh m cause hcreate hrun =>
    have hin : fresh.tape.InRange := hfresh hcreate
    exact @Machine.ofStream_of_runSource (fresh.feed program.input) _ _ _ _ _ hin hrun
  | @failed id program r m cause hget hrun =>
    exact @Machine.ofStream_of_runSource (r.machine.feed program.input) _ _ _ _ _ (hs.sound hget).inRange hrun
  | _ => trivial

/-! ## Programs on stored machines -/

/-- What a program on the machine of an identifier is answered with: that no such machine is live, or else why the program
cannot be compiled, or else why its run failed, or else what it wrote. -/
structure RunOutcome (steps : Nat) (s : Store) (id : String) (program : ProgramBody) (reply : Reply) : Prop where
  unknown : reply.status = 404 ↔ s.get? id = none
  uncompilable : ∀ loop, reply = .uncompilable loop ↔
    ∃ r, s.get? id = some r ∧ Program.compile program.options program.source = .error loop
  failed : reply.status = 409 ↔ ∃ r m cause, s.get? id = some r ∧ program.run steps r.machine = some (m, .error (.runtime cause))
  cause : ∀ cause, reply = .failed cause →
    ∃ r m, s.get? id = some r ∧ program.run steps r.machine = some (m, .error (.runtime cause))
  ran : reply.status = 200 ↔ ∃ r m count, s.get? id = some r ∧ program.run steps r.machine = some (m, .ok count)

theorem runOutcome_of_exit {program : ProgramBody} (h : Exit steps s (.runOn id program) reply s') :
    RunOutcome steps s id program reply := by
  cases h with
  | runUnknown hget => constructor <;> simp [Reply.status, hget]
  | @runUncompilable _ _ r loop hget hcompile =>
    have hrun : program.run steps r.machine = some (r.machine.feed program.input, .error (.unmatched loop)) :=
      Machine.runSource_eq_some_iff.mpr ⟨hcompile, rfl⟩
    constructor <;> simp [Reply.status, hget, hcompile, hrun, eq_comm]
  | @finished _ _ r m count hget hrun =>
    obtain ⟨tokens, hcompile, -⟩ := Machine.runSource_eq_some_iff.mp hrun
    constructor <;> simp [Reply.status, hget, hcompile, hrun]
  | @failed _ _ r m cause hget hrun =>
    obtain ⟨tokens, hcompile, -⟩ := Machine.runSource_eq_some_iff.mp hrun
    constructor <;> simp [Reply.status, hget, hcompile, hrun]

/-! ## What is left of the store -/

/-- The statuses of refusals. -/
def refusals : List Nat := [400, 404, 405, 422, 500]

/-- A request that is refused leaves the store alone, and so does a request that only looks at something and one that runs a
program on a machine of its own. -/
theorem eq_of_handle (h : handle steps s request = some (reply, s'))
    (hquiet : reply.status ∈ refusals ∨ Method.ofText request.method = .get ∨ request.RunsOnce) : s' = s := by
  cases hcall : request.call with
  | error refusal =>
    rw [handle_of_error hcall] at h
    cases h
    rfl
  | ok call =>
    have hexit := exit_of_handle hcall h
    rcases hquiet with hstatus | hget | hruns
    · cases hexit <;> first | rfl | simp [refusals, Reply.status] at hstatus
    · obtain ⟨id, window, rfl⟩ := call_of_get hget hcall
      cases hexit <;> rfl
    · rw [call_of_runsOnce hruns] at hcall
      obtain ⟨b, -, rfl⟩ := map_eq_ok_iff.mp hcall
      cases hexit <;> rfl

/-- A program that has run on a stored machine has changed the record of this machine, and its runs by one. -/
theorem exists_of_ran (hruns : request.RunsOn id) (h : handle steps s request = some (reply, s'))
    (hstatus : reply.status = 200 ∨ reply.status = 409) :
    ∃ r m, s.get? id = some r ∧ s' = s.update (r.after m) ∧
      ∀ other, s'.get? other = if id = other then some (r.after m) else s.get? other := by
  have hend := bodyEnd_readBody request.body
  cases hread : readBody request.body readProgram with
  | ok program =>
    obtain ⟨-, hexit⟩ := exit_of_readBody hruns hread h
    cases hexit with
    | runUnknown | runUncompilable => simp [Reply.status] at hstatus
    | finished hget | failed hget => exact ⟨_, _, hget, rfl, Store.get?_update hget rfl⟩
  | error refusal =>
    rw [handle_of_readBody hruns hread] at h
    cases h
    rw [hread] at hend
    cases hend <;> simp [Reply.status] at hstatus

/-! ## Requests to reachable stores -/

/-- What a handler gives is neither a report nor the refusal of a body that cannot be read or reported. -/
theorem Reply.Handled.ne (h : reply.Handled) : reply.status ≠ 400 ∧ (∀ ps, reply ≠ .invalid ps) ∧ reply.status ≠ 500 := by
  cases reply <;> simp [Reply.status, Reply.Handled] at h ⊢

/-- What a request to run a program on the machine of an identifier is answered with, by what its body is: that it cannot be
read; or else, if it is not valid, what is at fault in it, provided that this can be quoted; or else the outcome of its
program. -/
structure RunReply (steps : Nat) (s : Store) (id body : String) (reply : Reply) : Prop where
  unreadable : reply.status = 400 ↔ Json.ofText body = .error .refused
  report : (∃ ps, reply = .invalid ps) ↔
    Json.ofText body ≠ .error .refused ∧ ¬ValidBody body ∧ ∀ value, Fault body value → value.quotable = true
  unquotable : reply.status = 500 ↔ ∃ value, Fault body value ∧ value.quotable = false
  valid : ValidBody body → ∃ program, readBody body readProgram = .ok program ∧ RunOutcome steps s id program reply

theorem runReply_of_handle (hs : Reachable s) (hruns : request.RunsOn id) (h : handle steps s request = some (reply, s')) :
    RunReply steps s id request.body reply := by
  have hend := bodyEnd_readBody request.body
  generalize hread : readBody request.body readProgram = result at hend
  cases hend with
  | @read program hvalid =>
    obtain ⟨hcall, hexit⟩ := exit_of_readBody hruns hread h
    obtain ⟨hreadable, hnofault⟩ := hvalid.not_fault
    obtain ⟨hne400, hnereport, hne500⟩ := (handled_of_exit hs hcall hexit).ne
    refine ⟨iff_of_false hne400 hreadable, iff_of_false ?_ ?_, iff_of_false hne500 ?_, ?_⟩
    · rintro ⟨ps, hreport⟩
      exact hnereport ps hreport
    · rintro ⟨-, hnot, -⟩
      exact hnot hvalid
    · rintro ⟨value, hfault, -⟩
      exact hnofault value hfault
    · exact fun _ => ⟨program, hread, runOutcome_of_exit hexit⟩
  | unreadable hrefused =>
    rw [handle_of_readBody hruns hread] at h
    cases h
    refine ⟨iff_of_true rfl hrefused, iff_of_false ?_ ?_, iff_of_false ?_ ?_, ?_⟩
    · rintro ⟨ps, ⟨⟩⟩
    · rintro ⟨hreadable, -⟩
      exact hreadable hrefused
    · decide
    · rintro ⟨value, hfault, -⟩
      exact hfault.readable hrefused
    · exact fun hvalid => absurd hrefused hvalid.not_fault.1
  | @reported ps hreadable hnot hall =>
    rw [handle_of_readBody hruns hread] at h
    cases h
    refine ⟨iff_of_false ?_ hreadable, iff_of_true ⟨ps, rfl⟩ ⟨hreadable, hnot, hall⟩, iff_of_false ?_ ?_, ?_⟩
    · simp [Reply.status]
    · simp [Reply.status]
    · rintro ⟨value, hfault, hunquotable⟩
      rw [hall value hfault] at hunquotable
      cases hunquotable
    · exact fun hvalid => absurd hvalid hnot
  | @unreportable value hfault hunquotable =>
    rw [handle_of_readBody hruns hread] at h
    cases h
    refine ⟨iff_of_false ?_ hfault.readable, iff_of_false ?_ ?_, iff_of_true rfl ⟨value, hfault, hunquotable⟩, ?_⟩
    · decide
    · rintro ⟨ps, ⟨⟩⟩
    · rintro ⟨-, -, hall⟩
      rw [hall value hfault] at hunquotable
      cases hunquotable
    · exact fun hvalid => absurd hfault (hvalid.not_fault.2 value)

/-- A request to run a program on a stored machine is refused if its body is refused while it is read. -/
theorem handle_of_refused (hruns : request.RunsOn id) (hrefused : Json.ofText request.body = .error .refused) :
    handle steps s request = some (.unreadableBody, s) := by
  have hend := bodyEnd_readBody request.body
  generalize hread : readBody request.body readProgram = result at hend
  cases hend with
  | read hvalid => exact absurd hrefused hvalid.not_fault.1
  | unreadable => exact handle_of_readBody hruns hread
  | reported hreadable => exact absurd hrefused hreadable
  | unreportable hfault => exact absurd hrefused hfault.readable

/-- Every request to a reachable store whose program terminates is answered; no handler comes to anything but a reply or a
refusal that it means to make, and stored machines can be reset. A request to run a program on a stored machine is answered by
what its body, its machine and its program are (`RunReply`). A refused request, a look and a program on a machine of its own
leave the store as it was; a program that has run on a stored machine, whether it failed or not, changes the record of this
machine only and counts as one more run of it. -/
theorem handle_outcome (hs : Reachable s) (request : Request) :
    (Terminates s request → ∃ steps reply s', handle steps s request = some (reply, s')) ∧
      (∀ id r, s.get? id = some r → r.machine.reset = .ok r.machine.cleared) ∧
      ∀ steps reply s', handle steps s request = some (reply, s') →
        (∀ call, request.call = .ok call → reply.Handled) ∧
        (∀ id, request.RunsOn id → RunReply steps s id request.body reply) ∧
        (reply.status ∈ refusals ∨ Method.ofText request.method = .get ∨ request.RunsOnce → s' = s) ∧
        ∀ id, request.RunsOn id → reply.status = 200 ∨ reply.status = 409 →
          ∃ r r', s.get? id = some r ∧ r'.id = r.id ∧ r'.runs = r.runs + 1 ∧
            (∀ other, s'.get? other = if id = other then some r' else s.get? other) ∧
            s'.records.map (·.id) = s.records.map (·.id) := by
  refine ⟨exists_handle, fun id r hget => (hs.sound hget).reset_eq_ok, ?_⟩
  intro steps reply s' h
  refine ⟨?_, fun id hruns => runReply_of_handle hs hruns h, eq_of_handle h, ?_⟩
  · intro call hcall
    exact handled_of_exit hs hcall (exit_of_handle hcall h)
  · intro id hruns hstatus
    obtain ⟨r, m, hget, rfl, hother⟩ := exists_of_ran hruns h hstatus
    exact ⟨r, r.after m, hget, rfl, rfl, hother, Store.map_id_update s _⟩

/-- A machine that was just created runs `+>,.,` on the input `a`. The program fails at its second read, and the reply says
so; the run counts all the same. -/
theorem handle_outcome_failed :
    ∃ s s' request reply r, Reachable s ∧ Request.RunsOn request (Store.idOf 1) ∧
      handle 9 s request = some (reply, s') ∧ reply.status = 409 ∧ s'.get? (Store.idOf 1) = some r ∧ r.runs = 1 := by
  let s : Store := ⟨1, [⟨Store.idOf 1, ⟨2, .blank 2, {}, {}⟩, 0⟩]⟩
  let request : Request :=
    ⟨"POST", "/api/machine/00000000000000000000000000000001/run", "\x7b\"code\":\"+>,.,\",\"input\":\"a\"\x7d"⟩
  have hcreate : (handle 0 {} ⟨"POST", "/api/machine", "\x7b\"tape_size\":2\x7d"⟩).map (·.2) = some s := by decide +kernel
  obtain ⟨⟨created, s₁⟩, hcreated, rfl⟩ := Option.map_eq_some_iff.mp hcreate
  have hs : Reachable s := Reachable.empty.handle hcreated
  have hruns : request.RunsOn (Store.idOf 1) := ⟨by decide +kernel, by cbv⟩
  have hends : (handle 9 s request).map (fun answered => answered.1.status) = some 409 := by decide +kernel
  obtain ⟨⟨reply, s'⟩, hhandle, hstatus⟩ := Option.map_eq_some_iff.mp hends
  obtain ⟨-, -, houtcome⟩ := handle_outcome hs request
  obtain ⟨-, -, -, hran⟩ := houtcome 9 reply s' hhandle
  obtain ⟨r, r', hget, -, hcounts, hother, -⟩ := hran _ hruns (Or.inr hstatus)
  obtain rfl : r = ⟨Store.idOf 1, ⟨2, .blank 2, {}, {}⟩, 0⟩ := Option.some.inj (hget.symm.trans (by decide +kernel))
  exact ⟨s, s', request, reply, r', hs, hruns, hhandle, hstatus, by rw [hother, if_pos rfl], hcounts⟩

/-- A body that is not valid need not be reported. The window of the first one is no number that a report can quote, and the
second one, a thousand arrays inside each other, is refused while it is read. -/
theorem invalid_not_reported :
    let unquotable : Request := ⟨"POST", "/api/machine/x/run", "\x7b\"tape_window\":NaN\x7d"⟩
    let nested : Request :=
      ⟨"POST", "/api/machine/x/run", String.ofList (List.replicate 1000 '[' ++ List.replicate 1000 ']')⟩
    (unquotable.RunsOn "x" ∧ ¬ValidBody unquotable.body ∧ handle 0 {} unquotable = some (.internalError, {})) ∧
      nested.RunsOn "x" ∧ ¬ValidBody nested.body ∧ handle 0 {} nested = some (.unreadableBody, {}) := by
  intro unquotable nested
  have hruns : unquotable.RunsOn "x" ∧ nested.RunsOn "x" := ⟨⟨by decide +kernel, by cbv⟩, by decide +kernel, by cbv⟩
  have hunquotable : handle 0 {} unquotable = some (.internalError, {}) := by decide +kernel
  have hrefused : Json.ofText nested.body = .error .refused := Json.ofText_replicate (by decide) _
  have hnested : handle 0 {} nested = some (.unreadableBody, {}) := handle_of_refused hruns.2 hrefused
  refine ⟨⟨hruns.1, ?_, hunquotable⟩, hruns.2, fun hvalid => hvalid.not_fault.1 hrefused, hnested⟩
  intro hvalid
  obtain ⟨value, hfault, -⟩ := (runReply_of_handle .empty hruns.1 hunquotable).unquotable.mp rfl
  exact hvalid.not_fault.2 value hfault

end Service

end Brainfuck
