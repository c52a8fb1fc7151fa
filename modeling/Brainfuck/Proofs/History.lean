import Brainfuck.Proofs.Lives

/-!
# Histories

The service refines the machine. After requests that were answered one after another, the record of every live machine is what
the exchanges tell of its life (`Told`). One exchange keeps this, and so it holds after every history and before each of its
exchanges. What a program is answered with as its output is what it wrote on the machine that its life has made so far
(`handleAll_tells`).
-/

namespace Brainfuck.Service

variable {steps : Nat} {s s' : Store} {reply : Reply} {id : String} {program : ProgramBody}

/-! ## Whole histories -/

/-- The life of a machine goes on with the event that the next exchange is to it. -/
theorem life?_append_singleton (id : String) (past : List Exchange) (exchange : Exchange) :
    life? id (past ++ [exchange]) = (event? id exchange).elim (life? id past) (Life.after (life? id past)) := by
  unfold life?
  rw [List.filterMap_append]
  cases h : event? id exchange with
  | none => simp [h]
  | some event => simp [h]

/-- Requests are answered one by one: the first one, and the others with the store after it. -/
theorem exists_of_handleAll_cons {request : Request} {rest : List Request} {replies : List Reply}
    (h : handleAll steps s (request :: rest) = some (replies, s')) :
    ∃ reply s₁ others, handle steps s request = some (reply, s₁) ∧ handleAll steps s₁ rest = some (others, s') ∧
      replies = reply :: others := by
  obtain ⟨⟨reply, s₁⟩, hhandle, h⟩ := Option.bind_eq_some_iff.mp h
  obtain ⟨⟨others, s₂⟩, hrest, heq⟩ := Option.map_eq_some_iff.mp h
  cases heq
  exact ⟨reply, s₁, others, hhandle, hrest, rfl⟩

/-- A history tells a store: every live machine has a life in the history, which tells its record, and no other machine has. -/
structure Told (steps : Nat) (past : List Exchange) (s : Store) : Prop where
  issued : s.Issued
  lives : ∀ id, Option.Rel (Life.Tells steps) (life? id past) (s.get? id)

variable {past : List Exchange} {requests : List Request} {replies : List Reply}

theorem told_empty (steps : Nat) : Told steps [] {} := ⟨Store.issued_empty, fun _ => .none⟩

/-- A live machine has a life that tells its record. -/
theorem Told.exists_life {r : Record} (hs : Told steps past s) (hget : s.get? id = some r) :
    ∃ life, life? id past = some life ∧ life.Tells steps r := by
  have hlives := hs.lives id
  rw [hget] at hlives
  generalize life? id past = told at hlives
  cases hlives with
  | some htells => exact ⟨_, rfl, htells⟩

/-- One more exchange tells the store after it. -/
theorem Told.handle {request : Request} (hs : Told steps past s) (h : handle steps s request = some (reply, s')) :
    Told steps (past ++ [(request, reply)]) s' := by
  refine ⟨issued_of_handle hs.issued h, ?_⟩
  intro id
  rw [life?_append_singleton]
  exact Life.tells_of_effect (hs.lives id) (effect_of_handle hs.issued h id)

/-- The exchanges that follow on a history tell the store after them. -/
theorem Told.handleAll (hs : Told steps past s) (h : handleAll steps s requests = some (replies, s')) :
    Told steps (past ++ requests.zip replies) s' := by
  induction requests generalizing past s replies with
  | nil =>
    cases h
    simpa using hs
  | cons request rest ih =>
    obtain ⟨reply, s₁, others, hhandle, hrest, rfl⟩ := exists_of_handleAll_cons h
    have htold := ih (hs.handle hhandle) hrest
    simpa using htold

/-- The store before an exchange of the history is told by the exchanges before. -/
theorem Told.exists_handle {before after : List Exchange} {exchange : Exchange} (hs : Told steps past s)
    (h : Service.handleAll steps s requests = some (replies, s'))
    (hsplit : requests.zip replies = before ++ exchange :: after) :
    ∃ s₁ s₂, Told steps (past ++ before) s₁ ∧ Service.handle steps s₁ exchange.1 = some (exchange.2, s₂) := by
  induction requests generalizing past s replies before with
  | nil => simp at hsplit
  | cons request rest ih =>
    obtain ⟨reply, s₁, others, hhandle, hrest, rfl⟩ := exists_of_handleAll_cons h
    rw [List.zip_cons_cons] at hsplit
    cases before with
    | nil =>
      cases hsplit
      refine ⟨s, s₁, ?_, hhandle⟩
      simpa using hs
    | cons first before =>
      obtain ⟨rfl, htail⟩ := List.cons.inj hsplit
      obtain ⟨s₂, s₃, htold, hexchange⟩ := ih (hs.handle hhandle) hrest htail
      refine ⟨s₂, s₃, ?_, hexchange⟩
      simpa using htold

/-- Every request that is answered has its reply. -/
theorem length_of_handleAll (h : handleAll steps s requests = some (replies, s')) : replies.length = requests.length := by
  induction requests generalizing s replies with
  | nil =>
    cases h
    rfl
  | cons request rest ih =>
    obtain ⟨reply, s₁, others, -, hrest, rfl⟩ := exists_of_handleAll_cons h
    rw [List.length_cons, List.length_cons, ih hrest]

/-! ## Output -/

/-- A reply gives bytes as the output of a program: as a text that reads back as the bytes, and as numbers. -/
structure Reply.Gives (reply : Reply) (bytes : List UInt8) : Prop where
  text : reply.body.field? "output" = some (.string (textOfBytes bytes))
  readBack : bytesOfText? (textOfBytes bytes) = some bytes
  numbers : reply.body.field? "output_bytes" = some (bytesJson bytes)

theorem gives_ran (output : List UInt8) (tokenCount : Nat) (state : State) :
    (Reply.ran output tokenCount state).Gives output :=
  ⟨by simp [Reply.body, Json.field?, Json.lastOf], bytesOfText?_textOfBytes output,
    by simp [Reply.body, Json.field?, Json.lastOf]⟩

/-- A program that a stored machine ran to its end wrote what the reply gives. It ran on the machine that the life so far makes. -/
theorem gives_of_runOn {request : Request} (hs : Told steps past s) (hcall : request.call = .ok (.runOn id program))
    (h : handle steps s request = some (reply, s')) (hstatus : reply.status = 200) :
    ∃ life m m' count, life? id past = some life ∧ life.machine? steps = some m ∧
      program.run steps m = some (m', .ok count) ∧ reply.Gives m'.output.written.toList := by
  rw [handle, hcall] at h
  cases exit_of_answer h with
  | @finished _ _ r m' count hget hrun =>
    obtain ⟨life, hlife, htells⟩ := hs.exists_life hget
    obtain ⟨m, hm, htape, hcapacity⟩ := htells.machine
    refine ⟨life, m, m', count, hlife, hm, ?_, gives_ran _ _ _⟩
    rw [← program.run_congr htape hcapacity, hrun]
  | runUnknown | runUncompilable | failed => simp [Reply.status] at hstatus

/-- A program that a new machine ran to its end wrote what the reply gives. -/
theorem gives_of_runOnce {request : Request} {capacity : Int} (hcall : request.call = .ok (.runOnce program capacity))
    (h : handle steps s request = some (reply, s')) (hstatus : reply.status = 200) :
    ∃ fresh m count, Machine.create capacity = .ok fresh ∧ program.run steps fresh = some (m, .ok count) ∧
      reply.Gives m.output.written.toList := by
  rw [handle, hcall] at h
  cases exit_of_answer h with
  | onceFinished hcreate hrun => exact ⟨_, _, _, hcreate, hrun, gives_ran _ _ _⟩
  | onceUncompilable | onceNoCells | onceFailed => simp [Reply.status] at hstatus

/-! ## The service refines the machine -/

/-- The service refines the machine. Let requests be answered one after another, from an empty store on. Then every live machine
has a life in the history, and its record is what the life tells: a new machine of the capacity it was created with gets to the
same tape and cursor when it runs the programs that ran since the creation or the last reset, and no others are counted. Exchanges
that are idle for a machine can be left out of the history. A program that is answered with its output wrote this output and
nothing else, on the machine that the history before makes or on a new one. -/
theorem handleAll_tells (h : handleAll steps {} requests = some (replies, s)) :
    replies.length = requests.length ∧
    (∀ id r, s.get? id = some r → ∃ life, life? id (requests.zip replies) = some life ∧ life.Tells steps r) ∧
    ∀ before exchange after, requests.zip replies = before ++ exchange :: after →
      (∀ id, Idle id exchange → life? id (requests.zip replies) = life? id (before ++ after)) ∧
      (exchange.2.status = 200 →
        (∀ id program, exchange.1.call = .ok (.runOn id program) →
          ∃ life m m' count, life? id before = some life ∧ life.machine? steps = some m ∧
            program.run steps m = some (m', .ok count) ∧ exchange.2.Gives m'.output.written.toList) ∧
        ∀ program capacity, exchange.1.call = .ok (.runOnce program capacity) →
          ∃ fresh m count, Machine.create capacity = .ok fresh ∧ program.run steps fresh = some (m, .ok count) ∧
            exchange.2.Gives m.output.written.toList) := by
  have htold : Told steps (requests.zip replies) s := (told_empty steps).handleAll h
  refine ⟨length_of_handleAll h, ?_, ?_⟩
  · intro id r hget
    exact htold.exists_life hget
  · intro before exchange after hsplit
    constructor
    · intro id hidle
      rw [hsplit]
      simp [life?, event?_of_idle hidle]
    · intro hstatus
      obtain ⟨s₁, s₂, hbefore, hhandle⟩ := (told_empty steps).exists_handle h hsplit
      constructor
      · intro id program hcall
        exact gives_of_runOn hbefore hcall hhandle hstatus
      · intro program capacity hcall
        exact gives_of_runOnce hcall hhandle hstatus

/-- A machine of two cells goes on with the tape that a failed program has left, and counts both programs. -/
theorem handleAll_tells_failed :
    ∃ requests replies s r life, handleAll 10 {} requests = some (replies, s) ∧
      replies.map (·.status) = [201, 409, 200] ∧ s.get? (Store.idOf 1) = some r ∧ r.runs = 2 ∧
      r.machine.tape = ⟨#[1, 98], 1⟩ ∧ life? (Store.idOf 1) (requests.zip replies) = some life ∧ life.Tells 10 r := by
  let requests : List Request :=
    [⟨"POST", "/api/machine", "\x7b\"tape_size\":2\x7d"⟩,
      ⟨"POST", "/api/machine/00000000000000000000000000000001/run", "\x7b\"code\":\"+>,.,\",\"input\":\"a\"\x7d"⟩,
      ⟨"POST", "/api/machine/00000000000000000000000000000001/run", "\x7b\"code\":\"+.\"\x7d"⟩]
  have hends : (handleAll 10 {} requests).map
      (fun answered => (answered.1.map (·.status), (answered.2.get? (Store.idOf 1)).map (fun r => (r.runs, r.machine.tape)))) =
      some ([201, 409, 200], some (2, ⟨#[1, 98], 1⟩)) := by decide +kernel
  obtain ⟨⟨replies, s⟩, hhistory, heq⟩ := Option.map_eq_some_iff.mp hends
  obtain ⟨hstatus, hlive⟩ := Prod.mk.inj heq
  obtain ⟨r, hget, hr⟩ := Option.map_eq_some_iff.mp hlive
  obtain ⟨hruns, htape⟩ := Prod.mk.inj hr
  obtain ⟨-, hlives, -⟩ := handleAll_tells hhistory
  obtain ⟨life, hlife, htells⟩ := hlives _ r hget
  exact ⟨requests, replies, s, r, life, hhistory, hstatus, hget, hruns, htape, hlife, htells⟩

end Brainfuck.Service
