import Brainfuck.Proofs.Calls
import Mathlib.Data.Option.Basic

/-!
# Lives

What the requests to the service and its replies tell about a stored machine. An exchange is an event for the machine if it
creates it, runs a program on it, resets it or deletes it (`event?`); all other exchanges tell nothing about it. A life is the
capacity that the machine was created with and the programs that have run on it since it was created or last reset (`Life`), and
it makes a machine: a new one of that capacity on which the programs are run in order (`Life.machine?`).

An exchange does to the record of every machine what its event says (`effect_of_handle`), and a record that is what a life tells
stays so when both go through an event (`Life.tells_of_effect`).
-/

namespace Brainfuck.Service

/-! ## Lives -/

/-- A request with the reply to it. -/
abbrev Exchange : Type := Request × Reply

/-- What happens to a stored machine. -/
inductive Event where
  | created (capacity : Int)
  | ran (program : ProgramBody)
  | reset
  | deleted
  deriving DecidableEq, Repr

/-- What a call with its reply is to the machine of an identifier. A program has run if the reply is that it came to its end or
that it failed. -/
def Call.event? (id : String) : Call → Reply → Option Event
  | .create capacity, .created state => if state.machineId = some id then some (.created capacity) else none
  | .runOn id' program, reply =>
    if id' = id ∧ (reply.status = 200 ∨ reply.status = 409) then some (.ran program) else none
  | .reset id', reply => if id' = id ∧ reply.status = 200 then some .reset else none
  | .delete id', reply => if id' = id ∧ reply.status = 204 then some .deleted else none
  | _, _ => none

/-- What an exchange is to the machine of an identifier. -/
def event? (id : String) (exchange : Exchange) : Option Event :=
  match exchange.1.call with
  | .ok call => call.event? id exchange.2
  | .error _ => none

/-- The machine after the programs of some bodies, run in order, each with its own input on new streams. A program that fails
leaves what it did. -/
def runAll (steps : Nat) : List ProgramBody → Machine → Option Machine
  | [], m => some m
  | program :: rest, m => (program.run steps m).bind fun (m, _) => runAll steps rest m

/-- The life of a machine so far: the capacity that it was created with, and the programs that have run on it since then or since
it was last reset, the first one first. -/
structure Life where
  capacity : Int
  programs : List ProgramBody
  deriving DecidableEq, Repr

namespace Life

/-- The life of a machine after an event, if the machine lives on. -/
def after (life : Option Life) : Event → Option Life
  | .created capacity => some ⟨capacity, []⟩
  | .ran program => life.map fun l => { l with programs := l.programs ++ [program] }
  | .reset => life.map fun l => { l with programs := [] }
  | .deleted => none

/-- The machine that a life makes of a new one on which its programs are run. -/
def machine? (steps : Nat) (life : Life) : Option Machine :=
  (Machine.create life.capacity).toOption.bind (runAll steps life.programs)

/-- A record is what a life tells: its machine has the tape, with the cursor on it, and the capacity of the machine that the life
makes, and the runs are as many as the programs. -/
structure Tells (steps : Nat) (life : Life) (r : Record) : Prop where
  machine : ∃ m, life.machine? steps = some m ∧ r.machine.tape = m.tape ∧ r.machine.capacity = m.capacity
  runs : r.runs = life.programs.length

end Life

/-- The life of the machine of an identifier as the exchanges tell it. -/
def life? (id : String) (exchanges : List Exchange) : Option Life :=
  (exchanges.filterMap (event? id)).foldl Life.after none

/-! ## One exchange -/

/-- What an event does to the record of a machine, which is none if the machine is not live. -/
inductive Effect (steps : Nat) : Option Event → Option Record → Option Record → Prop
  | kept (r : Option Record) : Effect steps none r r
  | created {capacity : Int} {m : Machine} (id : String) (hcreate : Machine.create capacity = .ok m) :
      Effect steps (some (.created capacity)) none (some ⟨id, m, 0⟩)
  | ran {program : ProgramBody} {r : Record} {m : Machine} {result : Except RunError Nat}
      (hrun : program.run steps r.machine = some (m, result)) :
      Effect steps (some (.ran program)) (some r) (some (r.after m))
  | reset (r : Record) : Effect steps (some .reset) (some r) (some r.cleared)
  | deleted (r : Record) : Effect steps (some .deleted) (some r) none

variable {steps : Nat} {s s' : Store} {call : Call} {reply : Reply} {id : String}

/-- What happens to the record of one machine is the effect of an event of this machine and of no other. -/
theorem effect_of_get? {event : Event} {before after : Option Record} (h : Effect steps (some event) before after)
    (hbefore : s.get? id = before) (hafter : ∀ other, s'.get? other = if id = other then after else s.get? other)
    (other : String) :
    Effect steps (if id = other then some event else none) (s.get? other) (s'.get? other) := by
  rw [hafter]
  by_cases hother : id = other
  · rw [if_pos hother, if_pos hother, ← hother, hbefore]
    exact h
  · rw [if_neg hother, if_neg hother]
    exact .kept _

/-- A call that is answered has the effect of the event that it is to each machine. -/
theorem effect_of_exit (hs : s.Issued) (h : Exit steps s call reply s') (other : String) :
    Effect steps (call.event? other reply) (s.get? other) (s'.get? other) := by
  cases h with
  | @created capacity r _ hcreate =>
    obtain ⟨m, hm, hr, -⟩ := Store.create_eq_ok hcreate
    have hnone : s.get? r.id = none := by
      rw [hr]
      exact hs.get?_next
    have heffect : Effect steps (some (.created capacity)) none (some r) := by
      rw [hr]
      exact .created _ hm
    have hother := effect_of_get? heffect hnone (Store.get?_create hs hcreate) other
    simpa [Call.event?, State.ofRecord, State.ofMachine] using hother
  | finished hget hrun | failed hget hrun =>
    have hother := effect_of_get? (.ran hrun) hget (Store.get?_update hget rfl) other
    simpa [Call.event?, Reply.status] using hother
  | reset hget =>
    have hother := effect_of_get? (@Effect.reset steps _) hget (Store.get?_update hget rfl) other
    simpa [Call.event?, Reply.status] using hother
  | deleted hget =>
    have hother := effect_of_get? (@Effect.deleted steps _) hget (Store.get?_erase s _) other
    simpa [Call.event?, Reply.status] using hother
  | _ => simpa [Call.event?, Reply.status] using @Effect.kept steps (s.get? other)

/-- After a call all live machines have identifiers that were issued, if they had before. -/
theorem issued_of_exit (hs : s.Issued) (h : Exit steps s call reply s') : s'.Issued := by
  cases h with
  | created hcreate => exact hs.create hcreate
  | finished | failed | reset => exact hs.update _
  | deleted => exact hs.erase _
  | _ => exact hs

/-- A request that is answered has the effect of the event that it is to each machine. -/
theorem effect_of_handle {request : Request} (hs : s.Issued) (h : handle steps s request = some (reply, s')) (id : String) :
    Effect steps (event? id (request, reply)) (s.get? id) (s'.get? id) := by
  unfold handle at h
  unfold event?
  cases hcall : request.call with
  | ok call =>
    rw [hcall] at h
    exact effect_of_exit hs (exit_of_answer h) id
  | error refusal =>
    rw [hcall] at h
    cases h
    exact .kept _

/-- After a request all live machines have identifiers that were issued, if they had before. -/
theorem issued_of_handle {request : Request} (hs : s.Issued) (h : handle steps s request = some (reply, s')) : s'.Issued := by
  unfold handle at h
  cases hcall : request.call with
  | ok call =>
    rw [hcall] at h
    exact issued_of_exit hs (exit_of_answer h)
  | error refusal =>
    rw [hcall] at h
    cases h
    exact hs

/-! ## What a life tells -/

variable {life : Life} {r : Record} {m m' : Machine} {program : ProgramBody}

theorem capacity_of_runAll {programs : List ProgramBody} (h : runAll steps programs m = some m') :
    m'.capacity = m.capacity := by
  induction programs generalizing m with
  | nil =>
    cases h
    rfl
  | cons program rest ih =>
    obtain ⟨⟨m₁, result⟩, hrun, hrest⟩ := Option.bind_eq_some_iff.mp h
    have hkept : m₁.capacity = (m.feed program.input).capacity := Machine.capacity_of_runSource hrun
    exact (ih hrest).trans hkept

/-- A program sees nothing of a machine but its tape and its capacity. -/
theorem ProgramBody.run_congr (program : ProgramBody) (htape : m.tape = m'.tape) (hcapacity : m.capacity = m'.capacity) :
    program.run steps m = program.run steps m' := by
  rw [run, run, Machine.feed_congr htape hcapacity]

theorem runAll_append {programs programs' : List ProgramBody} :
    runAll steps (programs ++ programs') m = (runAll steps programs m).bind (runAll steps programs') := by
  induction programs generalizing m with
  | nil => rfl
  | cons program rest ih => simp only [List.cons_append, runAll, ih, Option.bind_assoc]

namespace Life

theorem machine?_eq_some_iff :
    life.machine? steps = some m ↔
      ∃ fresh, Machine.create life.capacity = .ok fresh ∧ runAll steps life.programs fresh = some m := by
  unfold machine?
  cases Machine.create life.capacity with
  | error e => simp [Except.toOption]
  | ok fresh => simp [Except.toOption]

/-- A new machine is what its life tells. -/
theorem tells_created {capacity : Int} (id : String) (h : Machine.create capacity = .ok m) :
    Tells steps ⟨capacity, []⟩ ⟨id, m, 0⟩ :=
  ⟨⟨m, machine?_eq_some_iff.mpr ⟨m, h, rfl⟩, rfl, rfl⟩, rfl⟩

/-- One more program on a machine is one more program of its life, which starts from the same tape on the same new streams. -/
theorem Tells.after {result : Except RunError Nat} (h : Tells steps life r)
    (hrun : program.run steps r.machine = some (m, result)) :
    Tells steps { life with programs := life.programs ++ [program] } (r.after m) := by
  obtain ⟨⟨m₀, hm₀, htape, hcapacity⟩, hruns⟩ := h
  obtain ⟨fresh, hfresh, hall⟩ := machine?_eq_some_iff.mp hm₀
  have hrun' : program.run steps m₀ = some (m, result) := by
    rw [← program.run_congr htape hcapacity, hrun]
  refine ⟨⟨m, machine?_eq_some_iff.mpr ⟨fresh, hfresh, ?_⟩, rfl, rfl⟩, ?_⟩
  · simp [runAll_append, hall, runAll, hrun']
  · simp [Record.after, hruns]

/-- A machine that was reset has forgotten its programs. -/
theorem Tells.cleared (h : Tells steps life r) : Tells steps { life with programs := [] } r.cleared := by
  obtain ⟨⟨m, hm, -, hcapacity⟩, -⟩ := h
  obtain ⟨fresh, hfresh, hall⟩ := machine?_eq_some_iff.mp hm
  have hkept : r.machine.capacity = fresh.capacity := hcapacity.trans (capacity_of_runAll hall)
  obtain ⟨-, hblank⟩ := Machine.create_eq_ok_iff.mp hfresh
  refine ⟨⟨fresh, machine?_eq_some_iff.mpr ⟨fresh, hfresh, rfl⟩, ?_, hkept⟩, rfl⟩
  rw [Record.cleared, Machine.cleared, hkept, hblank]

/-- An event has the same effect on the life of a machine as on its record. -/
theorem tells_of_effect {before : Option Life} {event : Option Event} {r r' : Option Record}
    (h : Option.Rel (Tells steps) before r) (he : Effect steps event r r') :
    Option.Rel (Tells steps) (event.elim before (after before)) r' := by
  cases he with
  | kept => exact h
  | created id hcreate => exact .some (tells_created id hcreate)
  | ran hrun =>
    cases h with
    | some h => exact .some (h.after hrun)
  | reset r =>
    cases h with
    | some h => exact .some h.cleared
  | deleted => exact .none

end Life

/-! ## Exchanges that tell nothing -/

/-- The stored machine that a call is about. -/
def Call.id? : Call → Option String
  | .inspect id _ | .runOn id _ | .reset id | .delete id => some id
  | .runOnce _ _ | .create _ => none

/-- An exchange is idle for a machine if it is refused, if it only looks at something, if it runs a program on a machine of its
own, or if it is about another machine or creates another one. -/
inductive Idle (id : String) : Exchange → Prop
  | refused {request : Request} {reply : Reply} (h : reply.status = 404 ∨ reply.status = 405 ∨ reply.status = 422) :
      Idle id (request, reply)
  | look {request : Request} {reply : Reply} (h : Method.ofText request.method = .get) : Idle id (request, reply)
  | once {request : Request} {reply : Reply} {program : ProgramBody} {capacity : Int}
      (h : request.call = .ok (.runOnce program capacity)) : Idle id (request, reply)
  | about {request : Request} {reply : Reply} {call : Call} {other : String} (hcall : request.call = .ok call)
      (hother : call.id? = some other) (hne : other ≠ id) : Idle id (request, reply)
  | creates {request : Request} {state : State} (hne : state.machineId ≠ some id) : Idle id (request, .created state)

/-- A call with the method of a look looks at a machine. -/
theorem call_of_get {request : Request} (hmethod : Method.ofText request.method = .get) (h : request.call = .ok call) :
    ∃ id window, call = .inspect id window := by
  unfold Request.call callAt at h
  simp only [hmethod] at h
  cases hresource : resourceAt (Address.ofText request.target.toList).place with
  | error refusal => simp [hresource] at h
  | ok resource =>
    cases resource with
    | machine id =>
      cases hwindow : readWindow (Address.ofText request.target.toList).query with
      | error problems => simp [hresource, hwindow, Except.map, Except.mapError] at h
      | ok window =>
        simp [hresource, hwindow, Except.map, Except.mapError] at h
        exact ⟨id, window, h.symm⟩
    | _ => simp [hresource] at h

/-- An idle exchange is no event. -/
theorem event?_of_idle {exchange : Exchange} (h : Idle id exchange) : event? id exchange = none := by
  unfold event?
  cases hcall : exchange.1.call with
  | error refusal => rfl
  | ok call =>
    cases h with
    | @refused request reply h =>
      cases call with
      | create capacity =>
        cases reply with
        | created state => simp [Reply.status] at h
        | _ => rfl
      | runOn id' program =>
        have hran : ¬ (id' = id ∧ (reply.status = 200 ∨ reply.status = 409)) := by omega
        exact if_neg hran
      | reset id' =>
        have hreset : ¬ (id' = id ∧ reply.status = 200) := by omega
        exact if_neg hreset
      | delete id' =>
        have hdeleted : ¬ (id' = id ∧ reply.status = 204) := by omega
        exact if_neg hdeleted
      | _ => rfl
    | look h =>
      obtain ⟨id', window, rfl⟩ := call_of_get h hcall
      rfl
    | once h =>
      cases h.symm.trans hcall
      rfl
    | @about request reply call' other h hother hne =>
      cases h.symm.trans hcall
      cases call with
      | runOn | reset | delete =>
        cases hother
        simp [Call.event?, hne]
      | create => cases hother
      | _ => rfl
    | creates hne =>
      cases call with
      | create capacity => exact if_neg hne
      | runOn | reset | delete => simp [Call.event?, Reply.status]
      | _ => rfl

end Brainfuck.Service
