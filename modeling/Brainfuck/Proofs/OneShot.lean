import Brainfuck.Proofs.Answers

/-!
# Runs on a machine of their own

A program that runs on a machine of its own is answered as if a machine were created for it and it ran there
(`sameAnswer_on_new`). The two requests are read by different readers, the machines are made in different places and their runs are
counted in different ways, but the replies are the same in all cases, also if the body, the program or the run is at fault. Only
the identifier of the machine is shown in the one and not in the other.
-/

namespace Brainfuck

/-! ## One field of an answer -/

/-- The value with another one at the end of a path of fields. A path that is not there changes nothing. -/
def Json.replaceAt (value : Json) : List String → Json → Json
  | [], _ => value
  | name :: path, .object fields =>
    .object (fields.map fun f => if f.1 == name then (f.1, replaceAt value path f.2) else f)
  | _ :: _, whole => whole

namespace Service

/-- The reply with the identifier of the machine that has run the program. -/
def Reply.onMachine (id : String) : Reply → Reply
  | .ran output count state => .ran output count { state with machineId := some id }
  | reply => reply

theorem Reply.status_onMachine (id : String) (reply : Reply) : (reply.onMachine id).status = reply.status := by
  cases reply <;> rfl

/-- The identifier is found in the state that the answer shows, and the rest of the answer is as it was. -/
theorem Reply.body_onMachine (id : String) (reply : Reply) :
    (reply.onMachine id).body = Json.replaceAt (.string id) ["state", "machine_id"] reply.body := by
  cases reply <;> rfl

/-- A request to create a machine. -/
def Request.Creates (request : Request) : Prop :=
  Method.ofText request.method = .post ∧ resourceAt (Address.ofText request.target.toList).place = .ok .machines

variable {s s' s₁ : Store} {steps : Nat} {r : Record} {program : ProgramBody} {capacity : Int}

/-! ## Reading the bodies -/

theorem call_of_creates {request : Request} (h : request.Creates) :
    request.call = (readBody request.body readTapeSize).map .create := by
  obtain ⟨hmethod, hresource⟩ := h
  simp [Request.call, callAt, hmethod, hresource]

/-- What is made of a body that is an object is made of the object. -/
theorem readBody_of_isObject {α : Type} {body : String} {object : Json} (hread : Json.ofText body = .ok object)
    (hobject : object.IsObject) (reader : Json → Except (List Problem) α) :
    readBody body reader = (reader object).mapError .ofProblems := by
  have hspec := bodyObject_spec body
  rw [hread] at hspec
  rw [readBody, hspec.1 hobject]
  rfl

/-- A number of cells that is in order adds no problems to those of the program. -/
theorem readRun_of_readTapeSize {object : Json} (h : readTapeSize object = .ok capacity) :
    readRun object = (readProgram object).map fun program => (program, capacity) := by
  rw [readRun, h]
  cases readProgram object with
  | error ps => exact congrArg Except.error (List.append_nil ps)
  | ok program => rfl

/-! ## The new machine -/

/-- A new state of the machine that was created last stands behind the records that were there before. -/
theorem records_update_of_create (hs : s.Issued) (hcreate : s.create capacity = .ok (r, s₁)) {r' : Record} (hid : r'.id = r.id) :
    (s₁.update r').records = s.records ++ [r'] := by
  obtain ⟨m, -, hr, rfl⟩ := Store.create_eq_ok hcreate
  have hold : ∀ old ∈ s.records, (if old.id == r'.id then r' else old) = id old := by
    intro old hmem
    have hne : ¬ (old.id == r'.id) = true := by
      rw [hid, hr]
      exact List.find?_eq_none.mp hs.get?_next old hmem
    rw [if_neg hne]
    rfl
  rw [Store.update, List.map_append, List.map_congr_left hold, List.map_id]
  simp [hid]

/-- A program on a new machine of the store is answered like one on a machine of its own, with the identifier of the machine; the
records that were there before stay. -/
theorem exit_runOn_of_runOnce (hs : s.Issued) (hcreate : s.create capacity = .ok (r, s₁)) {reply : Reply}
    (h : Exit steps s (.runOnce program capacity) reply s') :
    s' = s ∧ ∃ r', r'.id = r.id ∧ ∃ s₂, Exit steps s₁ (.runOn r.id program) (reply.onMachine r.id) s₂ ∧
      s₂.records = s.records ++ [r'] := by
  obtain ⟨fresh, hfresh, hr, hs₁⟩ := Store.create_eq_ok hcreate
  have hget : s₁.get? r.id = some r := by rw [Store.get?_create hs hcreate, if_pos rfl]
  have hmachine : r.machine = fresh := by rw [hr]
  cases h with
  | onceUncompilable hcompile => exact ⟨rfl, r, rfl, s₁, .runUncompilable hget hcompile, by rw [hs₁]⟩
  | onceNoCells hcompile herror =>
    rw [hfresh] at herror
    cases herror
  | @onceFinished _ _ fresh' m count hfresh' hrun =>
    obtain rfl : fresh = fresh' := Except.ok.inj (hfresh.symm.trans hfresh')
    rw [← hmachine] at hrun
    have hfinished := Exit.finished hget hrun
    have hstate : State.ofRecord program.window (r.after m) =
        { State.ofMachine program.window none 1 m with machineId := some r.id } := by
      rw [hr]
      rfl
    rw [hstate] at hfinished
    exact ⟨rfl, r.after m, rfl, s₁.update (r.after m), hfinished, records_update_of_create hs hcreate rfl⟩
  | @onceFailed _ _ fresh' m cause hfresh' hrun =>
    obtain rfl : fresh = fresh' := Except.ok.inj (hfresh.symm.trans hfresh')
    rw [← hmachine] at hrun
    exact ⟨rfl, r.after m, rfl, s₁.update (r.after m), .failed hget hrun, records_update_of_create hs hcreate rfl⟩

/-- A program on a machine of its own is answered with some steps if and only if it is on a new machine of the store. -/
theorem answer_runOn_eq_none_iff (hs : s.Issued) (hcreate : s.create capacity = .ok (r, s₁)) :
    answer steps s (.runOnce program capacity) = none ↔ answer steps s₁ (.runOn r.id program) = none := by
  obtain ⟨fresh, hfresh, hr, hs₁⟩ := Store.create_eq_ok hcreate
  have hget : s₁.get? r.id = some r := by rw [Store.get?_create hs hcreate, if_pos rfl]
  have hmachine : r.machine = fresh := by rw [hr]
  rw [answer_eq_none_iff, answer_eq_none_iff]
  constructor
  · intro h
    rcases h with ⟨_, _, fresh', ⟨⟩, hfresh', hrun⟩ | ⟨_, _, _, ⟨⟩, -, -⟩
    obtain rfl : fresh = fresh' := Except.ok.inj (hfresh.symm.trans hfresh')
    exact Or.inr ⟨r.id, program, r, rfl, hget, hmachine ▸ hrun⟩
  · intro h
    rcases h with ⟨_, _, _, ⟨⟩, -, -⟩ | ⟨_, _, r', ⟨⟩, hget', hrun⟩
    obtain rfl : r = r' := Option.some.inj (hget.symm.trans hget')
    exact Or.inl ⟨program, capacity, fresh, rfl, hfresh, hmachine ▸ hrun⟩

/-- The state that is shown of a machine of its own. -/
theorem state_of_runOnce {output : List UInt8} {count : Nat} {state : State}
    (h : Exit steps s (.runOnce program capacity) (.ran output count state) s') : state.machineId = none ∧ state.runs = 1 := by
  cases h
  exact ⟨rfl, rfl⟩

/-! ## The same answer -/

/-- The answer to a program on a machine of its own, and that on the new machine of an identifier. Either both programs are still
running, or both are answered with the same status and the same body. Only the identifier in the state is null in the one. The store
is as it was in the one case, and has all its records from before and that of the machine in the other. -/
inductive SameAnswer (s : Store) (id : String) : Option (Reply × Store) → Option (Reply × Store) → Prop
  | running : SameAnswer s id none none
  | answered {reply reply' : Reply} {s₂ : Store} {r : Record} (hstatus : reply'.status = reply.status)
      (hbody : reply'.body = Json.replaceAt (.string id) ["state", "machine_id"] reply.body)
      (hstate : ∀ output count state, reply = .ran output count state → state.machineId = none ∧ state.runs = 1)
      (hid : r.id = id) (hrecords : s₂.records = s.records ++ [r]) :
      SameAnswer s id (some (reply, s)) (some (reply', s₂))

/-- A program is answered on a machine of its own as on a new machine of the store. -/
theorem sameAnswer_of_create (hs : s.Issued) (hcreate : s.create capacity = .ok (r, s₁)) (steps : Nat) (program : ProgramBody) :
    SameAnswer s r.id (answer steps s (.runOnce program capacity)) (answer steps s₁ (.runOn r.id program)) := by
  cases honce : answer steps s (.runOnce program capacity) with
  | none =>
    rw [(answer_runOn_eq_none_iff hs hcreate).mp honce]
    exact .running
  | some answered =>
    obtain ⟨reply, s'⟩ := answered
    have hexit := exit_of_answer honce
    obtain ⟨rfl, r', hid, s₂, hon, hrecords⟩ := exit_runOn_of_runOnce hs hcreate hexit
    rw [answer_of_exit hon]
    refine .answered (reply.status_onMachine r.id) (reply.body_onMachine r.id) ?_ hid hrecords
    intro output count state hran
    exact state_of_runOnce (hran ▸ hexit)

/-- A body with problems is refused in the same way, and the new machine is left alone. -/
theorem sameAnswer_of_problems (hrecords : s₁.records = s.records ++ [r]) (ps : List Problem) :
    SameAnswer s r.id (some (.ofProblems ps, s)) (some (.ofProblems ps, s₁)) := by
  have hreply : (Reply.ofProblems ps).onMachine r.id = .ofProblems ps := by
    unfold Reply.ofProblems
    split <;> rfl
  refine .answered rfl ?_ ?_ rfl hrecords
  · rw [← Reply.body_onMachine, hreply]
  · intro output count state hran
    unfold Reply.ofProblems at hran
    split at hran <;> cases hran

/-- A body is answered on a machine of its own as on a new machine of the store. -/
theorem sameAnswer_of_body {once on : Request} {object : Json} (hs : s.Issued) (hcreate : s.create capacity = .ok (r, s₁))
    (honce : once.RunsOnce) (hon : on.RunsOn r.id) (hbody : on.body = once.body)
    (hobject : Json.ofText once.body = .ok object ∧ object.IsObject) (hsize : readTapeSize object = .ok capacity)
    (steps : Nat) : SameAnswer s r.id (handle steps s once) (handle steps s₁ on) := by
  have hcall : once.call =
      ((readProgram object).mapError .ofProblems).map fun program => .runOnce program capacity := by
    rw [call_of_runsOnce honce, readBody_of_isObject hobject.1 hobject.2, readRun_of_readTapeSize hsize]
    cases readProgram object <;> rfl
  have hcallOn : on.call = ((readProgram object).mapError .ofProblems).map (.runOn r.id) := by
    rw [call_of_runsOn hon, hbody, readBody_of_isObject hobject.1 hobject.2]
  obtain ⟨m, -, -, hs₁⟩ := Store.create_eq_ok hcreate
  cases hprogram : readProgram object with
  | error ps =>
    rw [hprogram] at hcall hcallOn
    rw [handle_of_error hcall, handle_of_error hcallOn]
    exact sameAnswer_of_problems (by rw [hs₁]) ps
  | ok program =>
    rw [hprogram] at hcall hcallOn
    rw [handle, hcall, handle, hcallOn]
    exact sameAnswer_of_create hs hcreate steps program

/-- A request for a machine that the service may have is answered with it. -/
theorem handle_of_creates {create : Request} {configuration : Json} (hcreates : create.Creates)
    (hread : Json.ofText create.body = .ok configuration) (hobject : configuration.IsObject)
    (hsize : readTapeSize configuration = .ok capacity) :
    ∃ r s₁, s.create capacity = .ok (r, s₁) ∧
      ∀ steps, handle steps s create = some (.created (State.ofRecord defaultWindow r), s₁) := by
  have hfresh := Machine.create_eq_ok_iff.mpr ⟨(capacity_of_readTapeSize hsize).1, rfl⟩
  obtain ⟨r, s₁, hnew⟩ : ∃ r s₁, s.create capacity = .ok (r, s₁) := by
    rw [Store.create, hfresh]
    exact ⟨_, _, rfl⟩
  refine ⟨r, s₁, hnew, ?_⟩
  intro steps
  have hcall : create.call = .ok (.create capacity) := by
    rw [call_of_creates hcreates, readBody_of_isObject hread hobject, hsize]
    rfl
  rw [handle, hcall]
  exact answer_of_exit (.created hnew)

/-- A program on a machine of its own is answered as it is on a machine that was just created with as many cells, on every
reachable store and whatever is at fault in the body, the program or the run. If the program terminates it is answered, and the
store is left as it was. -/
theorem sameAnswer_on_new {once create : Request} {object configuration : Json} (hs : Reachable s) (honce : once.RunsOnce)
    (hcreates : create.Creates) (hobject : Json.ofText once.body = .ok object ∧ object.IsObject)
    (hconfiguration : Json.ofText create.body = .ok configuration ∧ configuration.IsObject)
    (hsize : readTapeSize object = .ok capacity) (hsize' : readTapeSize configuration = .ok capacity)
    (hterminates : Terminates s once) :
    ∃ id new r s₁, (∀ steps, handle steps s create = some (.created new, s₁)) ∧ new.machineId = some id ∧
      r.id = id ∧ s.get? id = none ∧ s₁.records = s.records ++ [r] ∧
      (∃ steps reply, handle steps s once = some (reply, s)) ∧
      ∀ on : Request, on.RunsOn id → on.body = once.body →
        ∀ steps, SameAnswer s id (handle steps s once) (handle steps s₁ on) := by
  obtain ⟨r, s₁, hcreate, hcreated⟩ := @handle_of_creates s _ _ _ hcreates hconfiguration.1 hconfiguration.2 hsize'
  obtain ⟨m, -, hr, hs₁⟩ := Store.create_eq_ok hcreate
  have hfree : s.get? r.id = none := by
    rw [hr]
    exact hs.issued.get?_next
  have hanswered : ∃ steps reply, handle steps s once = some (reply, s) := by
    obtain ⟨steps, reply, s', hhandle⟩ := exists_handle hterminates
    obtain rfl : s' = s := eq_of_handle hhandle (Or.inr (Or.inr honce))
    exact ⟨steps, reply, hhandle⟩
  refine ⟨r.id, State.ofRecord defaultWindow r, r, s₁, hcreated, rfl, rfl, hfree, by rw [hs₁], hanswered, ?_⟩
  intro on hon hbody steps
  exact sameAnswer_of_body hs.issued hcreate honce hon hbody hobject hsize steps

/-- The program `+>,.,` on two cells and the input `a` fails at its second read, on a machine of its own as on a new one. -/
theorem sameAnswer_on_new_failed :
    ∃ once create on : Request, once.RunsOnce ∧ create.Creates ∧ on.RunsOn (Store.idOf 1) ∧ on.body = once.body ∧
      Terminates {} once ∧
      ∃ s₁, SameAnswer {} (Store.idOf 1) (handle 9 {} once) (handle 9 s₁ on) ∧
        (handle 9 s₁ on).map (·.1) = some (.failed .inputExhausted) := by
  let body := "\x7b\"code\":\"+>,.,\",\"input\":\"a\",\"tape_size\":2\x7d"
  let once : Request := ⟨"POST", "/api/run", body⟩
  let create : Request := ⟨"POST", "/api/machine", "\x7b\"tape_size\":2\x7d"⟩
  let on : Request := ⟨"POST", "/api/machine/00000000000000000000000000000001/run", body⟩
  have honce : once.RunsOnce := ⟨by decide +kernel, by cbv⟩
  have hcreates : create.Creates := ⟨by decide +kernel, by cbv⟩
  have hon : on.RunsOn (Store.idOf 1) := ⟨by decide +kernel, by cbv⟩
  have hobject : Json.ofText once.body =
      .ok (.object [("code", .string "+>,.,"), ("input", .string "a"), ("tape_size", .integer 2)]) := by cbv
  have hconfiguration : Json.ofText create.body = .ok (.object [("tape_size", .integer 2)]) := by cbv
  have hcall : once.call = .ok (.runOnce ⟨['+', '>', ',', '.', ','], [97], {}, 10⟩ 2) := by decide +kernel
  have hterminates : Terminates {} once := by
    unfold Terminates
    rw [hcall]
    intro fresh hfresh
    obtain ⟨-, rfl⟩ := Machine.create_eq_ok_iff.mp hfresh
    exact ⟨9, by decide⟩
  obtain ⟨id, new, r, s₁, hcreated, hid, -, -, -, -, hsame⟩ := sameAnswer_on_new .empty honce hcreates ⟨hobject, trivial⟩
    ⟨hconfiguration, trivial⟩ (by cbv) (by cbv) hterminates
  have hnew : handle 0 {} create = some (.created ⟨some (Store.idOf 1), 2, 0, 0, [0, 0], 0⟩,
      ⟨1, [⟨Store.idOf 1, ⟨2, .blank 2, {}, {}⟩, 0⟩]⟩) := by decide +kernel
  obtain ⟨hnew', rfl⟩ := Prod.mk.inj (Option.some.inj ((hcreated 0).symm.trans hnew))
  obtain rfl := Reply.created.inj hnew'
  obtain rfl : Store.idOf 1 = id := Option.some.inj hid
  exact ⟨once, create, on, honce, hcreates, hon, rfl, hterminates, _, hsame on hon rfl 9, by decide +kernel⟩

end Service

end Brainfuck
