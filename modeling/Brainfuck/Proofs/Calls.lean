import Brainfuck.Proofs.Records
import Brainfuck.Service

/-!
# Calls

All that a call of the service can come to. Each way to answer a call is a case of `Exit`, with what leads to it, the reply and
the store after it; a call is answered in one of these ways and in no other (`answer_eq_some_iff`), and it is answered unless its
program goes on running (`answer_eq_none_iff`). What holds of every call is proved case by case from here on.
-/

namespace Brainfuck

/-- The record of a machine that one more program has run on. -/
def Record.after (r : Record) (m : Machine) : Record := { r with machine := m, runs := r.runs + 1 }

/-- The record of a machine that was reset. -/
def Record.cleared (r : Record) : Record := { r with machine := r.machine.cleared, runs := 0 }

namespace Service

/-- The end of the program of a body on a machine, which gets new streams and nothing but the input of the body to read. -/
def ProgramBody.run (steps : Nat) (program : ProgramBody) (m : Machine) : Option (Machine × Except RunError Nat) :=
  (m.feed program.input).runSource steps program.options program.source

/-- The problem of a body that asks for a machine without cells. -/
def noCells : Problem := ⟨["body", "tape_size"], .below 1, true⟩

/-- The ways to answer a call. -/
inductive Exit (steps : Nat) (s : Store) : Call → Reply → Store → Prop
  | onceUncompilable {program : ProgramBody} {capacity : Int} {loop : UnmatchedLoop}
      (hcompile : Program.compile program.options program.source = .error loop) :
      Exit steps s (.runOnce program capacity) (.uncompilable loop) s
  | onceNoCells {program : ProgramBody} {capacity : Int} {tokens : List Token} {e : TapeError}
      (hcompile : Program.compile program.options program.source = .ok tokens)
      (hcreate : Machine.create capacity = .error e) :
      Exit steps s (.runOnce program capacity) (.invalid [noCells]) s
  | onceFinished {program : ProgramBody} {capacity : Int} {fresh m : Machine} {count : Nat}
      (hcreate : Machine.create capacity = .ok fresh) (hrun : program.run steps fresh = some (m, .ok count)) :
      Exit steps s (.runOnce program capacity)
        (.ran m.output.written.toList count (State.ofMachine program.window none 1 m)) s
  | onceFailed {program : ProgramBody} {capacity : Int} {fresh m : Machine} {cause : RuntimeError}
      (hcreate : Machine.create capacity = .ok fresh)
      (hrun : program.run steps fresh = some (m, .error (.runtime cause))) :
      Exit steps s (.runOnce program capacity) (.failed cause) s
  | createNoCells {capacity : Int} {e : TapeError} (hcreate : s.create capacity = .error e) :
      Exit steps s (.create capacity) (.invalid [noCells]) s
  | created {capacity : Int} {r : Record} {s' : Store} (hcreate : s.create capacity = .ok (r, s')) :
      Exit steps s (.create capacity) (.created (State.ofRecord defaultWindow r)) s'
  | negativeWindow {id : String} {window : Int} (hwindow : window < 0) :
      Exit steps s (.inspect id window) .negativeWindow s
  | inspectUnknown {id : String} {window : Int} (hwindow : ¬ window < 0) (hget : s.get? id = none) :
      Exit steps s (.inspect id window) (.unknown ⟨id⟩) s
  | found {id : String} {window : Int} {r : Record} (hwindow : ¬ window < 0) (hget : s.get? id = some r) :
      Exit steps s (.inspect id window) (.found (State.ofRecord window.toNat r)) s
  | runUnknown {id : String} {program : ProgramBody} (hget : s.get? id = none) :
      Exit steps s (.runOn id program) (.unknown ⟨id⟩) s
  | runUncompilable {id : String} {program : ProgramBody} {r : Record} {loop : UnmatchedLoop}
      (hget : s.get? id = some r) (hcompile : Program.compile program.options program.source = .error loop) :
      Exit steps s (.runOn id program) (.uncompilable loop) s
  | finished {id : String} {program : ProgramBody} {r : Record} {m : Machine} {count : Nat}
      (hget : s.get? id = some r) (hrun : program.run steps r.machine = some (m, .ok count)) :
      Exit steps s (.runOn id program)
        (.ran m.output.written.toList count (State.ofRecord program.window (r.after m))) (s.update (r.after m))
  | failed {id : String} {program : ProgramBody} {r : Record} {m : Machine} {cause : RuntimeError}
      (hget : s.get? id = some r) (hrun : program.run steps r.machine = some (m, .error (.runtime cause))) :
      Exit steps s (.runOn id program) (.failed cause) (s.update (r.after m))
  | resetUnknown {id : String} (hget : s.get? id = none) : Exit steps s (.reset id) (.unknown ⟨id⟩) s
  | reset {id : String} {r : Record} (hget : s.get? id = some r) :
      Exit steps s (.reset id) (.found (State.ofRecord defaultWindow r.cleared)) (s.update r.cleared)
  | deleteUnknown {id : String} (hget : s.get? id = none) : Exit steps s (.delete id) (.nothingToDelete ⟨id⟩) s
  | deleted {id : String} {r : Record} (hget : s.get? id = some r) : Exit steps s (.delete id) .deleted (s.erase id)

/-! ## The way of a call -/

variable {steps : Nat} {s s' : Store} {program : ProgramBody} {capacity : Int} {id : String} {reply : Reply}

theorem exit_of_runOnce (h : runOnce steps s program capacity = some (reply, s')) :
    Exit steps s (.runOnce program capacity) reply s' := by
  unfold runOnce unchanged at h
  cases hcompile : Program.compile program.options program.source with
  | error loop =>
    simp only [hcompile] at h
    cases h
    exact .onceUncompilable hcompile
  | ok tokens =>
    cases hcreate : Machine.create capacity with
    | error e =>
      simp only [hcompile, hcreate] at h
      cases h
      exact .onceNoCells hcompile hcreate
    | ok fresh =>
      simp only [hcompile, hcreate, Option.map_eq_some_iff] at h
      obtain ⟨⟨m, _ | cause⟩, hrun, h⟩ := h
      · cases h
        exact .onceFinished hcreate (Machine.runSource_eq_some_iff.mpr ⟨tokens, hcompile, hrun, rfl⟩)
      · cases h
        exact .onceFailed hcreate (Machine.runSource_eq_some_iff.mpr ⟨tokens, hcompile, hrun⟩)

theorem exit_of_create (h : create s capacity = (reply, s')) : Exit steps s (.create capacity) reply s' := by
  unfold create at h
  cases hcreate : s.create capacity with
  | error e =>
    rw [hcreate] at h
    cases h
    exact .createNoCells hcreate
  | ok created =>
    rw [hcreate] at h
    cases h
    exact .created hcreate

theorem exit_of_inspect {window : Int} : Exit steps s (.inspect id window) (inspect s id window) s := by
  unfold inspect Store.get
  by_cases hwindow : window < 0
  · rw [if_pos hwindow]
    exact .negativeWindow hwindow
  · rw [if_neg hwindow]
    cases hget : s.get? id with
    | none => exact .inspectUnknown hwindow hget
    | some r => exact .found hwindow hget

theorem exit_of_runOn (h : runOn steps s id program = some (reply, s')) :
    Exit steps s (.runOn id program) reply s' := by
  unfold runOn unchanged Store.get at h
  cases hget : s.get? id with
  | none =>
    simp only [hget] at h
    cases h
    exact .runUnknown hget
  | some r =>
    cases hcompile : Program.compile program.options program.source with
    | error loop =>
      simp only [hget, hcompile] at h
      cases h
      exact .runUncompilable hget hcompile
    | ok tokens =>
      simp only [hget, hcompile, Option.map_eq_some_iff] at h
      obtain ⟨⟨m, _ | cause⟩, hrun, h⟩ := h
      · cases h
        exact .finished hget (Machine.runSource_eq_some_iff.mpr ⟨tokens, hcompile, hrun, rfl⟩)
      · cases h
        exact .failed hget (Machine.runSource_eq_some_iff.mpr ⟨tokens, hcompile, hrun⟩)

theorem exit_of_reset (h : reset s id = (reply, s')) : Exit steps s (.reset id) reply s' := by
  unfold reset Store.reset Store.get at h
  cases hget : s.get? id with
  | none =>
    rw [hget] at h
    cases h
    exact .resetUnknown hget
  | some r =>
    rw [hget] at h
    cases h
    exact .reset hget

theorem exit_of_delete (h : delete s id = (reply, s')) : Exit steps s (.delete id) reply s' := by
  unfold delete Store.remove at h
  cases hget : s.get? id with
  | none =>
    rw [hget, Store.erase_of_get?_eq_none hget] at h
    cases h
    exact .deleteUnknown hget
  | some r =>
    rw [hget] at h
    cases h
    exact .deleted hget

/-- A call is answered in one of the ways to answer it. -/
theorem exit_of_answer {call : Call} (h : answer steps s call = some (reply, s')) : Exit steps s call reply s' := by
  cases call with
  | runOnce program capacity => exact exit_of_runOnce h
  | create capacity => exact exit_of_create (Option.some.inj h)
  | inspect id window =>
    cases h
    exact exit_of_inspect
  | runOn id program => exact exit_of_runOn h
  | reset id => exact exit_of_reset (Option.some.inj h)
  | delete id => exact exit_of_delete (Option.some.inj h)

/-- The ways to answer a call are all taken. -/
theorem answer_of_exit {call : Call} (h : Exit steps s call reply s') : answer steps s call = some (reply, s') := by
  cases h with
  | onceUncompilable hcompile => simp only [answer, runOnce, hcompile, unchanged]
  | onceNoCells hcompile hcreate => simp only [answer, runOnce, hcompile, hcreate, unchanged, noCells]
  | onceFinished hcreate hrun =>
    obtain ⟨tokens, hcompile, hends, rfl⟩ := Machine.runSource_eq_some_iff.mp hrun
    simp only [answer, runOnce, hcompile, hcreate, execute, hends, Option.map_some]
  | onceFailed hcreate hrun =>
    obtain ⟨tokens, hcompile, hends⟩ := Machine.runSource_eq_some_iff.mp hrun
    simp only [answer, runOnce, hcompile, hcreate, execute, hends, Option.map_some]
  | createNoCells hcreate => simp only [answer, create, hcreate, noCells]
  | created hcreate => simp only [answer, create, hcreate]
  | negativeWindow hwindow => simp only [answer, inspect, hwindow, if_true, unchanged]
  | inspectUnknown hwindow hget => simp only [answer, inspect, hwindow, if_false, Store.get, hget, unchanged]
  | found hwindow hget => simp only [answer, inspect, hwindow, if_false, Store.get, hget, unchanged]
  | runUnknown hget => simp only [answer, runOn, Store.get, hget, unchanged]
  | runUncompilable hget hcompile => simp only [answer, runOn, Store.get, hget, hcompile, unchanged]
  | finished hget hrun =>
    obtain ⟨tokens, hcompile, hends, rfl⟩ := Machine.runSource_eq_some_iff.mp hrun
    simp only [answer, runOn, Store.get, hget, hcompile, execute, hends, Option.map_some, Record.after]
  | failed hget hrun =>
    obtain ⟨tokens, hcompile, hends⟩ := Machine.runSource_eq_some_iff.mp hrun
    simp only [answer, runOn, Store.get, hget, hcompile, execute, hends, Option.map_some, Record.after]
  | resetUnknown hget => simp only [answer, reset, Store.reset, Store.get, hget, Except.map]
  | reset hget => simp only [answer, reset, Store.reset, Store.get, hget, Except.map, Record.cleared]
  | deleteUnknown hget =>
    simp only [answer, delete, Store.remove, hget, Store.erase_of_get?_eq_none hget, Option.isSome_none]
  | deleted hget => simp only [answer, delete, Store.remove, hget, Option.isSome_some]

/-- A call is answered exactly as one of the ways says. -/
theorem answer_eq_some_iff {call : Call} : answer steps s call = some (reply, s') ↔ Exit steps s call reply s' :=
  ⟨exit_of_answer, answer_of_exit⟩

/-- A call is left without an answer only by a program that runs: on a new machine, or on a live one. -/
theorem answer_eq_none_iff {call : Call} :
    answer steps s call = none ↔
      (∃ program capacity fresh, call = .runOnce program capacity ∧ Machine.create capacity = .ok fresh ∧
        program.run steps fresh = none) ∨
      ∃ id program r, call = .runOn id program ∧ s.get? id = some r ∧ program.run steps r.machine = none := by
  constructor
  · intro h
    cases call with
    | runOnce program capacity =>
      simp only [answer, runOnce] at h
      cases hcompile : Program.compile program.options program.source with
      | error loop => simp [hcompile, unchanged] at h
      | ok tokens =>
        cases hcreate : Machine.create capacity with
        | error e => simp [hcompile, hcreate, unchanged] at h
        | ok fresh =>
          simp only [hcompile, hcreate, Option.map_eq_none_iff] at h
          exact Or.inl ⟨program, capacity, fresh, rfl, hcreate, Machine.runSource_eq_none_iff.mpr ⟨tokens, hcompile, h⟩⟩
    | runOn id program =>
      simp only [answer, runOn, Store.get] at h
      cases hget : s.get? id with
      | none => simp [hget, unchanged] at h
      | some r =>
        cases hcompile : Program.compile program.options program.source with
        | error loop => simp [hget, hcompile, unchanged] at h
        | ok tokens =>
          simp only [hget, hcompile, Option.map_eq_none_iff] at h
          exact Or.inr ⟨id, program, r, rfl, hget, Machine.runSource_eq_none_iff.mpr ⟨tokens, hcompile, h⟩⟩
    | create | inspect | reset | delete => simp [answer, unchanged] at h
  · rintro (⟨program, capacity, fresh, rfl, hcreate, hrun⟩ | ⟨id, program, r, rfl, hget, hrun⟩)
    · obtain ⟨tokens, hcompile, hnone⟩ := Machine.runSource_eq_none_iff.mp hrun
      simp only [answer, runOnce, hcompile, hcreate, execute, hnone, Option.map_none]
    · obtain ⟨tokens, hcompile, hnone⟩ := Machine.runSource_eq_none_iff.mp hrun
      simp only [answer, runOn, Store.get, hget, hcompile, execute, hnone, Option.map_none]

end Service

end Brainfuck
