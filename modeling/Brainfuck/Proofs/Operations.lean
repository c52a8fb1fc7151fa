import Brainfuck.Proofs.Calls

/-!
# The store as a map

The store used by hand, without the service: machines are made, looked up, reset, removed and run in any order (`Operation`). It is a
finite map whose identifiers are new each time, whatever makes them, as long as it makes none twice (`actsAsMap_of_leads`). Which
machines are live is told by what was done and answered alone (`Live`): those that were made, and since then neither removed nor
cleared.

All that an operation can come to is told by `Exit`. One step keeps the invariant `Kept`, hence every history does.
-/

namespace Brainfuck

/-- A run on a stored machine: the tokens, the bytes to read if the machine gets new streams for the run, and whether the run counts,
by how it ends. -/
structure Record.Job where
  tokens : List Token
  input? : Option (List UInt8) := none
  counts : Outcome → Bool := fun _ => true

/-- The record of a machine after a run, and how the run ends. -/
def Record.run (steps : Nat) (job : Record.Job) (r : Record) : Option (Record × Outcome) :=
  let m := match job.input? with
    | some bytes => r.machine.feed bytes
    | none => r.machine
  (m.run steps job.tokens).map fun (m', o) => ({ r with machine := m', runs := if job.counts o then r.runs + 1 else r.runs }, o)

/-- A record has a machine as new: as many cells as its capacity says, zeros in all of them, the cursor on the first, and no runs. -/
structure Record.AsNew (r : Record) : Prop where
  length : (r.machine.tape.length : Int) = r.machine.capacity
  zeros : ∀ b ∈ r.machine.tape.cells, b = 0
  cursor : r.machine.tape.cursor = 0
  runs : r.runs = 0

theorem Record.id_cleared (r : Record) : r.cleared.id = r.id := rfl

namespace Store

/-! ## Operations -/

/-- The store with one more machine, and its record, where `ids` makes the identifiers. -/
def createWith (ids : Nat → String) (s : Store) (capacity : Int) : Except TapeError (Record × Store) :=
  (Machine.create capacity).map fun machine =>
    let record : Record := { id := ids (s.created + 1), machine := machine }
    (record, { created := s.created + 1, records := s.records ++ [record] })

theorem create_eq_createWith (s : Store) (capacity : Int) : s.create capacity = s.createWith idOf capacity := rfl

/-- What is done with a store. A run is one on the record that was looked up under an identifier; such a record may be kept in hand
while its machine is removed, and a run on it is then no longer one on a machine of the store. -/
inductive Operation where
  | create (capacity : Int)
  | get (id : String)
  | reset (id : String)
  | remove (id : String)
  | clear
  | size
  | run (id : String) (job : Record.Job)

/-- What an operation answers. -/
inductive Answer where
  | made (r : Record)
  | refused (e : TapeError)
  | found (r : Record)
  | unknown (e : UnknownMachine)
  | removed (there : Bool)
  | cleared
  | size (n : Nat)
  | ran (r : Record) (o : Outcome)
  | gone

/-- The identifier that an operation is on. -/
def Operation.id? : Operation → Option String
  | .get id | .reset id | .remove id | .run id _ => some id
  | .create _ | .clear | .size => none

/-- The answer of an operation, and the store after it, if a run comes to its end with at most so many steps. -/
def perform (ids : Nat → String) (steps : Nat) (s : Store) : Operation → Option (Answer × Store)
  | .create capacity =>
    match s.createWith ids capacity with
    | .ok (r, s') => some (.made r, s')
    | .error e => some (.refused e, s)
  | .get id =>
    match s.get id with
    | .ok r => some (.found r, s)
    | .error e => some (.unknown e, s)
  | .reset id =>
    match s.reset id with
    | .ok (r, s') => some (.found r, s')
    | .error e => some (.unknown e, s)
  | .remove id => some (.removed (s.remove id).1, (s.remove id).2)
  | .clear => some (.cleared, s.clear)
  | .size => some (.size s.size, s)
  | .run id job =>
    match s.get id with
    | .ok r => (r.run steps job).map fun (r', o) => (.ran r' o, s.update r')
    | .error _ => some (.gone, s)

/-! ## Histories -/

/-- An operation with its answer. -/
abbrev Exchange : Type := Operation × Answer

/-- Operations one after another, with these answers, lead from one store to another. -/
def Leads (ids : Nat → String) : Store → List Exchange → Store → Prop
  | s, [], s' => s' = s
  | s, e :: rest, s' => ∃ steps s₁, perform ids steps s e.1 = some (e.2, s₁) ∧ Leads ids s₁ rest s'

/-- An exchange makes a machine with this identifier. -/
def Makes (id : String) (e : Exchange) : Prop := ∃ capacity r, e = (.create capacity, .made r) ∧ r.id = id

/-- An exchange ends the machine with this identifier: it removes it, or clears the store. -/
def Ends (id : String) (e : Exchange) : Prop := e.1 = .remove id ∨ e.1 = .clear

/-- An identifier was given to a machine. -/
def IssuedIn (past : List Exchange) (id : String) : Prop := ∃ e ∈ past, Makes id e

/-- A machine is live: it was made, and since then neither removed nor cleared. -/
def Live (past : List Exchange) (id : String) : Prop :=
  ∃ before e after, past = before ++ e :: after ∧ Makes id e ∧ ∀ e' ∈ after, ¬ Ends id e'

section Histories

variable {past : List Exchange} {e : Exchange} {id : String}

theorem Live.issuedIn (h : Live past id) : IssuedIn past id := by
  obtain ⟨before, e, after, rfl, hmakes, -⟩ := h
  exact ⟨e, by simp, hmakes⟩

theorem issuedIn_append_iff : IssuedIn (past ++ [e]) id ↔ IssuedIn past id ∨ Makes id e := by
  simp [IssuedIn, or_and_right, exists_or]

/-- After one more exchange a machine is live if the exchange made it, or if it was live and the exchange did not end it. -/
theorem live_append_iff : Live (past ++ [e]) id ↔ Makes id e ∨ (Live past id ∧ ¬ Ends id e) := by
  constructor
  · rintro ⟨before, made, after, hpast, hmakes, hafter⟩
    -- either nothing came after the making, and then it is the last exchange, or the last exchange came after it
    rcases List.eq_nil_or_concat after with rfl | ⟨after, last, rfl⟩
    · obtain ⟨-, hlast⟩ := List.append_inj' hpast rfl
      obtain rfl := (List.cons.inj hlast).1
      exact Or.inl hmakes
    · rw [List.concat_eq_append] at hpast hafter
      rw [← List.cons_append, ← List.append_assoc] at hpast
      obtain ⟨hbefore, hlast⟩ := List.append_inj' hpast rfl
      obtain rfl := (List.cons.inj hlast).1
      exact Or.inr ⟨⟨before, made, after, hbefore, hmakes, fun e' he' => hafter e' (List.mem_append_left _ he')⟩,
        hafter e (by simp)⟩
  · rintro (hmakes | ⟨⟨before, made, after, rfl, hmakes, hafter⟩, hends⟩)
    · exact ⟨past, e, [], rfl, hmakes, fun _ h => absurd h List.not_mem_nil⟩
    · refine ⟨before, made, after ++ [e], by simp, hmakes, ?_⟩
      intro e' he'
      rcases List.mem_append.mp he' with hin | hlast
      · exact hafter e' hin
      · rw [List.mem_singleton.mp hlast]
        exact hends

end Histories

/-! ## What an operation can come to -/

variable {ids : Nat → String} {steps : Nat} {s s' : Store} {op : Operation} {answer : Answer}

/-- The ways an operation can come out, with what leads to each, the answer and the store after it. -/
inductive Exit (ids : Nat → String) (steps : Nat) (s : Store) : Operation → Answer → Store → Prop
  | made {capacity : Int} {m : Machine} (hm : Machine.create capacity = .ok m) :
      Exit ids steps s (.create capacity) (.made ⟨ids (s.created + 1), m, 0⟩)
        ⟨s.created + 1, s.records ++ [⟨ids (s.created + 1), m, 0⟩]⟩
  | refused {capacity : Int} {e : TapeError} (hm : Machine.create capacity = .error e) :
      Exit ids steps s (.create capacity) (.refused e) s
  | found {id : String} {r : Record} (hget : s.get? id = some r) : Exit ids steps s (.get id) (.found r) s
  | unknown {id : String} (hget : s.get? id = none) : Exit ids steps s (.get id) (.unknown ⟨id⟩) s
  | reset {id : String} {r : Record} (hget : s.get? id = some r) :
      Exit ids steps s (.reset id) (.found r.cleared) (s.update r.cleared)
  | resetUnknown {id : String} (hget : s.get? id = none) : Exit ids steps s (.reset id) (.unknown ⟨id⟩) s
  | removed {id : String} {r : Record} (hget : s.get? id = some r) : Exit ids steps s (.remove id) (.removed true) (s.erase id)
  | notRemoved {id : String} (hget : s.get? id = none) : Exit ids steps s (.remove id) (.removed false) s
  | cleared : Exit ids steps s .clear .cleared s.clear
  | size : Exit ids steps s .size (.size s.size) s
  | ran {id : String} {job : Record.Job} {r r' : Record} {o : Outcome} (hget : s.get? id = some r)
      (hrun : r.run steps job = some (r', o)) : Exit ids steps s (.run id job) (.ran r' o) (s.update r')
  | gone {id : String} {job : Record.Job} (hget : s.get? id = none) : Exit ids steps s (.run id job) .gone s

theorem get_of_some {id : String} {r : Record} (h : s.get? id = some r) : s.get id = .ok r := by
  rw [get, h]

theorem get_of_none {id : String} (h : s.get? id = none) : s.get id = .error ⟨id⟩ := by
  rw [get, h]

/-- A machine is made with the next identifier, unless it would have no cell. -/
theorem createWith_eq (capacity : Int) : s.createWith ids capacity = (Machine.create capacity).map fun m =>
    (⟨ids (s.created + 1), m, 0⟩, ⟨s.created + 1, s.records ++ [⟨ids (s.created + 1), m, 0⟩]⟩) := rfl

/-- An operation comes out in one of these ways. -/
theorem exit_of_perform (h : perform ids steps s op = some (answer, s')) : Exit ids steps s op answer s' := by
  cases op with
  | create capacity =>
    rw [perform, createWith_eq] at h
    cases hm : Machine.create capacity with
    | error e =>
      rw [hm] at h
      cases h
      exact .refused hm
    | ok m =>
      rw [hm] at h
      cases h
      exact .made hm
  | get id =>
    rw [perform] at h
    cases hget : s.get? id with
    | none =>
      rw [get_of_none hget] at h
      cases h
      exact .unknown hget
    | some r =>
      rw [get_of_some hget] at h
      cases h
      exact .found hget
  | reset id =>
    rw [perform, reset] at h
    cases hget : s.get? id with
    | none =>
      rw [get_of_none hget] at h
      cases h
      exact .resetUnknown hget
    | some r =>
      rw [get_of_some hget] at h
      cases h
      exact .reset hget
  | remove id =>
    rw [perform, remove] at h
    cases hget : s.get? id with
    | none =>
      rw [hget, erase_of_get?_eq_none hget] at h
      cases h
      exact .notRemoved hget
    | some r =>
      rw [hget] at h
      cases h
      exact .removed hget
  | clear =>
    cases h
    exact .cleared
  | size =>
    cases h
    exact .size
  | run id job =>
    rw [perform] at h
    cases hget : s.get? id with
    | none =>
      rw [get_of_none hget] at h
      cases h
      exact .gone hget
    | some r =>
      rw [get_of_some hget, Option.map_eq_some_iff] at h
      obtain ⟨⟨r', o⟩, hrun, h⟩ := h
      cases h
      exact .ran hget hrun

/-- What can come out does come out. -/
theorem perform_of_exit (h : Exit ids steps s op answer s') : perform ids steps s op = some (answer, s') := by
  cases h with
  | made hm => rw [perform, createWith_eq, hm]; rfl
  | refused hm => rw [perform, createWith_eq, hm]; rfl
  | found hget => rw [perform, get_of_some hget]
  | unknown hget => rw [perform, get_of_none hget]
  | reset hget => rw [perform, reset, get_of_some hget]; rfl
  | resetUnknown hget => rw [perform, reset, get_of_none hget]; rfl
  | removed hget => rw [perform, remove, hget]; rfl
  | notRemoved hget => rw [perform, remove, hget, erase_of_get?_eq_none hget]; rfl
  | cleared => rfl
  | size => rfl
  | ran hget hrun =>
    rw [perform, get_of_some hget]
    exact Option.map_eq_some_iff.mpr ⟨_, hrun, rfl⟩
  | gone hget => rw [perform, get_of_none hget]

/-! ## Runs of sources are operations -/

/-- A source that is run on a stored machine changes the store as a run of its program does that has the streams of the machine and
counts if it comes to its end. -/
theorem run_eq_perform {source : List Char} {tokens : List Token} (h : Program.compile {} source = .ok tokens) (id : String) :
    (s.run steps id source).map Prod.fst =
      (perform ids steps s (.run id { tokens := tokens, counts := fun o => o = .finished })).map Prod.snd := by
  rw [run, perform]
  cases s.get id with
  | error e => rfl
  | ok r =>
    simp only [Machine.runSource, h, Record.run, Option.map_map]
    congr 1
    funext ended
    obtain ⟨m, o⟩ := ended
    cases o <;> rfl

/-- A program that the service runs on a stored machine changes the store as a run does that gets new streams and counts however it
ends. -/
theorem runOn_eq_perform {program : Service.ProgramBody} {tokens : List Token}
    (h : Program.compile program.options program.source = .ok tokens) (id : String) :
    (Service.runOn steps s id program).map Prod.snd =
      (perform ids steps s (.run id { tokens := tokens, input? := some program.input })).map Prod.snd := by
  rw [Service.runOn, perform, h]
  cases s.get id with
  | error e => rfl
  | ok r =>
    simp only [Service.execute, Record.run, Option.map_map]
    congr 1
    funext ended
    obtain ⟨m, o⟩ := ended
    cases o <;> rfl

/-! ## What is found after an operation -/

variable {past : List Exchange}

/-- A run keeps the identifier and the capacity. -/
theorem kept_of_run {job : Record.Job} {r r' : Record} {o : Outcome} (h : r.run steps job = some (r', o)) :
    r'.id = r.id ∧ r'.machine.capacity = r.machine.capacity := by
  rw [Record.run, Option.map_eq_some_iff] at h
  obtain ⟨⟨m, o'⟩, hrun, h⟩ := h
  cases h
  refine ⟨rfl, (Machine.capacity_of_runFrom hrun).trans ?_⟩
  cases job.input? <;> rfl

/-- After an operation a machine is there if the operation made it, or if it was there and the operation did not end it. -/
theorem isSome_get?_of_exit (h : Exit ids steps s op answer s') (hfresh : s.get? (ids (s.created + 1)) = none) (id : String) :
    (s'.get? id).isSome = true ↔ Makes id (op, answer) ∨ ((s.get? id).isSome = true ∧ ¬ Ends id (op, answer)) := by
  have hthere : ∀ {id' : String} {r r' : Record}, s.get? id' = some r → r'.id = r.id →
      ((s.update r').get? id).isSome = (s.get? id).isSome := by
    intro id' r r' hget hid
    rw [get?_update hget hid]
    split
    · rename_i heq
      rw [← heq, hget]
      rfl
    · rfl
  cases h with
  | made hm =>
    rw [@get?_append s ⟨ids (s.created + 1), _, 0⟩ hfresh]
    simp only [Makes, Ends]
    grind
  | refused | found | unknown | resetUnknown | size | gone => simp [Makes, Ends]
  | reset hget =>
    rw [hthere hget (Record.id_cleared _)]
    simp [Makes, Ends]
  | ran hget hrun =>
    rw [hthere hget (kept_of_run hrun).1]
    simp [Makes, Ends]
  | removed hget =>
    rw [get?_erase]
    simp only [Makes, Ends]
    grind
  | notRemoved hget =>
    simp only [Makes, Ends]
    grind
  | cleared => simp [Makes, Ends, clear, get?]

/-- An operation leaves the other machines as they are, unless it clears the store. -/
theorem get?_of_exit (h : Exit ids steps s op answer s') (hclear : op ≠ .clear) {id : String} (hid : op.id? ≠ some id)
    (hlive : (s.get? id).isSome = true) : s'.get? id = s.get? id := by
  obtain ⟨r, hr⟩ := Option.isSome_iff_exists.mp hlive
  cases h with
  | made hm => rw [get?, List.find?_append, ← get?, hr, Option.some_or]
  | refused | found | unknown | resetUnknown | notRemoved | size | gone => rfl
  | reset hget => rw [get?_update hget (Record.id_cleared _), if_neg fun h => hid (congrArg some h)]
  | ran hget hrun => rw [get?_update hget (kept_of_run hrun).1, if_neg fun h => hid (congrArg some h)]
  | removed hget => rw [get?_erase, if_neg fun h => hid (congrArg some h)]
  | cleared => exact absurd rfl hclear

/-! ## The invariant -/

/-- What holds of a store with a past: the machines that are there are those that are live, each once, each with an identifier that was
issued, and each with a cell at least. -/
structure Kept (ids : Nat → String) (past : List Exchange) (s : Store) : Prop where
  live : ∀ id, (s.get? id).isSome = true ↔ Live past id
  distinct : (s.records.map Record.id).Nodup
  issued : ∀ id, IssuedIn past id → ∃ n, n ≤ s.created ∧ ids n = id
  capacity : ∀ r ∈ s.records, 1 ≤ r.machine.capacity

theorem kept_empty : Kept ids [] {} where
  live id := by simp [get?, Live]
  distinct := List.nodup_nil
  issued id h := by
    obtain ⟨e, he, -⟩ := h
    cases he
  capacity r hr := by cases hr

/-- The next identifier was not issued before. -/
theorem Kept.not_issuedIn_next (hs : Kept ids past s) (hids : Function.Injective ids) : ¬ IssuedIn past (ids (s.created + 1)) := by
  intro hissued
  obtain ⟨n, hn, heq⟩ := hs.issued _ hissued
  have hsame := hids heq
  omega

theorem Kept.get?_next (hs : Kept ids past s) (hids : Function.Injective ids) : s.get? (ids (s.created + 1)) = none := by
  rw [← Option.not_isSome_iff_eq_none, hs.live]
  exact fun hlive => hs.not_issuedIn_next hids hlive.issuedIn

theorem mem_map_id_iff {id : String} : id ∈ s.records.map Record.id ↔ (s.get? id).isSome = true := by
  rw [get?, List.find?_isSome]
  simp

theorem distinct_of_exit (h : Exit ids steps s op answer s') (hfresh : s.get? (ids (s.created + 1)) = none)
    (hs : (s.records.map Record.id).Nodup) : (s'.records.map Record.id).Nodup := by
  cases h with
  | @made capacity m hm =>
    rw [List.map_append, List.map_singleton]
    refine List.nodup_append.mpr ⟨hs, by simp, ?_⟩
    rintro id hid _ hnew rfl
    rw [List.mem_singleton.mp hnew, mem_map_id_iff, hfresh] at hid
    cases hid
  | refused | found | unknown | resetUnknown | notRemoved | size | gone => exact hs
  | reset | ran =>
    rw [map_id_update]
    exact hs
  | removed hget => exact (List.filter_sublist.map Record.id).nodup hs
  | cleared => exact List.nodup_nil

/-- The state of a record that an update puts in has the property that all records have. -/
theorem forall_mem_update {P : Record → Prop} {r : Record} (hs : ∀ r ∈ s.records, P r) (hr : P r) :
    ∀ r' ∈ (s.update r).records, P r' := by
  intro r' hr'
  obtain ⟨old, hold, rfl⟩ := List.mem_map.mp hr'
  split
  · exact hr
  · exact hs old hold

theorem capacity_of_exit (h : Exit ids steps s op answer s') (hs : ∀ r ∈ s.records, 1 ≤ r.machine.capacity) :
    ∀ r ∈ s'.records, 1 ≤ r.machine.capacity := by
  cases h with
  | @made capacity m hm =>
    obtain ⟨hcapacity, rfl⟩ := Machine.create_eq_ok_iff.mp hm
    refine List.forall_mem_append.mpr ⟨hs, ?_⟩
    intro r hr
    rw [List.mem_singleton.mp hr]
    exact hcapacity
  | refused | found | unknown | resetUnknown | notRemoved | size | gone => exact hs
  | @reset id r hget => exact forall_mem_update hs (hs r (List.mem_of_find?_eq_some hget))
  | ran hget hrun =>
    refine forall_mem_update hs ?_
    rw [(kept_of_run hrun).2]
    exact hs _ (List.mem_of_find?_eq_some hget)
  | removed hget => exact fun r hr => hs r (List.mem_filter.mp hr).1
  | cleared => exact fun r hr => absurd hr List.not_mem_nil

/-- The number of machines made so far only grows, and a machine that is made has the number it grows to. -/
theorem created_of_exit (h : Exit ids steps s op answer s') :
    s.created ≤ s'.created ∧ ∀ id, Makes id (op, answer) → id = ids (s.created + 1) ∧ s'.created = s.created + 1 := by
  cases h with
  | made hm =>
    refine ⟨Nat.le_succ _, ?_⟩
    rintro id ⟨capacity, r, heq, rfl⟩
    cases heq
    exact ⟨rfl, rfl⟩
  | _ =>
    refine ⟨Nat.le_refl _, ?_⟩
    rintro id ⟨capacity, r, heq, -⟩
    cases heq

/-- Every operation keeps the invariant. -/
theorem Kept.of_exit (hs : Kept ids past s) (hids : Function.Injective ids) (h : Exit ids steps s op answer s') :
    Kept ids (past ++ [(op, answer)]) s' where
  live id := by rw [isSome_get?_of_exit h (hs.get?_next hids), hs.live, live_append_iff]
  distinct := distinct_of_exit h (hs.get?_next hids) hs.distinct
  issued id hid := by
    obtain ⟨hgrows, hmade⟩ := created_of_exit h
    rcases issuedIn_append_iff.mp hid with hold | hnew
    · obtain ⟨n, hn, hname⟩ := hs.issued id hold
      exact ⟨n, Nat.le_trans hn hgrows, hname⟩
    · obtain ⟨hname, hcreated⟩ := hmade id hnew
      exact ⟨s.created + 1, Nat.le_of_eq hcreated.symm, hname.symm⟩
  capacity := capacity_of_exit h hs.capacity

/-- A machine that was made and is not live does not become live again. -/
theorem Kept.not_live_of_exit (hs : Kept ids past s) (hids : Function.Injective ids) (h : Exit ids steps s op answer s') {id : String}
    (hissued : IssuedIn past id) (hdead : ¬ Live past id) : ¬ Live (past ++ [(op, answer)]) id := by
  intro hlive
  rcases live_append_iff.mp hlive with hmakes | ⟨hold, -⟩
  · obtain ⟨rfl, -⟩ := (created_of_exit h).2 id hmakes
    exact hs.not_issuedIn_next hids hissued
  · exact hdead hold

/-- Every history keeps the invariant, and no machine that is not live any more becomes live again in it. -/
theorem Kept.of_leads (hs : Kept ids past s) (hids : Function.Injective ids) {later : List Exchange} (h : Leads ids s later s') :
    Kept ids (past ++ later) s' ∧ ∀ id, IssuedIn past id → ¬ Live past id → ¬ Live (past ++ later) id := by
  -- the exchanges are moved from what is to come into the past one by one
  induction later generalizing past s with
  | nil =>
    cases h
    rw [List.append_nil]
    exact ⟨hs, fun _ _ hdead => hdead⟩
  | cons e later ih =>
    obtain ⟨steps, s₁, hperform, hrest⟩ := h
    have hexit := exit_of_perform hperform
    obtain ⟨hkept, hdead⟩ := ih (hs.of_exit hids hexit) hrest
    rw [List.append_assoc, List.singleton_append] at hkept hdead
    refine ⟨hkept, ?_⟩
    intro id hissued hnot
    exact hdead id (issuedIn_append_iff.mpr (Or.inl hissued)) (hs.not_live_of_exit hids hexit hissued hnot)

/-! ## The store as a map -/

/-- A machine with a blank tape of its capacity is as new. -/
theorem asNew_of_blank {r : Record} (hcapacity : 1 ≤ r.machine.capacity) (htape : r.machine.tape = .blank r.machine.capacity.toNat)
    (hruns : r.runs = 0) : r.AsNew := by
  refine ⟨?_, ?_, ?_, hruns⟩
  · rw [htape, Tape.length_blank]
    exact Int.toNat_of_nonneg (by omega)
  · intro b hb
    rw [htape] at hb
    exact Array.eq_of_mem_replicate hb
  · rw [htape]
    rfl

/-- A store with a past acts as a finite map with new identifiers. -/
structure ActsAsMap (ids : Nat → String) (past : List Exchange) (s : Store) : Prop where
  /-- What is live is found, and what is not is unknown; looking changes nothing. -/
  get_live : ∀ steps id, Live past id →
    ∃ r, perform ids steps s (.get id) = some (.found r, s) ∧ s.get? id = some r ∧ r.id = id
  get_unknown : ∀ steps id, ¬ Live past id → perform ids steps s (.get id) = some (.unknown ⟨id⟩, s)
  /-- What is live is as new after a reset, with the capacity it had, and what is not is unknown and changes nothing. -/
  reset_live : ∀ steps id, Live past id → ∃ r r' s', s.get? id = some r ∧
    perform ids steps s (.reset id) = some (.found r', s') ∧ s'.get? id = some r' ∧ r'.machine.capacity = r.machine.capacity ∧ r'.AsNew
  reset_unknown : ∀ steps id, ¬ Live past id → perform ids steps s (.reset id) = some (.unknown ⟨id⟩, s)
  /-- Removing answers whether the machine was live, and then it is not there. -/
  remove : ∀ steps id, ∃ there s', perform ids steps s (.remove id) = some (.removed there, s') ∧
    (there = true ↔ Live past id) ∧ s'.get? id = none
  /-- The size is the number of identifiers that are live. -/
  size : ∀ steps, ∃ live : List String, live.Nodup ∧ (∀ id, id ∈ live ↔ Live past id) ∧
    perform ids steps s .size = some (.size live.length, s)
  /-- No two machines have the same identifier. -/
  distinct : s.records.Pairwise fun r r' => r.id ≠ r'.id
  /-- A machine that was made and is not live is never live again. -/
  gone : ∀ later s' id, Leads ids s later s' → IssuedIn past id → ¬ Live past id → ¬ Live (past ++ later) id
  /-- A machine without cells is not made, and nothing changes. -/
  create_small : ∀ steps capacity, capacity < 1 → perform ids steps s (.create capacity) = some (.refused .noCells, s)
  /-- Any other machine is made, as new, under an identifier that no machine ever had. -/
  create_new : ∀ steps capacity, 1 ≤ capacity → ∃ r s', perform ids steps s (.create capacity) = some (.made r, s') ∧
    ¬ IssuedIn past r.id ∧ s'.get? r.id = some r ∧ r.machine.capacity = capacity ∧ r.AsNew
  /-- An operation on one machine, or on none, leaves all other machines as they are. -/
  others : ∀ steps op answer s' id, perform ids steps s op = some (answer, s') → op ≠ .clear → op.id? ≠ some id →
    Live past id → s'.get? id = s.get? id

theorem Kept.actsAsMap (hs : Kept ids past s) (hids : Function.Injective ids) : ActsAsMap ids past s where
  get_live steps id hlive := by
    obtain ⟨r, hr⟩ := Option.isSome_iff_exists.mp ((hs.live id).mpr hlive)
    exact ⟨r, perform_of_exit (.found hr), hr, id_of_get? hr⟩
  get_unknown steps id hdead := by
    rw [← hs.live, Option.not_isSome_iff_eq_none] at hdead
    exact perform_of_exit (.unknown hdead)
  reset_live steps id hlive := by
    obtain ⟨r, hr⟩ := Option.isSome_iff_exists.mp ((hs.live id).mpr hlive)
    refine ⟨r, r.cleared, s.update r.cleared, hr, perform_of_exit (.reset hr), ?_, rfl, ?_⟩
    · rw [get?_update hr r.id_cleared, if_pos rfl]
    · exact asNew_of_blank (hs.capacity r (List.mem_of_find?_eq_some hr)) rfl rfl
  reset_unknown steps id hdead := by
    rw [← hs.live, Option.not_isSome_iff_eq_none] at hdead
    exact perform_of_exit (.resetUnknown hdead)
  remove steps id := by
    refine ⟨(s.get? id).isSome, s.erase id, rfl, hs.live id, ?_⟩
    rw [get?_erase, if_pos rfl]
  size steps := by
    refine ⟨s.records.map Record.id, hs.distinct, fun id => mem_map_id_iff.trans (hs.live id), ?_⟩
    rw [List.length_map]
    rfl
  distinct := List.pairwise_map.mp hs.distinct
  gone later s' id hleads := (hs.of_leads hids hleads).2 id
  create_small steps capacity hcapacity := by
    refine perform_of_exit (.refused ?_)
    rw [Machine.create, if_pos hcapacity]
  create_new steps capacity hcapacity := by
    have hcreate := Machine.create_eq_ok_iff.mpr ⟨hcapacity, rfl⟩
    refine ⟨_, _, perform_of_exit (.made hcreate), hs.not_issuedIn_next hids, ?_, rfl, asNew_of_blank hcapacity rfl rfl⟩
    rw [@get?_append s ⟨ids (s.created + 1), _, 0⟩ (hs.get?_next hids), if_pos rfl]
  others steps op answer s' id hperform hclear hid hlive :=
    get?_of_exit (exit_of_perform hperform) hclear hid ((hs.live id).mpr hlive)

/-- A store acts as a finite map, whatever was done with it. Machines are made, looked up, reset, removed, cleared and run in any order;
no identifier is made twice. Then a machine is found, reset and removed exactly if it is live, which means that it was made and neither
removed nor cleared since; the size is the number of live machines; all have identifiers of their own, and none comes back; what is
refused or unknown changes nothing; a reset makes its machine as new; and no operation on one machine changes another. -/
theorem actsAsMap_of_leads (hids : Function.Injective ids) (h : Leads ids {} past s) : ActsAsMap ids past s := by
  have hkept := (kept_empty.of_leads hids h).1
  rw [List.nil_append] at hkept
  exact hkept.actsAsMap hids

/-- Two machines are made, a program runs on the first, and the second is removed. The first is found as the run left it; the second is
unknown, and does not become live again whatever is done next. -/
theorem actsAsMap_of_leads_removed :
    let job : Record.Job := { tokens := [.increment (.nat 3), .moveRight (.nat 1)] }
    let first : Record := ⟨idOf 1, ⟨2, .blank 2, {}, {}⟩, 0⟩
    let second : Record := ⟨idOf 2, ⟨1, .blank 1, {}, {}⟩, 0⟩
    let worked : Record := ⟨idOf 1, ⟨2, ⟨#[3, 0], 1⟩, {}, {}⟩, 1⟩
    let past : List Exchange := [(.create 2, .made first), (.create 1, .made second), (.run (idOf 1) job, .ran worked .finished),
      (.remove (idOf 2), .removed true)]
    let s : Store := ⟨2, [worked]⟩
    Function.Injective idOf ∧ Leads idOf {} past s ∧ perform idOf 0 s (.get (idOf 1)) = some (.found worked, s) ∧
      perform idOf 0 s (.reset (idOf 2)) = some (.unknown ⟨idOf 2⟩, s) ∧
      ∀ later s', Leads idOf s later s' → ¬ Live (past ++ later) (idOf 2) := by
  intro job first second worked past s
  have hids : Function.Injective idOf := fun _ _ => idOf_inj.mp
  have hne : idOf 1 ≠ idOf 2 := fun h => absurd (idOf_inj.mp h) (by decide)
  have hran : perform idOf 2 ⟨2, [first, second]⟩ (.run (idOf 1) job) =
      some (.ran worked .finished, ⟨2, [worked, second]⟩) := by
    have hupdate : (⟨2, [first, second]⟩ : Store).update worked = ⟨2, [worked, second]⟩ := by
      simp [update, first, second, worked, hne.symm]
    rw [← hupdate]
    exact perform_of_exit (.ran (r := first) (by simp [get?, first]) rfl)
  have hremoved : perform idOf 0 ⟨2, [worked, second]⟩ (.remove (idOf 2)) = some (.removed true, s) := by
    have herase : (⟨2, [worked, second]⟩ : Store).erase (idOf 2) = s := by
      simp [erase, second, worked, s, hne]
    rw [← herase]
    exact perform_of_exit (.removed (r := second) (by simp [get?, second, worked, hne]))
  have hleads : Leads idOf {} past s :=
    ⟨0, ⟨1, [first]⟩, rfl, 0, ⟨2, [first, second]⟩, rfl, 2, _, hran, 0, _, hremoved, rfl⟩
  have hmap := actsAsMap_of_leads hids hleads
  have hissued : IssuedIn past (idOf 2) := ⟨(.create 1, .made second), by simp [past], 1, second, rfl, rfl⟩
  have hdead : ¬ Live past (idOf 2) := by
    intro hlive
    have hlast := (@live_append_iff (past.take 3) (.remove (idOf 2), .removed true) (idOf 2)).mp hlive
    rcases hlast with ⟨_, _, heq, -⟩ | ⟨-, hends⟩
    · cases heq
    · exact hends (Or.inl rfl)
  refine ⟨hids, hleads, perform_of_exit (.found (by simp [get?, s, worked])), hmap.reset_unknown 0 _ hdead, ?_⟩
  intro later s' h
  exact hmap.gone later s' _ h hissued hdead

end Store

end Brainfuck
