import Brainfuck.Store

/-!
# Records

A store is a map from identifiers to records. Each operation is told here by what is found afterwards under any identifier
(`Store.get?`): the operation changes what is found under one of them, and the rest stays as it was. A new machine has an
identifier under which nothing was found before, because all that are live were issued earlier (`Store.Issued`).
-/

namespace Brainfuck.Store

variable {s s' : Store} {r : Record} {capacity : Int}

/-- A record is found under its own identifier only. -/
theorem id_of_get? {id : String} (h : s.get? id = some r) : r.id = id := by
  simpa using List.find?_some h

/-! ## What is found after an operation -/

/-- A new state of a live record is found in its place, and under other identifiers what was there. -/
theorem get?_update {id : String} {r' : Record} (hget : s.get? id = some r) (hid : r'.id = r.id) (other : String) :
    (s.update r').get? other = if id = other then some r' else s.get? other := by
  -- an update leaves every identifier in its place, so the same entry of the list is found
  have hfind : (s.update r').get? other =
      (s.get? other).map (fun old => if old.id == r'.id then r' else old) := by
    rw [get?, get?, update, List.find?_map]
    congr 2
    funext old
    by_cases hold : old.id = r'.id
    · simp [hold]
    · simp [hold]
  rw [hfind]
  by_cases hother : id = other
  · rw [if_pos hother, ← hother, hget, Option.map_some, hid]
    simp
  · rw [if_neg hother]
    cases hold : s.get? other with
    | none => rfl
    | some old =>
      have hne : ¬ old.id = r'.id := by
        rw [hid, id_of_get? hold, id_of_get? hget]
        exact fun h => hother h.symm
      simp [hne]

/-- A record that is added under an identifier of its own is found there, and under other identifiers what was there. -/
theorem get?_append (h : s.get? r.id = none) (created : Nat) (other : String) :
    (⟨created, s.records ++ [r]⟩ : Store).get? other = if r.id = other then some r else s.get? other := by
  rw [get?, List.find?_append, ← get?]
  by_cases hother : r.id = other
  · have hnone : s.get? other = none := hother ▸ h
    simp [hother, hnone]
  · simp [hother]

/-- Nothing is found under an identifier that was erased, and under others what was there. -/
theorem get?_erase (s : Store) (id other : String) :
    (s.erase id).get? other = if id = other then none else s.get? other := by
  rw [get?, get?, erase, List.find?_filter]
  by_cases hother : id = other
  · rw [if_pos hother, List.find?_eq_none]
    simp [hother]
  · rw [if_neg hother]
    congr 1
    funext r
    by_cases hr : r.id = other
    · have hne : ¬ other = id := fun h => hother h.symm
      simp [hr, hne]
    · simp [hr]

/-- An identifier under which nothing is found has nothing to erase. -/
theorem erase_of_get?_eq_none {id : String} (h : s.get? id = none) : s.erase id = s := by
  have hall : ∀ r ∈ s.records, (r.id != id) = true := by
    intro r hr
    simpa [bne] using List.find?_eq_none.mp h r hr
  rw [erase, List.filter_eq_self.mpr hall]

/-- A store that creates a machine issues the next identifier, and the record of the machine is found under it. -/
theorem create_eq_ok (h : s.create capacity = .ok (r, s')) :
    ∃ m, Machine.create capacity = .ok m ∧ r = ⟨idOf (s.created + 1), m, 0⟩ ∧
      s' = ⟨s.created + 1, s.records ++ [r]⟩ := by
  unfold create at h
  cases hm : Machine.create capacity with
  | error e =>
    rw [hm] at h
    cases h
  | ok m =>
    rw [hm] at h
    cases h
    exact ⟨m, rfl, rfl, rfl⟩

/-- A new state of a live record leaves the identifiers as they are. -/
theorem map_id_update (s : Store) (r : Record) : (s.update r).records.map (·.id) = s.records.map (·.id) := by
  rw [update, List.map_map]
  refine List.map_congr_left fun old _ => ?_
  by_cases hold : old.id = r.id
  · simp [hold]
  · simp [hold]

/-! ## Issued identifiers -/

/-- The identifiers of all live machines are among those that were issued. -/
def Issued (s : Store) : Prop := ∀ r ∈ s.records, ∃ n, n ≤ s.created ∧ r.id = idOf n

/-- A store without machines has issued the identifiers of all of them. -/
theorem issued_empty : Issued {} := by
  intro r hr
  cases hr

/-- Nothing is found under the identifier that comes next. -/
theorem Issued.get?_next (hs : s.Issued) : s.get? (idOf (s.created + 1)) = none := by
  rw [get?, List.find?_eq_none]
  intro r hr heq
  obtain ⟨n, hn, hid⟩ := hs r hr
  have h : n = s.created + 1 := idOf_inj.mp (hid.symm.trans (beq_iff_eq.mp heq))
  omega

theorem Issued.update (hs : s.Issued) (r : Record) : (s.update r).Issued := by
  intro r' hr'
  obtain ⟨old, hold, rfl⟩ := List.mem_map.mp hr'
  obtain ⟨n, hn, hid⟩ := hs old hold
  refine ⟨n, hn, ?_⟩
  split
  · rename_i h
    rw [← hid, beq_iff_eq.mp h]
  · exact hid

theorem Issued.erase (hs : s.Issued) (id : String) : (s.erase id).Issued := by
  intro r hr
  exact hs r (List.mem_filter.mp hr).1

theorem Issued.create (hs : s.Issued) (h : s.create capacity = .ok (r, s')) : s'.Issued := by
  obtain ⟨m, -, hr, rfl⟩ := create_eq_ok h
  intro r' hr'
  rcases List.mem_append.mp hr' with hold | hnew
  · obtain ⟨n, hn, hid⟩ := hs r' hold
    exact ⟨n, Nat.le_succ_of_le hn, hid⟩
  · rw [List.mem_singleton.mp hnew, hr]
    exact ⟨s.created + 1, Nat.le_refl _, rfl⟩

/-- A new machine is found under its identifier, and under others what was there. -/
theorem get?_create (hs : s.Issued) (h : s.create capacity = .ok (r, s')) (other : String) :
    s'.get? other = if r.id = other then some r else s.get? other := by
  obtain ⟨m, -, hr, rfl⟩ := create_eq_ok h
  refine get?_append ?_ (s.created + 1) other
  rw [hr]
  exact hs.get?_next

end Brainfuck.Store
