import AimeeMemory.Core.ReferenceDb

/-!
# Delete

`memory_delete` wipes the provenance and the vector points of a memory before it deletes
the row, looks at no result but the last one, and knows at most 64 of the memory's units.

## What is proved

* **`allOrNothing_iff`**: exactly when a delete is all-or-nothing.
* **`manyUnits_leak`**: the point of a 65th unit survives a successful delete.
-/

namespace AimeeMemory.Core

variable (db : Db2) (unitOffset : ℤ)

/-- The room for unit ids in `memory_delete`. -/
def unitIdCap : ℕ := 64

/-- The removal of a point and of its pending index operation, whose results are ignored. -/
def removePoint (s : Store) (point : ℤ) : Store :=
  db.attempt (db.attempt s (.deletePoint point)) (.indexOpRemove point)

/-- `memory_delete`. `unitOffset` is `PGVEC_MEMORY_VECTOR_UNIT_ID_OFFSET`. -/
def memoryDelete (s : Store) (id : ℤ) : Outcome :=
  let wiped := db.attempt s (.provenanceDelete id)
  let unitIds := db.memoryUnitListIds wiped id unitIdCap
  let pruned := (unitIds.map (unitOffset + ·)).foldl (removePoint db) wiped
  let pruned := removePoint db pruned id
  match db.exec pruned (.deleteRow id) with
  | some t => { ok := (pruned.rows.lookup id).isSome, store := t, id }
  | none => failed pruned

/-- The points of a memory and of its units. -/
def pointsOf (s : Store) (id : ℤ) : List ℤ := (s.units id).map (unitOffset + ·) ++ [id]

/-- The points that a delete asks the index to remove. -/
def requestedPoints (s : Store) (id : ℤ) : List ℤ := ((s.units id).take unitIdCap).map (unitOffset + ·) ++ [id]

/-- After a success no point of the memory remains; after a failure nothing of it is gone. -/
def AllOrNothing (s : Store) (id : ℤ) (r : Outcome) : Prop :=
  (r.ok = true → ∀ p ∈ pointsOf unitOffset s id, p ∉ r.store.points) ∧
    (r.ok = false → (∀ row, s.rows.lookup id = some row → r.store.rows.lookup id = some row) ∧
      (∀ e ∈ s.provenance, e.memoryId = id → e ∈ r.store.provenance) ∧
      ∀ p ∈ s.points, p ∈ r.store.points)

/-- Whether the row is there and its deletion goes through. -/
def rowGoes (s : Store) (id : ℤ) : Bool := (s.rows.lookup id).isSome && db.accepts (.deleteRow id)

/-- When a delete is all-or-nothing. If the row goes, the index holds no point of the memory
but those that it is asked to remove and does remove. If the row stays, the index removes
none of the points that it is asked for, and there is no provenance or its wipe is refused. -/
structure NothingLost (s : Store) (id : ℤ) : Prop where
  goes : rowGoes db s id = true → ∀ p ∈ pointsOf unitOffset s id, p ∈ s.points →
    p ∈ requestedPoints unitOffset s id ∧ db.accepts (.deletePoint p)
  points : rowGoes db s id = false → ∀ p ∈ requestedPoints unitOffset s id, p ∈ s.points →
    db.accepts (.deletePoint p) = false
  provenance : rowGoes db s id = false → ∀ e ∈ s.provenance, e.memoryId = id →
    db.accepts (.provenanceDelete id) = false

variable {db unitOffset} {s : Store} {id : ℤ}

/-! ### The points -/

/-- Only the points and the pending operations change. -/
theorem removePoint_keeps (h : db.Lawful) (s : Store) (point : ℤ) : (removePoint db s point).Keeps s := by
  rw [removePoint, h.attempt_eq, h.attempt_eq]
  split_ifs <;> exact ⟨rfl, rfl, rfl⟩

theorem mem_removePoint (h : db.Lawful) (s : Store) (point p : ℤ) :
    p ∈ (removePoint db s point).points ↔ p ∈ s.points ∧ ¬ (p = point ∧ db.accepts (.deletePoint point)) := by
  rw [removePoint, h.attempt_eq, h.attempt_eq]
  split_ifs with hop hpoint <;> simp_all [Store.apply]

theorem foldl_removePoint_keeps (h : db.Lawful) (s : Store) (points : List ℤ) :
    (points.foldl (removePoint db) s).Keeps s := by
  induction points generalizing s with
  | nil => exact ⟨rfl, rfl, rfl⟩
  | cons p ps ih =>
    obtain ⟨hrows, hprov, hlinks⟩ := ih (removePoint db s p)
    obtain ⟨hrows', hprov', hlinks'⟩ := removePoint_keeps h s p
    exact ⟨hrows.trans hrows', hprov.trans hprov', hlinks.trans hlinks'⟩

/-- A point survives unless its removal is among those asked for and goes through. -/
theorem mem_foldl_removePoint (h : db.Lawful) (s : Store) (points : List ℤ) (p : ℤ) :
    p ∈ (points.foldl (removePoint db) s).points ↔
      p ∈ s.points ∧ ¬ (p ∈ points ∧ db.accepts (.deletePoint p)) := by
  induction points generalizing s with
  | nil => simp
  | cons q qs ih =>
    rw [List.foldl_cons, ih, mem_removePoint h, List.mem_cons]
    by_cases hq : p = q
    · subst hq
      tauto
    · tauto

/-! ### The delete -/

/-- What is left when only the row is still there to delete. -/
structure Pruned (db : Db2) (unitOffset : ℤ) (s : Store) (id : ℤ) (t : Store) : Prop where
  rows : t.rows = s.rows
  provenance : ∀ e, e ∈ t.provenance ↔
    e ∈ s.provenance ∧ ¬ (e.memoryId = id ∧ db.accepts (.provenanceDelete id))
  points : ∀ p, p ∈ t.points ↔
    p ∈ s.points ∧ ¬ (p ∈ requestedPoints unitOffset s id ∧ db.accepts (.deletePoint p))

theorem memoryDelete_spec (h : db.Lawful) (unitOffset : ℤ) (s : Store) (id : ℤ) :
    ∃ t, Pruned db unitOffset s id t ∧ (memoryDelete db unitOffset s id).ok = rowGoes db s id ∧
      (memoryDelete db unitOffset s id).store =
        if db.accepts (.deleteRow id) then { t with rows := t.rows.erase id } else t := by
  have hwiped : db.attempt s (.provenanceDelete id) = if db.accepts (.provenanceDelete id) then
      { s with provenance := s.provenance.filter fun p => p.memoryId ≠ id } else s :=
    h.attempt_eq s _
  have hunits : db.memoryUnitListIds (db.attempt s (.provenanceDelete id)) id unitIdCap =
      (s.units id).take unitIdCap := by
    rw [h.unitListIds_eq, hwiped]
    split_ifs <;> rfl
  -- the point of the memory is removed last, as one more of the points
  have hfold : removePoint db ((((s.units id).take unitIdCap).map (unitOffset + ·)).foldl (removePoint db)
      (db.attempt s (.provenanceDelete id))) id =
      (requestedPoints unitOffset s id).foldl (removePoint db) (db.attempt s (.provenanceDelete id)) := by
    rw [requestedPoints, List.foldl_append]
    rfl
  have hpruned : Pruned db unitOffset s id
      ((requestedPoints unitOffset s id).foldl (removePoint db) (db.attempt s (.provenanceDelete id))) := by
    obtain ⟨hrows, hprov, -⟩ := foldl_removePoint_keeps h (db.attempt s (.provenanceDelete id))
      (requestedPoints unitOffset s id)
    refine ⟨hrows.trans ?_, fun e => ?_, fun p => ?_⟩
    · rw [hwiped]
      split_ifs <;> rfl
    · rw [hprov, hwiped]
      split_ifs with hacc <;> simp [hacc]
    · rw [mem_foldl_removePoint h, hwiped]
      split_ifs <;> rfl
  refine ⟨_, hpruned, ?_, ?_⟩ <;>
  · simp only [memoryDelete, hunits, hfold, h.exec_eq]
    split_ifs with hacc <;> simp [rowGoes, hacc, hpruned.rows, failed, Store.apply]

/-- **Delete**: it is all-or-nothing exactly when nothing is lost. -/
theorem allOrNothing_iff (h : db.Lawful) (unitOffset : ℤ) (s : Store) (id : ℤ) :
    AllOrNothing unitOffset s id (memoryDelete db unitOffset s id) ↔ NothingLost db unitOffset s id := by
  obtain ⟨t, ht, hok, hstore⟩ := memoryDelete_spec h unitOffset s id
  have hpoints : (memoryDelete db unitOffset s id).store.points = t.points := by
    rw [hstore]
    split_ifs <;> rfl
  have hprov : (memoryDelete db unitOffset s id).store.provenance = t.provenance := by
    rw [hstore]
    split_ifs <;> rfl
  simp only [AllOrNothing, hok, hpoints, hprov, ht.points, ht.provenance]
  constructor
  · intro ⟨hsuccess, hfailure⟩
    refine ⟨fun hgoes p hp hin => ?_, fun hstays p hp hin => ?_, fun hstays e he heid => ?_⟩
    · have := hsuccess hgoes p hp
      tauto
    · have := (hfailure hstays).2.2 p hin
      simp_all
    · have := (hfailure hstays).2.1 e he heid
      simp_all
  · intro ⟨hgoes, hstays, hwipe⟩
    refine ⟨fun hok p hp => ?_, fun hok => ⟨fun row hrow => ?_, fun e he heid => ⟨he, ?_⟩, fun p hp => ⟨hp, ?_⟩⟩⟩
    · have := hgoes hok p hp
      tauto
    · -- a row that is there stays, since its deletion must have been refused
      have hrefused : db.accepts (.deleteRow id) = false := by
        simpa [rowGoes, hrow] using hok
      rw [hstore, hrefused, if_neg (by decide), ht.rows, hrow]
    · simp [hwipe hok e he heid]
    · intro ⟨hreq, hacc⟩
      simp [hstays hok p hreq hp] at hacc

/-! ### Two units, and sixty-five -/

/-- A store with one row, under id 1, of so many units, each with its point. -/
def unitsStore (count : ℕ) : Store :=
  { oneRowStore (factRow "city" "Berlin" (9 / 10)) with
    units := fun id => if id = 1 then (List.range count).map fun u => (u : ℤ) else []
    points := 1 :: (List.range count).map fun u => 1000 + (u : ℤ) }

theorem twoUnits_allOrNothing : AllOrNothing 1000 (unitsStore 2) 1 (memoryDelete openDb 1000 (unitsStore 2) 1) :=
  (allOrNothing_iff openDb_lawful 1000 (unitsStore 2) 1).2
    { goes := by decide +kernel
      points := by decide +kernel
      provenance := by decide +kernel }

/-- The point of the last unit survives. -/
theorem manyUnits_leak : ¬ AllOrNothing 1000 (unitsStore 65) 1 (memoryDelete openDb 1000 (unitsStore 65) 1) := by
  intro h
  exact h.1 (by decide +kernel) 1064 (by decide +kernel) (by decide +kernel)

end AimeeMemory.Core
