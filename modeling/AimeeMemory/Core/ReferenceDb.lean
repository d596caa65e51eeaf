import AimeeMemory.Core.Insert

/-!
# A reference database

A database that the lookups and writes of `Db2` can be run on: it finds the first row
that fits, gives the next free id and takes the writes it is told to take. It shows that
`Db2.Lawful` can be met, and is what the examples of this development run on.
-/

namespace AimeeMemory.Core

/-- The first row that fits, with its id. -/
def Store.findRow (s : Store) (fits : Row → Bool) : Option (ℤ × Row) :=
  (s.rows.entries.find? fun e => fits e.2).map fun e => (e.1, e.2)

theorem Store.findRow_row {s : Store} {fits : Row → Bool} {found : ℤ × Row} (h : s.findRow fits = some found) :
    s.rows.lookup found.1 = some found.2 ∧ fits found.2 := by
  obtain ⟨e, he, rfl⟩ := Option.map_eq_some_iff.1 h
  exact ⟨AList.mem_lookup_iff.2 (List.mem_of_find?_eq_some he), by simpa using List.find?_some he⟩

theorem Store.findRow_key {s : Store} {key : Text} {found : ℤ × Row}
    (h : (s.findRow fun r => r.key = key) = some found) :
    s.rows.lookup found.1 = some found.2 ∧ found.2.key = key := by
  simpa using Store.findRow_row h

/-- One more than the greatest id. -/
def Store.nextId (s : Store) : ℤ := s.rows.keys.foldr max 0 + 1

theorem Store.lookup_nextId (s : Store) : s.rows.lookup s.nextId = none := by
  have hle : ∀ ids : List ℤ, ∀ i ∈ ids, i ≤ ids.foldr max 0 := by
    intro ids
    induction ids with
    | nil => simp
    | cons j js ih => grind
  rw [AList.lookup_eq_none]
  intro hmem
  have := hle s.rows.keys s.nextId hmem
  rw [Store.nextId] at this
  omega

/-- The reference database, which takes the writes that `accepts` says. -/
def referenceDb (accepts : Write → Bool) : Db2 where
  memoryGet s id := s.rows.lookup id
  memoryLookupByKey s key := s.findRow fun r => r.key = key
  memoryLookupMergeFields s key := s.findRow fun r => r.key = key
  memoryActiveKindDedupeCandidates s kind :=
    ((s.rows.entries.filter fun e => e.2.kind = kind).map fun e => (e.1, e.2)).take 100
  memoryFindConflictingL2 _ _ _ := none
  memoryCountVersions s key := s.rows.entries.countP fun e => (key ++ text "#v") <+: e.2.key
  memoryUnitListIds s id cap := (s.units id).take cap
  newId := Store.nextId
  accepts := accepts
  exec s w := if accepts w then some (s.apply w) else none
  memoryRefreshDerivedMetadata s _ _ _ := s
  memoryAutoTagWorkspace s _ _ _ := s

theorem referenceDb_lawful (accepts : Write → Bool) : (referenceDb accepts).Lawful where
  exec_eq _ _ := rfl
  memoryGet_eq _ _ := rfl
  lookupByKey_row := Store.findRow_key
  lookupMergeFields_row := Store.findRow_key
  dedupeCandidates_row h := by
    obtain ⟨e, he, rfl⟩ := List.mem_map.1 (List.mem_of_mem_take h)
    exact AList.mem_lookup_iff.2 (List.mem_of_mem_filter he)
  unitListIds_eq _ _ _ := rfl
  newId_fresh := Store.lookup_nextId
  refresh_keeps _ _ _ _ := ⟨rfl, rfl, rfl⟩
  autoTag_keeps _ _ _ _ := ⟨rfl, rfl, rfl⟩

/-- A database that takes every write. -/
def openDb : Db2 := referenceDb fun _ => true

theorem openDb_lawful : openDb.Lawful := referenceDb_lawful _

/-- A platform that finds every content clean and scans it as normal, and takes keys as
they are. -/
def plainPlatform : Platform where
  gateCheckSensitive _ := .clean
  gateCheckEphemeral _ := false
  gateHasEvidenceMarkers _ := false
  memoryScanContent _ := some .normal
  isNoiseUtterance _ := false
  normalizeKey key := key
  trigramSimilarity a b := if a = b then 1 else 0
  isContradiction _ _ := false
  memoryTemporalValueConflict _ _ := false
  memoryContentSurprise _ _ _ := 1 / 2
  dedupThreshold := 85 / 100
  memorySkipPersistentSideEffects := false
  nowUtc := text "2026-01-01T00:00:00Z"

/-- A platform that takes every two texts for similar. -/
def alikePlatform : Platform := { plainPlatform with trigramSimilarity := fun _ _ => 1 }

/-- A stored fact of tier L2. -/
def factRow (key content : String) (confidence : ℚ) : Row where
  tier := .L2
  kind := .fact
  key := text key
  content := text content
  confidence := confidence
  evidenceStrength := 8 / 10
  salience := 1 / 2
  surprise := 1 / 2
  sourceSession := []
  sensitivity := .normal
  updatedAt := []

/-- A store that holds one row, under id 1. -/
def oneRowStore (r : Row) : Store where
  rows := (∅ : AList fun _ : ℤ => Row).insert 1 r

end AimeeMemory.Core
