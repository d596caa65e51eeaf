import Mathlib.Data.List.AList
import Mathlib.Data.Rat.Defs
import Mathlib.Algebra.Order.Ring.Rat

/-!
# The memory store

The rows that `memory_core_crud.c` and `memory_advanced.c` keep in the database, and
the database as those files see it. A row is found by its id; everything else about
the lookups and the writes is the database's own, so it is a parameter: `Db2` has one
field for each `db2_*` lookup the module calls and one for its writes, and `Db2.Lawful`
says what the module relies on. A write either goes through, and then does what its
name says (`Store.apply`), or is refused and changes nothing; which of the two is up to
the database.

## Honest scope

Texts are byte strings without a terminating zero, and a NULL content reads as the
empty one. Confidences, evidence and the like are rationals, where the code has doubles.
A row is read whole, whatever buffers `memory_t` has for it. Whether the database takes a
write depends on the write alone, so that a write refused once in a call is refused again.
-/

namespace AimeeMemory.Core

/-- A C string. -/
abbrev Text := List UInt8

instance Text.lawfulBEq : LawfulBEq Text := inferInstance

/-- The text of an ASCII literal. -/
def text (s : String) : Text := s.toList.map fun c => .ofNat c.toNat

/-- The tiers of a memory. -/
inductive Tier where
  | L0 | L1 | L2 | L3 | L4 | L5
  deriving DecidableEq, Repr

/-- `memory_tier_priority`. -/
def memoryTierPriority : Tier → ℕ
  | .L0 => 0
  | .L1 => 1
  | .L2 => 2
  | .L3 => 3
  | .L4 => 4
  | .L5 => 5

/-- The kinds of a memory. The module branches on none but `scratch`. -/
inductive Kind where
  | scratch
  | fact
  | preference
  | decision
  | episode
  | procedure
  | policy
  | other (name : Text)
  deriving DecidableEq, Repr

/-- The sensitivity labels, from the least restrictive one. -/
inductive Label where
  | normal
  | sensitive
  | restricted
  deriving DecidableEq, Repr

def Label.rank : Label → ℕ
  | .normal => 0
  | .sensitive => 1
  | .restricted => 2

/-- A label is at least as restrictive as a scan result. No label is as restrictive as
`none`, the result for content that must not be stored. -/
def Label.Covers (l : Label) : Option Label → Prop
  | some scanned => scanned.rank ≤ l.rank
  | none => False

instance (l : Label) (scanned : Option Label) : Decidable (l.Covers scanned) :=
  match scanned with
  | some m => inferInstanceAs (Decidable (m.rank ≤ l.rank))
  | none => inferInstanceAs (Decidable False)

/-- A memory row. -/
structure Row where
  tier : Tier
  kind : Kind
  key : Text
  content : Text
  useCases : Text := []
  confidence : ℚ
  useCount : ℤ := 1
  observationCount : ℤ := 1
  evidenceStrength : ℚ
  salience : ℚ
  surprise : ℚ
  sourceSession : Text
  sensitivity : Label
  updatedAt : Text
  validFrom : Option Text := none
  validUntil : Option Text := none
  deriving DecidableEq, Repr

structure Provenance where
  memoryId : ℤ
  sessionId : Text
  action : Text
  details : Text
  deriving DecidableEq, Repr

structure Link where
  sourceId : ℤ
  targetId : ℤ
  relation : Text
  deriving DecidableEq, Repr

/-- The store: the rows by id, and what hangs on them. -/
structure Store where
  rows : AList (fun _ : ℤ => Row) := ∅
  provenance : List Provenance := []
  links : List Link := []
  /-- The retrieval units of a memory. -/
  units : ℤ → List ℤ := fun _ => []
  /-- The ids of the points in the vector index. -/
  points : List ℤ := []
  /-- The ids with a pending vector index operation. -/
  indexOps : List ℤ := []

/-- What a merge writes into a row. -/
structure MergeUpdate where
  content : Text
  useCases : Text
  confidence : ℚ
  useCount : ℤ
  observationCount : ℤ
  evidenceStrength : ℚ
  salience : ℚ
  surprise : ℚ
  updatedAt : Text
  deriving DecidableEq, Repr

/-- The writes of the module. -/
inductive Write where
  | setVersionedKey (id : ℤ) (key ts : Text)
  | mergeUpdateEx (id : ℤ) (m : MergeUpdate)
  | rowInsertEx (id : ℤ) (row : Row)
  | updateContent (id : ℤ) (content : Text)
  | setValidFrom (id : ℤ) (ts : Text)
  | provenanceInsert (p : Provenance)
  | linkCreate (l : Link)
  | provenanceDelete (id : ℤ)
  | deletePoint (point : ℤ)
  | indexOpRemove (point : ℤ)
  | deleteRow (id : ℤ)
  deriving DecidableEq

/-- A row after a merge. -/
def Row.merge (r : Row) (m : MergeUpdate) : Row :=
  { r with
    content := m.content
    useCases := m.useCases
    confidence := m.confidence
    useCount := m.useCount
    observationCount := m.observationCount
    evidenceStrength := m.evidenceStrength
    salience := m.salience
    surprise := m.surprise
    updatedAt := m.updatedAt }

namespace Store

/-- A change of one row, where there is one. -/
def update (s : Store) (id : ℤ) (f : Row → Row) : Store :=
  match s.rows.lookup id with
  | some r => { s with rows := s.rows.insert id (f r) }
  | none => s

/-- The effect of a write that goes through. -/
def apply (s : Store) : Write → Store
  | .setVersionedKey id key ts => s.update id fun r => { r with key, validUntil := some ts }
  | .mergeUpdateEx id m => s.update id (·.merge m)
  | .rowInsertEx id row => { s with rows := s.rows.insert id row }
  | .updateContent id content => s.update id fun r => { r with content }
  | .setValidFrom id ts => s.update id fun r => { r with validFrom := some ts }
  | .provenanceInsert p => { s with provenance := s.provenance ++ [p] }
  | .linkCreate l => { s with links := s.links ++ [l] }
  | .provenanceDelete id => { s with provenance := s.provenance.filter fun p => p.memoryId ≠ id }
  | .deletePoint point => { s with points := s.points.filter fun p => p ≠ point }
  | .indexOpRemove point => { s with indexOps := s.indexOps.filter fun p => p ≠ point }
  | .deleteRow id => { s with rows := s.rows.erase id }

variable {s : Store} {id i : ℤ} {f : Row → Row}

theorem lookup_update (s : Store) (id i : ℤ) (f : Row → Row) :
    (s.update id f).rows.lookup i = if i = id then (s.rows.lookup i).map f else s.rows.lookup i := by
  rw [update]
  by_cases hi : i = id
  · subst hi
    cases h : s.rows.lookup i <;> simp [h]
  · cases h : s.rows.lookup id <;> simp [hi, AList.lookup_insert_ne hi]

/-- Nothing but the rows changes. -/
theorem update_rest (s : Store) (id : ℤ) (f : Row → Row) : { s.update id f with rows := s.rows } = s := by
  rw [update]; split <;> rfl

@[simp] theorem update_provenance (s : Store) (id : ℤ) (f : Row → Row) :
    (s.update id f).provenance = s.provenance := by
  rw [update]; split <;> rfl

@[simp] theorem update_links (s : Store) (id : ℤ) (f : Row → Row) : (s.update id f).links = s.links := by
  rw [update]; split <;> rfl

end Store

/-- Rows, provenance and links are those of another store. -/
structure Store.Keeps (s' s : Store) : Prop where
  rows : s'.rows = s.rows
  provenance : s'.provenance = s.provenance
  links : s'.links = s.links

/-! ### The database -/

/-- The database: what its lookups find, which writes it takes, and what they do. -/
structure Db2 where
  memoryGet : Store → ℤ → Option Row
  memoryLookupByKey : Store → Text → Option (ℤ × Row)
  memoryLookupMergeFields : Store → Text → Option (ℤ × Row)
  /-- Of at most 100 rows. -/
  memoryActiveKindDedupeCandidates : Store → Kind → List (ℤ × Row)
  /-- The confidence of an L2 row that contradicts the content under the key. -/
  memoryFindConflictingL2 : Store → Text → Text → Option ℚ
  memoryCountVersions : Store → Text → ℕ
  /-- The ids of at most `cap` units of a memory. -/
  memoryUnitListIds : Store → ℤ → ℕ → List ℤ
  /-- The id the next inserted row gets. -/
  newId : Store → ℤ
  /-- Whether a write goes through. -/
  accepts : Write → Bool
  exec : Store → Write → Option Store
  /-- The tables derived from a memory: its units, aliases, entities, summaries. -/
  memoryRefreshDerivedMetadata : Store → ℤ → Text → Text → Store
  memoryAutoTagWorkspace : Store → ℤ → Text → Text → Store

/-- What the module relies on. -/
structure Db2.Lawful (db : Db2) : Prop where
  exec_eq : ∀ s w, db.exec s w = if db.accepts w then some (s.apply w) else none
  memoryGet_eq : ∀ (s : Store) (id : ℤ), db.memoryGet s id = s.rows.lookup id
  lookupByKey_row : ∀ {s : Store} {key found}, db.memoryLookupByKey s key = some found →
    s.rows.lookup found.1 = some found.2 ∧ found.2.key = key
  lookupMergeFields_row : ∀ {s : Store} {key found}, db.memoryLookupMergeFields s key = some found →
    s.rows.lookup found.1 = some found.2 ∧ found.2.key = key
  dedupeCandidates_row : ∀ {s : Store} {kind c}, c ∈ db.memoryActiveKindDedupeCandidates s kind →
    s.rows.lookup c.1 = some c.2
  unitListIds_eq : ∀ (s : Store) (id : ℤ) (cap : ℕ), db.memoryUnitListIds s id cap = (s.units id).take cap
  newId_fresh : ∀ s : Store, s.rows.lookup (db.newId s) = none
  refresh_keeps : ∀ s id key content, (db.memoryRefreshDerivedMetadata s id key content).Keeps s
  autoTag_keeps : ∀ s id key content, (db.memoryAutoTagWorkspace s id key content).Keeps s

/-- A write whose failure is ignored. -/
def Db2.attempt (db : Db2) (s : Store) (w : Write) : Store := (db.exec s w).getD s

theorem Db2.Lawful.attempt_eq {db : Db2} (h : db.Lawful) (s : Store) (w : Write) :
    db.attempt s w = if db.accepts w then s.apply w else s := by
  rw [Db2.attempt, h.exec_eq]
  split_ifs <;> rfl

theorem Db2.Lawful.attempt_provenanceInsert {db : Db2} (h : db.Lawful) (s : Store) (p : Provenance) :
    db.attempt s (.provenanceInsert p) =
      { s with provenance := s.provenance ++ if db.accepts (.provenanceInsert p) then [p] else [] } := by
  rw [h.attempt_eq]
  split_ifs <;> simp [Store.apply]

theorem Db2.Lawful.attempt_linkCreate {db : Db2} (h : db.Lawful) (s : Store) (l : Link) :
    db.attempt s (.linkCreate l) =
      { s with links := s.links ++ if db.accepts (.linkCreate l) then [l] else [] } := by
  rw [h.attempt_eq]
  split_ifs <;> simp [Store.apply]

end AimeeMemory.Core
