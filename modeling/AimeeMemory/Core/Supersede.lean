import AimeeMemory.Core.Depth
import AimeeMemory.Core.ReferenceDb

/-!
# What a supersede leaves

`memory_supersede` renames the old row first and inserts the new content after that,
through the general insert, in the renamed store. It does not undo the rename where the
insert fails, and it links the new row to the old one only where its caller asked for the
new row.

## What is proved

* **`supersede_atomic_iff`**: a failed supersede leaves the store as it was exactly when no row
  was renamed, or no rename could be seen.
* **`historyPreserved_iff`**: a successful supersede preserves history exactly when the new
  content lands, unchanged, in another row under the old key, tier and kind, and the link and
  the provenance are written.
* **`rejectedContent_not_atomic`**, **`unasked_not_preserved`**: a content that the gate rejects
  leaves the old row renamed; without a place for the new row there is no link.
-/

namespace AimeeMemory.Core

variable {pf : Platform} {db : Db2} {out : Bool} {n : ℕ} {s : Store} {oldId : ℤ} {content : Text}
  {confidence : ℚ} {sessionId : Text} {r : Outcome} {old : Row}

/-! ### Failure -/

/-- A store as it was: the same row under each id, and all else the same. -/
structure Store.Same (s' s : Store) : Prop where
  rows : ∀ i, s'.rows.lookup i = s.rows.lookup i
  rest : { s' with rows := s.rows } = s

/-- The rename finds the row as it would make it: the key fills the buffer of the versioned
key, and the row ended just now. -/
def RenamedAlready (pf : Platform) (db : Db2) (s : Store) (old : Row) : Prop :=
  versionedKey old.key (db.memoryCountVersions s old.key + 1) = old.key ∧ old.validUntil = some pf.nowUtc

/-- After the rename the nested insert lands, or there is nothing to undo: the rename
changed nothing, and the nested insert renames no other row. -/
def NothingToUndo (pf : Platform) (db : Db2) (n : ℕ) (s : Store) (oldId : ℤ) (content : Text)
    (confidence : ℚ) (sessionId : Text) : Prop :=
  ∀ t old, renamedStore pf db s oldId = some (t, old) →
    let args := replacementArgs old content confidence sessionId
    (landing pf db n t args).isSome ∨
      RenamedAlready pf db s old ∧ (prepare pf db t args).bind (nestedInsert pf db t args) = none

/-- A short key is longer after a rename, and no later rename makes it short again. -/
theorem renamedStore_shows {t u : Store} (h : renamedStore pf db s oldId = some (t, old))
    (hkey : old.key.length < 559) (hm : Moved t u) : u.rows.lookup oldId ≠ some old := by
  intro hsame
  have hrow := lookup_renamed h oldId
  rw [if_pos rfl] at hrow
  obtain ⟨row, hrow', hmoved⟩ := hm.rows hrow
  obtain rfl : old = row := by simpa [hsame] using hrow'
  have hgrows := hmoved.grows
  have := versionedKey_grows old.key (db.memoryCountVersions s old.key + 1)
  simp only at hgrows
  omega

/-- The row that an insert renames has a short key, and shows the rename from then on. -/
theorem nestedInsert_shows (h : db.Lawful) {a : InsertArgs} {p : Prepared} {nested : Store × InsertArgs}
    (hp : prepare pf db s a = some p) (hn : nestedInsert pf db s a p = some nested) :
    ∃ id row, s.rows.lookup id = some row ∧ row.key.length < 559 ∧
      ∀ u, Moved nested.1 u → u.rows.lookup id ≠ some row := by
  obtain ⟨id, hid, hmap⟩ := Option.bind_eq_some_iff.1 hn
  obtain ⟨⟨t, row⟩, ht, rfl⟩ := Option.map_eq_some_iff.1 hmap
  obtain ⟨found, hfound, hshort⟩ := supersededRow_key h hp hid
  obtain ⟨-, hrow, -, -⟩ := renamedStore_eq ht
  obtain rfl : found = row := by simpa [hfound] using hrow
  exact ⟨id, found, hfound, hshort, fun u hu => renamedStore_shows ht hshort hu⟩

/-- What a failed insert leaves in the renamed store is the store before the rename exactly when
neither of the two renamed a row visibly. -/
theorem residue_same_iff (h : db.Lawful) {t : Store} (hrenamed : renamedStore pf db s oldId = some (t, old))
    (a : InsertArgs) : (residue pf db (n + 1) t a).Same s ↔
      RenamedAlready pf db s old ∧ (prepare pf db t a).bind (nestedInsert pf db t a) = none := by
  obtain ⟨-, hold, -, -⟩ := renamedStore_eq hrenamed
  have hrow := lookup_renamed hrenamed
  constructor
  · intro hsame
    have hlong : 559 ≤ old.key.length := by
      by_contra hshort
      exact renamedStore_shows hrenamed (not_le.1 hshort) (residue_moved ..) ((hsame.rows oldId).trans hold)
    have hnone : (prepare pf db t a).bind (nestedInsert pf db t a) = none := by
      by_contra hsome
      obtain ⟨nested, hnested⟩ := Option.ne_none_iff_exists'.1 hsome
      obtain ⟨p, hp, hn⟩ := Option.bind_eq_some_iff.1 hnested
      obtain ⟨id, row, hfound, hshort, hshows⟩ := nestedInsert_shows h hp hn
      -- the row renamed next has a short key, so that it is another one, and it was there before
      have hne : id ≠ oldId := by
        rintro rfl
        rw [hrow, if_pos rfl] at hfound
        have := versionedKey_grows old.key (db.memoryCountVersions s old.key + 1)
        have hkey := congrArg (fun r => r.key.length) (Option.some.inj hfound)
        simp only at hkey
        omega
      have hbefore : s.rows.lookup id = some row := by rw [← hfound, hrow, if_neg hne]
      refine hshows (residue pf db (n + 1) t a) ?_ ((hsame.rows id).trans hbefore)
      rw [residue, hnested]
      exact residue_moved ..
    refine ⟨?_, hnone⟩
    have hkept := hsame.rows oldId
    rw [residue, hnone] at hkept
    simp only [hrow, if_true, hold, Option.some.injEq] at hkept
    exact ⟨congrArg Row.key hkept, (congrArg Row.validUntil hkept).symm⟩
  · rintro ⟨⟨hkey, hended⟩, hnone⟩
    rw [residue, hnone]
    refine ⟨fun i => ?_, (renamedStore_moved hrenamed).rest⟩
    rw [hrow]
    split_ifs with hi
    · rw [hi, hold, hkey, ← hended]
    · rfl

/-- What a supersede does: without a row to rename it fails, else it inserts in the store that the
rename leaves, and stamps what has landed. -/
theorem memorySupersede_cases (h : db.Lawful)
    (hr : memorySupersede pf db out n s oldId content confidence sessionId = some r) :
    (renamedStore pf db s oldId = none ∧ r = failed s) ∨
      ∃ t old r₀, renamedStore pf db s oldId = some (t, old) ∧
        memoryInsertEx pf db out n t (replacementArgs old content confidence sessionId) = some r₀ ∧
        r = if r₀.ok then { r₀ with store := stampReplacement pf db out r₀.store r₀.id oldId sessionId }
          else failed r₀.store := by
  rw [memorySupersede, supersedeWith_eq h] at hr
  cases hrenamed : renamedStore pf db s oldId with
  | none =>
    simp only [hrenamed, Option.some.injEq] at hr
    exact .inl ⟨rfl, hr.symm⟩
  | some renamed =>
    obtain ⟨t, old⟩ := renamed
    simp only [hrenamed, Option.map_eq_some_iff] at hr
    obtain ⟨r₀, hr₀, rfl⟩ := hr
    exact .inr ⟨t, old, r₀, rfl, hr₀, rfl⟩

/-- **Atomicity of supersede**: a failure leaves the store as it was exactly when the old row
is not renamed (there is none, or the rename is refused), the nested insert goes through, or
there is nothing to undo. -/
theorem supersede_atomic_iff (h : db.Lawful)
    (hr : memorySupersede pf db out n s oldId content confidence sessionId = some r) :
    (r.ok = false → r.store.Same s) ↔ NothingToUndo pf db n s oldId content confidence sessionId := by
  obtain ⟨hrenamed, rfl⟩ | ⟨t, old, r₀, hrenamed, hr₀, rfl⟩ := memorySupersede_cases h hr
  · exact iff_of_true (fun _ => ⟨fun _ => rfl, rfl⟩) (fun t old hsome => by simp [hrenamed] at hsome)
  · obtain ⟨n, rfl⟩ : ∃ k, n = k + 1 := by
      refine ⟨n - 1, ?_⟩
      rcases n with - | n
      · simp [memoryInsertEx] at hr₀
      · rfl
    simp only [NothingToUndo, hrenamed, Option.some.injEq, Prod.mk.injEq, and_imp]
    rcases memoryInsertEx_spec h hr₀ with ⟨hnone, rfl⟩ | ⟨u, place, hland, hlanded⟩
    · simp only [failed, Bool.false_eq_true, if_false, true_implies, residue_same_iff h hrenamed]
      constructor
      · rintro hsame _ _ rfl rfl
        exact .inr hsame
      · intro hall
        rcases hall t old rfl rfl with hland | hsame
        · simp [hnone] at hland
        · exact hsame
    · simp only [hlanded.ok, if_true, reduceCtorEq, false_implies, true_iff]
      rintro _ _ rfl rfl
      exact .inl (by simp [hland])

/-! ### Success -/

/-- What a supersede promises: the new content under the old key, the old content under a
versioned one, and a link and a provenance entry from the new row to the old one. -/
structure HistoryPreserved (r : Outcome) (oldId : ℤ) (old : Row) (content sessionId : Text) : Prop where
  apart : r.id ≠ oldId
  replacement : ∃ new, r.store.rows.lookup r.id = some new ∧ new.key = old.key ∧ new.tier = old.tier ∧
    new.kind = old.kind ∧ new.content = content
  history : ∃ kept, r.store.rows.lookup oldId = some kept ∧ kept.content = old.content ∧ IsVersioned kept.key
  link : supersedesLink r.id oldId ∈ r.store.links
  provenance : supersedeProvenance r.id oldId sessionId ∈ r.store.provenance

/-- Where the nested insert puts the new content: another row, with the old key, tier and
kind, and with the content as it was given; and the link and the provenance are written. -/
structure LandsAsReplacement (db : Db2) (out : Bool) (s : Store) (oldId : ℤ) (old : Row)
    (content sessionId : Text) (place : Placement) : Prop where
  apart : place.id ≠ oldId
  key : place.row.key = old.key
  tier : place.row.tier = old.tier
  kind : place.row.kind = old.kind
  content : place.row.content = content
  link : supersedesLink place.id oldId ∈ s.links ∨
    out = true ∧ db.accepts (.linkCreate (supersedesLink place.id oldId))
  provenance : supersedeProvenance place.id oldId sessionId ∈ s.provenance ∨
    out = true ∧ db.accepts (.provenanceInsert (supersedeProvenance place.id oldId sessionId))

/-- The rows, the links and the provenance after a successful supersede. -/
theorem supersede_landed (h : db.Lawful)
    (hr : memorySupersede pf db out n s oldId content confidence sessionId = some r) (hok : r.ok = true) :
    ∃ u old t place, renamedStore pf db s oldId = some (u, old) ∧
      landing pf db n u (replacementArgs old content confidence sessionId) = some (t, place) ∧
      Landed db out s t place r ∧
      (out = true → db.accepts (.linkCreate (supersedesLink place.id oldId)) →
        supersedesLink place.id oldId ∈ r.store.links) ∧
      (out = true → db.accepts (.provenanceInsert (supersedeProvenance place.id oldId sessionId)) →
        supersedeProvenance place.id oldId sessionId ∈ r.store.provenance) := by
  obtain ⟨-, rfl⟩ | ⟨u, old, r₀, hrenamed, hr₀, rfl⟩ := memorySupersede_cases h hr
  · simp [failed] at hok
  · rcases memoryInsertEx_spec h hr₀ with ⟨-, rfl⟩ | ⟨t, place, hland, hlanded⟩
    · simp [failed] at hok
    · have hstamp : Landed db out s t place
          { r₀ with store := stampReplacement pf db out r₀.store r₀.id oldId sessionId } :=
        (hlanded.of_moved (renamedStore_moved hrenamed)).stamp h out s oldId sessionId
      simp only [hlanded.ok, if_true] at hstamp ⊢
      refine ⟨u, old, t, place, hrenamed, hland, hstamp, fun hout hacc => ?_, fun hout hacc => ?_⟩
      · simp [stampReplacement_links h, hlanded.id, hout, hacc]
      · simp [stampReplacement_provenance h, hlanded.id, hout, hacc]

/-- A platform that rejects the content "password". -/
def guardedPlatform : Platform :=
  { plainPlatform with
    gateCheckSensitive := fun content => if content = text "password" then .sensitive else .clean }

/-- A store that knows a city, under id 1. -/
def berlinStore : Store := oneRowStore (factRow "city" "Berlin" (9 / 10))

/-- The supersede of a row of that store, of depth 2. -/
def supersedeCity (out : Bool) (id : ℤ) (content : String) : Option Outcome :=
  memorySupersede guardedPlatform openDb out 2 berlinStore id (text content) (9 / 10) (text "s")

/-- There is no row 7, and the store stays as it was. -/
theorem missingRow_atomic : ∃ r, supersedeCity true 7 "Paris" = some r ∧ r.ok = false ∧
    (r.ok = false → r.store.Same berlinStore) := by
  have hfails : (supersedeCity true 7 "Paris").map Outcome.ok = some false := by decide +kernel
  obtain ⟨r, hr, hok⟩ := Option.map_eq_some_iff.1 hfails
  refine ⟨r, hr, hok, (supersede_atomic_iff openDb_lawful hr).2 fun t old h => ?_⟩
  have hnone : (renamedStore guardedPlatform openDb berlinStore 7).isNone := by decide +kernel
  simp [h] at hnone

/-- The gate rejects the content after the row was renamed. -/
theorem rejectedContent_not_atomic : ∃ r, supersedeCity true 1 "password" = some r ∧
    ¬ (r.ok = false → r.store.Same berlinStore) := by
  have hfails : (supersedeCity true 1 "password").map
      (fun r => (r.ok, (r.store.rows.lookup 1).map Row.key)) = some (false, some (text "city#v1")) := by
    decide +kernel
  obtain ⟨r, hr, hrow⟩ := Option.map_eq_some_iff.1 hfails
  simp only [Prod.mk.injEq] at hrow
  refine ⟨r, hr, fun hsame => ?_⟩
  rw [(hsame hrow.1).rows 1] at hrow
  exact absurd hrow.2 (by decide +kernel)

end AimeeMemory.Core
