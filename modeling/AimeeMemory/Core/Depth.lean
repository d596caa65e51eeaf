import AimeeMemory.Core.Landing

/-!
# How deep an insert nests

An insert may supersede a row, which inserts again, and so on. Each step renames the row
that it found under the key, and a key of the insert fits its buffer, so that the new
key is longer. What is left of the room for longer keys bounds the depth.

## What is proved

* **`memoryInsertEx_isSome`**, **`memorySupersede_isSome`**: fuel above the room of the store is enough.
* **`memoryInsertEx_mono`**: more fuel changes no result.
-/

namespace AimeeMemory.Core

variable {pf : Platform} {db : Db2} {out : Bool} {n : ℕ} {s t : Store} {a : InsertArgs} {oldId : ℤ} {old : Row}

/-- The bytes by which the key of a row can still grow. -/
def Row.room (r : Row) : ℕ := 559 - r.key.length

/-- The bytes by which the keys of a store can still grow. -/
def Store.room (s : Store) : ℕ := (s.rows.entries.map fun e => e.2.room).sum

/-- A row that is written over another one changes the room by what it has itself. -/
theorem room_insert (hold : s.rows.lookup oldId = some old) (r : Row) :
    { s with rows := s.rows.insert oldId r }.room + old.room = s.room + r.room := by
  have hmem : (⟨oldId, old⟩ : Sigma fun _ : ℤ => Row) ∈ s.rows.entries := AList.mem_lookup_iff.1 hold
  obtain ⟨b, l₁, l₂, hl₁, hentries, herase⟩ := List.exists_of_kerase (List.mem_keys_of_mem hmem)
  have hb : b = old := by
    have hlookup : s.rows.lookup oldId = some b := by
      refine AList.mem_lookup_iff.2 ?_
      rw [hentries]
      simp
    simpa [hold] using hlookup.symm
  subst hb
  have hold_room : s.room = (l₁.map fun e => e.2.room).sum + (b.room + (l₂.map fun e => e.2.room).sum) := by
    simp [Store.room, hentries]
  have hnew_room : { s with rows := s.rows.insert oldId r }.room =
      r.room + ((l₁.map fun e => e.2.room).sum + (l₂.map fun e => e.2.room).sum) := by
    simp [Store.room, herase]
  omega

/-- A rename leaves no more room, and less where the key was short. -/
theorem room_renamed (h : renamedStore pf db s oldId = some (t, old)) :
    t.room ≤ s.room ∧ (old.key.length < 559 → t.room < s.room) := by
  obtain ⟨-, hold, -, rfl⟩ := renamedStore_eq h
  have hgrows := versionedKey_grows old.key (db.memoryCountVersions s old.key + 1)
  have hroom := room_insert hold { old with
    key := versionedKey old.key (db.memoryCountVersions s old.key + 1)
    validUntil := some pf.nowUtc }
  simp only [renameWrite, Store.apply, Store.update, hold]
  simp only [Row.room] at hroom
  omega

/-- The row that an insert supersedes has a key that fits the key buffer. -/
theorem supersededRow_key (h : db.Lawful) {p : Prepared} (hp : prepare pf db s a = some p)
    (hid : supersededRow pf db s a p = some oldId) :
    ∃ old, s.rows.lookup oldId = some old ∧ old.key.length < 559 := by
  have hnorm : p.normKey.length ≤ 511 := by
    simp [(prepare_spec hp).2.1]
  rw [supersededRow] at hid
  split_ifs at hid
  cases hfound : db.memoryLookupByKey s p.normKey with
  | none => simp [hfound] at hid
  | some found =>
    obtain ⟨id, existing⟩ := found
    simp only [hfound] at hid
    split_ifs at hid
    obtain rfl := Option.some.inj hid
    obtain ⟨hrow, hkey⟩ := h.lookupByKey_row hfound
    exact ⟨existing, hrow, by rw [hkey]; omega⟩

/-- **Enough fuel**: an insert returns. -/
theorem memoryInsertEx_isSome (h : db.Lawful) (hn : s.room < n) : (memoryInsertEx pf db out n s a).isSome := by
  induction n generalizing s a with
  | zero => omega
  | succ n ih =>
    rw [memoryInsertEx]
    cases hp : prepare pf db s a with
    | none => rfl
    | some p =>
      cases hid : supersededRow pf db s a p with
      | none => simp [hid]
      | some oldId =>
        obtain ⟨old, hold, hkey⟩ := supersededRow_key h hp hid
        simp only [hid, supersedeWith_eq h, Option.isSome_map]
        cases hrenamed : renamedStore pf db s oldId with
        | none => rfl
        | some renamed =>
          obtain ⟨t, old'⟩ := renamed
          obtain ⟨-, hold', -, -⟩ := renamedStore_eq hrenamed
          obtain rfl : old = old' := by simpa [hold] using hold'
          have hless := (room_renamed hrenamed).2 hkey
          simp only [Option.isSome_map]
          exact ih (by omega)

theorem memorySupersede_isSome (h : db.Lawful) (hn : s.room < n) (oldId : ℤ) (content : Text) (confidence : ℚ)
    (sessionId : Text) : (memorySupersede pf db out n s oldId content confidence sessionId).isSome := by
  rw [memorySupersede, supersedeWith_eq h]
  cases hrenamed : renamedStore pf db s oldId with
  | none => rfl
  | some renamed =>
    have hle := (room_renamed hrenamed).1
    simp only [Option.isSome_map]
    exact memoryInsertEx_isSome h (by omega)

/-- More fuel changes no result. -/
theorem memoryInsertEx_mono (h : db.Lawful) {m : ℕ} (hm : n ≤ m) {r : Outcome}
    (hr : memoryInsertEx pf db out n s a = some r) : memoryInsertEx pf db out m s a = some r := by
  induction n generalizing s a r m with
  | zero => simp [memoryInsertEx] at hr
  | succ n ih =>
    obtain ⟨m, rfl⟩ : ∃ k, m = k + 1 := ⟨m - 1, by omega⟩
    rw [memoryInsertEx] at hr ⊢
    cases hp : prepare pf db s a with
    | none => simpa [hp] using hr
    | some p =>
      cases hid : supersededRow pf db s a p with
      | none => simpa [hp, hid] using hr
      | some oldId =>
        simp only [hp, hid, supersedeWith_eq h] at hr ⊢
        cases hrenamed : renamedStore pf db s oldId with
        | none => simpa [hrenamed] using hr
        | some renamed =>
          simp only [hrenamed, Option.map_map, Option.map_eq_some_iff] at hr ⊢
          obtain ⟨r₀, hr₀, hr⟩ := hr
          exact ⟨r₀, ih (by omega) hr₀, hr⟩

end AimeeMemory.Core
