import AimeeMemory.Core.Insert

/-!
# Where an insert lands

An insert decides by the store it finds where its content goes: through the gate and the
scan, past a row that it supersedes, into a row that it merges with or a new one.
`landing` is that decision, with the store the content is written in; `residue` is the
store that an insert leaves when it fails. Both are read off the store before the call.

## What is proved

* **`memoryInsertEx_spec`**: an insert does what `landing` says, or fails and leaves the `residue`.
* `landing_spec`, `residue_moved`: the stores in between differ from the first only by
  renamed rows.
-/

namespace AimeeMemory.Core

variable (pf : Platform) (db : Db2)

/-- The store in which a supersede inserts, and the row it replaces. -/
def renamedStore (s : Store) (oldId : ℤ) : Option (Store × Row) :=
  if oldId ≤ 0 then none
  else (s.rows.lookup oldId).bind fun old =>
    if db.accepts (renameWrite pf db s oldId old) then some (s.apply (renameWrite pf db s oldId old), old)
    else none

/-- The insert that an insert makes by superseding a row, and the store it is made in. -/
def nestedInsert (s : Store) (a : InsertArgs) (p : Prepared) : Option (Store × InsertArgs) :=
  (supersededRow pf db s a p).bind fun oldId =>
    (renamedStore pf db s oldId).map fun renamed =>
      (renamed.1, replacementArgs renamed.2 p.content a.confidence a.sessionId)

/-- The store that an insert which fails leaves: the rows it meant to supersede are renamed. -/
def residue : ℕ → Store → InsertArgs → Store
  | 0, s, _ => s
  | n + 1, s, a =>
    match (prepare pf db s a).bind (nestedInsert pf db s a) with
    | none => s
    | some nested => residue n nested.1 nested.2

/-- The last stages of an insert, where the database takes the row. -/
def landingHere (s : Store) (a : InsertArgs) (p : Prepared) : Option (Store × Placement) :=
  if db.accepts (placement pf db s a p).write then some (s, placement pf db s a p) else none

/-- Where the content of an insert goes, and the store in which it goes there. -/
def landing : ℕ → Store → InsertArgs → Option (Store × Placement)
  | 0, _, _ => none
  | n + 1, s, a =>
    match prepare pf db s a with
    | none => none
    | some p =>
      match nestedInsert pf db s a p with
      | none => landingHere pf db s a p
      | some nested =>
        (landing n nested.1 nested.2).or (landingHere pf db (residue pf db n nested.1 nested.2) a p)

variable {pf db}

/-- What an insert that lands has done to the store it began with. -/
structure Landed (db : Db2) (out : Bool) (s t : Store) (place : Placement) (r : Outcome) : Prop where
  ok : r.ok = true
  id : r.id = place.id
  row : ∃ v, r.store.rows.lookup place.id = some { place.row with validFrom := v }
  others : ∀ i, i ≠ place.id → r.store.rows.lookup i = t.rows.lookup i
  keepsLinks : ∀ l ∈ s.links, l ∈ r.store.links
  links : ∀ l ∈ r.store.links, l ∈ s.links ∨ (out = true ∧ db.accepts (.linkCreate l))
  keepsProvenance : ∀ p ∈ s.provenance, p ∈ r.store.provenance
  provenance : ∀ p ∈ r.store.provenance, p.action = text "supersede" →
    p ∈ s.provenance ∨ (out = true ∧ db.accepts (.provenanceInsert p))

variable {s : Store} {a : InsertArgs} {p : Prepared} {out : Bool} {n : ℕ}

/-- A row after the insert is the placement's, up to its validity, or one that was there beside it. -/
theorem Landed.lookup_cases {t : Store} {place : Placement} {r : Outcome} (h : Landed db out s t place r) {i : ℤ} {row : Row}
    (hrow : r.store.rows.lookup i = some row) :
    (i = place.id ∧ ∃ v, row = { place.row with validFrom := v }) ∨ (i ≠ place.id ∧ t.rows.lookup i = some row) := by
  by_cases hi : i = place.id
  · obtain ⟨v, hv⟩ := h.row
    exact .inl ⟨hi, v, Option.some.inj (hrow.symm.trans (hi ▸ hv))⟩
  · rw [h.others i hi] at hrow
    exact .inr ⟨hi, hrow⟩

/-- The last stages of an insert: the content lands where its write is accepted. -/
theorem mergeOrInsert_landed (h : db.Lawful) (s : Store) (a : InsertArgs) (p : Prepared) (out : Bool)
    (hacc : db.accepts (placement pf db s a p).write) :
    Landed db out s s (placement pf db s a p) (mergeOrInsert pf db s a p) := by
  obtain ⟨hok, hid, hrows, hlinks, hprov⟩ := mergeOrInsert_store h s a p hacc
  refine ⟨hok, hid, ⟨(placement pf db s a p).row.validFrom, ?_⟩, ?_, ?_, ?_, ?_, ?_⟩
  · rw [hrows, lookup_placement h, if_pos rfl]
  · intro i hi
    rw [hrows, lookup_placement h, if_neg hi]
  · simp [hlinks]
  · intro l hl
    exact .inl (hlinks ▸ hl)
  · intro q hq
    rw [hprov]
    exact List.mem_append_left _ hq
  · intro q hq haction
    rw [hprov] at hq
    rcases List.mem_append.1 hq with hq | hq
    · exact .inl hq
    · split_ifs at hq
      · rw [List.mem_singleton.1 hq] at haction
        exact absurd haction (placement_action_ne h s a p)
      · simp at hq

/-! ### Renamed rows -/

/-- A key that a supersede writes. -/
def IsVersioned (key : Text) : Prop := ∃ base version, key = versionedKey base version

/-- A row that was renamed any number of times: all but its key and its validity is as before. -/
structure Row.Moved (r r' : Row) : Prop where
  fact : r' = { r with key := r'.key, validUntil := r'.validUntil }
  key : r'.key = r.key ∨ IsVersioned r'.key
  grows : min 559 r.key.length ≤ r'.key.length

/-- A store in which rows were renamed. -/
structure Moved (s t : Store) : Prop where
  rows : ∀ {i r}, s.rows.lookup i = some r → ∃ r', t.rows.lookup i = some r' ∧ r.Moved r'
  none : ∀ {i}, s.rows.lookup i = none → t.rows.lookup i = none
  rest : { t with rows := s.rows } = s

theorem Moved.links {s t : Store} (h : Moved s t) : t.links = s.links := by
  rw [← h.rest]

theorem Moved.provenance {s t : Store} (h : Moved s t) : t.provenance = s.provenance := by
  rw [← h.rest]

theorem Row.Moved.refl (r : Row) : r.Moved r := ⟨rfl, .inl rfl, min_le_right _ _⟩

theorem Row.Moved.trans {r r' r'' : Row} (h : r.Moved r') (h' : r'.Moved r'') : r.Moved r'' := by
  refine ⟨?_, ?_, ?_⟩
  · rw [h'.fact, h.fact]
  · rcases h'.key with hkey | hkey
    · rw [hkey]
      exact h.key
    · exact .inr hkey
  · have := h.grows
    have := h'.grows
    omega

theorem Moved.refl (s : Store) : Moved s s := ⟨fun h => ⟨_, h, .refl _⟩, id, rfl⟩

theorem Moved.trans {s t u : Store} (h : Moved s t) (h' : Moved t u) : Moved s u := by
  refine ⟨fun hs => ?_, fun hs => h'.none (h.none hs), ?_⟩
  · obtain ⟨r', ht, hr⟩ := h.rows hs
    obtain ⟨r'', hu, hr'⟩ := h'.rows ht
    exact ⟨r'', hu, hr.trans hr'⟩
  · have hrest := congrArg (fun t : Store => { t with rows := s.rows }) h'.rest
    exact hrest.trans h.rest

/-- A row of the renamed store comes from the row with its id. -/
theorem Moved.row {s t : Store} (h : Moved s t) {i : ℤ} {r' : Row} (ht : t.rows.lookup i = some r') :
    ∃ r, s.rows.lookup i = some r ∧ r.Moved r' := by
  cases hs : s.rows.lookup i with
  | none => simp [h.none hs] at ht
  | some r =>
    obtain ⟨r'', ht', hr⟩ := h.rows hs
    obtain rfl : r'' = r' := by simpa [ht'] using ht
    exact ⟨r, rfl, hr⟩

theorem versionedKey_grows (key : Text) (version : ℕ) :
    min 559 (key.length + 2) ≤ (versionedKey key version).length := by
  simp only [versionedKey, List.length_take, List.length_append]
  have : (text "#v").length = 2 := by decide +kernel
  omega

variable {t : Store} {oldId : ℤ} {old : Row}

theorem renamedStore_eq (h : renamedStore pf db s oldId = some (t, old)) :
    0 < oldId ∧ s.rows.lookup oldId = some old ∧ db.accepts (renameWrite pf db s oldId old) ∧
      t = s.apply (renameWrite pf db s oldId old) := by
  rw [renamedStore] at h
  split_ifs at h with hpos
  obtain ⟨r, hr, h⟩ := Option.bind_eq_some_iff.1 h
  split_ifs at h with hacc
  cases h
  exact ⟨not_le.1 hpos, hr, hacc, rfl⟩

/-- The renamed row, and the rows that stay. -/
theorem lookup_renamed (h : renamedStore pf db s oldId = some (t, old)) (i : ℤ) :
    t.rows.lookup i = if i = oldId then some { old with
      key := versionedKey old.key (db.memoryCountVersions s old.key + 1)
      validUntil := some pf.nowUtc } else s.rows.lookup i := by
  obtain ⟨-, hold, -, rfl⟩ := renamedStore_eq h
  rw [renameWrite, Store.apply, Store.lookup_update]
  by_cases hi : i = oldId
  · subst hi
    simp [hold]
  · simp [hi]

theorem renamedStore_moved (h : renamedStore pf db s oldId = some (t, old)) : Moved s t := by
  obtain ⟨-, hold, -, ht⟩ := renamedStore_eq h
  refine ⟨fun {i r} hr => ?_, fun {i} hi => ?_, by rw [ht]; exact Store.update_rest ..⟩
  · rw [lookup_renamed h]
    by_cases hi : i = oldId
    · subst hi
      obtain rfl : old = r := by simpa [hold] using hr
      refine ⟨_, if_pos rfl, rfl, .inr ⟨_, _, rfl⟩, ?_⟩
      have := versionedKey_grows old.key (db.memoryCountVersions s old.key + 1)
      simp only
      omega
    · exact ⟨r, by rw [if_neg hi, hr], .refl r⟩
  · have hne : i ≠ oldId := by rintro rfl; simp [hold] at hi
    rw [lookup_renamed h, if_neg hne, hi]

theorem nestedInsert_moved {nested : Store × InsertArgs} (h : nestedInsert pf db s a p = some nested) :
    Moved s nested.1 := by
  obtain ⟨id, -, h⟩ := Option.bind_eq_some_iff.1 h
  obtain ⟨⟨u, row⟩, hu, rfl⟩ := Option.map_eq_some_iff.1 h
  exact renamedStore_moved hu

theorem residue_moved (n : ℕ) (s : Store) (a : InsertArgs) : Moved s (residue pf db n s a) := by
  induction n generalizing s a with
  | zero => exact .refl s
  | succ n ih =>
    rw [residue]
    cases hn : (prepare pf db s a).bind (nestedInsert pf db s a) with
    | none => exact .refl s
    | some nested =>
      obtain ⟨p, -, hp⟩ := Option.bind_eq_some_iff.1 hn
      exact (nestedInsert_moved hp).trans (ih _ _)

theorem landingHere_eq {place : Placement} (h : landingHere pf db s a p = some (t, place)) :
    t = s ∧ place = placement pf db s a p ∧ db.accepts place.write := by
  rw [landingHere] at h
  split_ifs at h with hacc
  cases h
  exact ⟨rfl, rfl, hacc⟩

theorem nestedInsert_confidence {nested : Store × InsertArgs} (h : nestedInsert pf db s a p = some nested) :
    nested.2.confidence = a.confidence := by
  obtain ⟨id, -, h⟩ := Option.bind_eq_some_iff.1 h
  obtain ⟨renamed, -, rfl⟩ := Option.map_eq_some_iff.1 h
  rfl

/-- The content lands in a renamed store, by a write that is accepted, with the confidence of the insert. -/
theorem landing_spec {place : Placement} (h : landing pf db n s a = some (t, place)) :
    Moved s t ∧ db.accepts place.write ∧
      ∃ u b p, prepare pf db u b = some p ∧ place = placement pf db t b p ∧ b.confidence = a.confidence := by
  induction n generalizing s a with
  | zero => simp [landing] at h
  | succ n ih =>
    rw [landing] at h
    cases hp : prepare pf db s a with
    | none => simp [hp] at h
    | some p =>
      simp only [hp] at h
      cases hn : nestedInsert pf db s a p with
      | none =>
        simp only [hn] at h
        obtain ⟨rfl, hplace, hacc⟩ := landingHere_eq h
        exact ⟨.refl _, hacc, _, a, p, hp, hplace, rfl⟩
      | some nested =>
        simp only [hn] at h
        have hmoved := nestedInsert_moved hn
        rcases Option.or_eq_some_iff.1 h with h | ⟨-, h⟩
        · obtain ⟨hm, hacc, u, b, q, hq, hplace, hconfidence⟩ := ih h
          exact ⟨hmoved.trans hm, hacc, u, b, q, hq, hplace, hconfidence.trans (nestedInsert_confidence hn)⟩
        · obtain ⟨rfl, hplace, hacc⟩ := landingHere_eq h
          exact ⟨hmoved.trans (residue_moved ..), hacc, _, a, p, hp, hplace, rfl⟩

/-- Only an L2 content supersedes. -/
theorem supersededRow_of_tier (hp : prepare pf db s a = some p) (h : a.tier ≠ .L2) : supersededRow pf db s a p = none := by
  have htier : p.tier ≠ .L2 := by
    rw [(prepare_spec hp).1]
    split_ifs
    · simp
    · exact h
  simp [supersededRow, htier]

/-! ### What an insert does -/

theorem Landed.of_moved {u : Store} {place : Placement} {r : Outcome} (h : Landed db out t u place r)
    (hm : Moved s t) : Landed db out s u place r where
  ok := h.ok
  id := h.id
  row := h.row
  others := h.others
  keepsLinks := hm.links ▸ h.keepsLinks
  links := hm.links ▸ h.links
  keepsProvenance := hm.provenance ▸ h.keepsProvenance
  provenance := hm.provenance ▸ h.provenance

section stamp

variable (hdb : db.Lawful) (out : Bool) (s : Store) (id oldId : ℤ) (sessionId : Text)
include hdb

theorem attempt_setValidFrom_keeps (ts : Text) : (db.attempt s (.setValidFrom id ts)).links = s.links ∧
    (db.attempt s (.setValidFrom id ts)).provenance = s.provenance := by
  rw [hdb.attempt_eq]
  split_ifs <;> simp [Store.apply]

theorem stampReplacement_links : (stampReplacement pf db out s id oldId sessionId).links =
    s.links ++ if out ∧ db.accepts (.linkCreate (supersedesLink id oldId)) then [supersedesLink id oldId]
      else [] := by
  cases out
  · simp [stampReplacement]
  · simp [stampReplacement, hdb.attempt_linkCreate, hdb.attempt_provenanceInsert,
      attempt_setValidFrom_keeps hdb]

theorem stampReplacement_provenance : (stampReplacement pf db out s id oldId sessionId).provenance =
    s.provenance ++ if out ∧ db.accepts (.provenanceInsert (supersedeProvenance id oldId sessionId)) then
      [supersedeProvenance id oldId sessionId] else [] := by
  cases out
  · simp [stampReplacement]
  · simp [stampReplacement, hdb.attempt_linkCreate, hdb.attempt_provenanceInsert,
      attempt_setValidFrom_keeps hdb]

variable (pf) in
/-- Stamping changes no row but the new one, and of that only its validity. -/
theorem lookup_stampReplacement (i : ℤ) : ∃ f : Row → Row, (∀ r, ∃ v, f r = { r with validFrom := v }) ∧
    (stampReplacement pf db out s id oldId sessionId).rows.lookup i =
      if i = id then (s.rows.lookup i).map f else s.rows.lookup i := by
  cases out with
  | false => exact ⟨fun r => r, fun r => ⟨r.validFrom, rfl⟩, by simp [stampReplacement]⟩
  | true =>
    simp only [stampReplacement, hdb.attempt_linkCreate, hdb.attempt_provenanceInsert, hdb.attempt_eq, if_true]
    split_ifs with hacc hi hi
    · refine ⟨fun r => { r with validFrom := some pf.nowUtc }, fun r => ⟨_, rfl⟩, ?_⟩
      rw [Store.apply, Store.lookup_update, if_pos hi]
    · refine ⟨fun r => r, fun r => ⟨r.validFrom, rfl⟩, ?_⟩
      rw [Store.apply, Store.lookup_update, if_neg hi]
    · exact ⟨fun r => r, fun r => ⟨r.validFrom, rfl⟩, by simp⟩
    · exact ⟨fun r => r, fun r => ⟨r.validFrom, rfl⟩, rfl⟩

/-- Stamping the new row keeps what landed. -/
theorem Landed.stamp {t : Store} {place : Placement} {r : Outcome} (h : Landed db out s t place r) :
    Landed db out s t place
      { r with store := stampReplacement pf db out r.store r.id oldId sessionId } := by
  have hrow (i : ℤ) := lookup_stampReplacement pf hdb out r.store r.id oldId sessionId i
  refine ⟨h.ok, h.id, ?_, fun i hi => ?_, fun l hl => ?_, fun l hl => ?_, fun q hq => ?_, fun q hq haction => ?_⟩
  · obtain ⟨v, hv⟩ := h.row
    obtain ⟨f, hf, hlookup⟩ := hrow place.id
    obtain ⟨w, hw⟩ := hf { place.row with validFrom := v }
    refine ⟨w, ?_⟩
    dsimp only
    rw [hlookup, if_pos h.id.symm, hv, Option.map_some, hw]
  · obtain ⟨f, -, hlookup⟩ := hrow i
    dsimp only
    rw [hlookup, if_neg (h.id ▸ hi), h.others i hi]
  · simp only [stampReplacement_links hdb]
    exact List.mem_append_left _ (h.keepsLinks l hl)
  · simp only [stampReplacement_links hdb] at hl
    rcases List.mem_append.1 hl with hl | hl
    · exact h.links l hl
    · split_ifs at hl with hacc
      · exact .inr (List.mem_singleton.1 hl ▸ hacc)
      · simp at hl
  · simp only [stampReplacement_provenance hdb]
    exact List.mem_append_left _ (h.keepsProvenance q hq)
  · simp only [stampReplacement_provenance hdb] at hq
    rcases List.mem_append.1 hq with hq | hq
    · exact h.provenance q hq haction
    · split_ifs at hq with hacc
      · exact .inr (List.mem_singleton.1 hq ▸ hacc)
      · simp at hq

end stamp

/-- A supersede renames the row and inserts in the store that leaves. -/
theorem supersedeWith_eq (h : db.Lawful) (insert : Store → InsertArgs → Option Outcome) (out : Bool) (s : Store)
    (oldId : ℤ) (content : Text) (confidence : ℚ) (sessionId : Text) :
    supersedeWith pf db insert out s oldId content confidence sessionId =
      match renamedStore pf db s oldId with
      | none => some (failed s)
      | some (t, old) => (insert t (replacementArgs old content confidence sessionId)).map fun r =>
          if r.ok then { r with store := stampReplacement pf db out r.store r.id oldId sessionId }
          else failed r.store := by
  rw [supersedeWith, renamedStore, h.memoryGet_eq]
  split_ifs with hid
  · rfl
  · cases s.rows.lookup oldId with
    | none => rfl
    | some old =>
      simp only [h.exec_eq, Option.bind_some]
      split_ifs <;> rfl

/-- **What an insert does**: its content lands as `landing` says, or it fails and leaves the
`residue`. -/
theorem memoryInsertEx_spec (h : db.Lawful) {r : Outcome} (hr : memoryInsertEx pf db out n s a = some r) :
    (landing pf db n s a = none ∧ r = failed (residue pf db n s a)) ∨
      ∃ t place, landing pf db n s a = some (t, place) ∧ Landed db out s t place r := by
  induction n generalizing s a r with
  | zero => simp [memoryInsertEx] at hr
  | succ n ih =>
    rw [memoryInsertEx] at hr
    rw [landing, residue]
    cases hp : prepare pf db s a with
    | none =>
      simp only [hp, Option.some.injEq] at hr
      exact .inl ⟨rfl, by simp [← hr]⟩
    | some p =>
      simp only [hp, Option.bind_some] at hr ⊢
      have hhere (u : Store) (hm : Moved s u) (hstop : mergeOrInsert pf db u a p = r) :
          (landingHere pf db u a p = none ∧ r = failed u) ∨
            ∃ t place, landingHere pf db u a p = some (t, place) ∧ Landed db out s t place r := by
        subst hstop
        cases hacc : db.accepts (placement pf db u a p).write with
        | false => exact .inl ⟨by simp [landingHere, hacc], mergeOrInsert_refused h u a p hacc⟩
        | true => exact .inr ⟨u, _, by simp [landingHere, hacc],
            (mergeOrInsert_landed h u a p out hacc).of_moved hm⟩
      cases hold : supersededRow pf db s a p with
      | none =>
        simp only [hold, Option.some.injEq, nestedInsert, Option.bind_none] at hr ⊢
        exact hhere s (.refl s) hr
      | some oldId =>
        simp only [hold, supersedeWith_eq h, nestedInsert, Option.bind_some] at hr ⊢
        cases hrenamed : renamedStore pf db s oldId with
        | none =>
          simp only [hrenamed, Option.map_some, failed, Bool.false_eq_true, if_false, Option.some.injEq,
            Option.map_none] at hr ⊢
          exact hhere s (.refl s) hr
        | some renamed =>
          obtain ⟨u, old⟩ := renamed
          have hm := renamedStore_moved hrenamed
          simp only [hrenamed, Option.map_some, Option.map_map, Option.map_eq_some_iff,
            Function.comp_apply] at hr ⊢
          obtain ⟨r₀, hr₀, hr⟩ := hr
          rcases ih hr₀ with ⟨hnone, rfl⟩ | ⟨t, place, hland, hlanded⟩
          · -- the nested insert failed, and the merge stages run on what it left
            simp only [failed, Bool.false_eq_true, if_false] at hr
            simpa [hnone] using hhere _ (hm.trans (residue_moved ..)) hr
          · simp only [hlanded.ok, if_true] at hr
            subst hr
            have hstamp : Landed db out s t place
                { r₀ with store := stampReplacement pf db out r₀.store r₀.id oldId a.sessionId } :=
              (hlanded.of_moved hm).stamp h out s oldId a.sessionId
            rw [hlanded.ok] at hstamp
            exact .inr ⟨t, place, by simp [hland], hstamp⟩

end AimeeMemory.Core
