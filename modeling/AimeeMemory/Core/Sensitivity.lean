import AimeeMemory.Core.Landing
import AimeeMemory.Core.ReferenceDb
import AimeeMemory.Lib.Trace

/-!
# Labels and contents

The content scan labels a row when it is inserted. A merge and an update write another
content and keep the label.

## What is proved

* **`labelled_of_covering`**: over every run of inserts and updates from an empty store, each
  row's label covers what the scan says of its content, provided that no merge and no update
  puts a content into a row whose label does not cover it (`Covering`).
* **`mergedSecret_not_labelled`**: without the condition it does not.
-/

namespace AimeeMemory.Core

open AimeeMemory.Lib

/-- A database that does what the module relies on. -/
abbrev LawfulDb := { db : Db2 // db.Lawful }

/-- A call of the module. The database may answer each call as it likes, and `depth` is how
deep an insert may nest. -/
inductive Call where
  | memoryInsertEx (db : LawfulDb) (out : Bool) (depth : ℕ) (a : InsertArgs)
  | updateContent (db : LawfulDb) (id : ℤ) (content : Text)

/-- The store after a call. -/
def callStep (pf : Platform) (s : Store) : Call → Store
  | .memoryInsertEx db out depth a => ((memoryInsertEx pf db.1 out depth s a).map Outcome.store).getD s
  | .updateContent db id content => (memoryUpdateContent db.1 s id content).store

/-- Every row's label is at least as restrictive as the scan of its content. -/
def Labelled (pf : Platform) (s : Store) : Prop :=
  ∀ i r, s.rows.lookup i = some r → r.sensitivity.Covers (pf.memoryScanContent r.content)

/-- A placement that puts a content into an existing row only where the row's label covers the
scan of that content. A new row with the empty content is stored as normal, unscanned. -/
structure CoveringPlacement (pf : Platform) (t : Store) (place : Placement) : Prop where
  merge : ∀ old, t.rows.lookup place.id = some old →
    old.sensitivity.Covers (pf.memoryScanContent place.row.content)
  empty : t.rows.lookup place.id = none → place.row.content = [] →
    Label.normal.Covers (pf.memoryScanContent [])

/-- A call that puts a content into an existing row only where the row's label covers the scan
of that content. -/
def Covering (pf : Platform) (s : Store) : Call → Prop
  | .memoryInsertEx db _ depth a => ∀ t place, landing pf db.1 depth s a = some (t, place) →
      CoveringPlacement pf t place
  | .updateContent db id content => 0 < id → content ≠ [] → db.1.accepts (.updateContent id content) →
      ∀ old, s.rows.lookup id = some old → old.sensitivity.Covers (pf.memoryScanContent content)

variable {pf : Platform} {db : Db2} {s t : Store} {a : InsertArgs} {p : Prepared} {n : ℕ} {out : Bool}

/-- The label that the scan gives to the content of an insert. -/
theorem prepare_label (h : prepare pf db s a = some p) :
    (p.content ≠ [] → pf.memoryScanContent p.content = some p.sensitivity) ∧
      (p.content = [] → p.sensitivity = .normal) := by
  obtain ⟨-, -, ⟨hempty, hlabel⟩ | ⟨hne, hlabel⟩⟩ := prepare_spec h
  · exact ⟨fun hne => absurd hempty hne, fun _ => hlabel⟩
  · exact ⟨fun _ => hlabel, fun hempty => absurd hempty hne⟩

/-- Renaming rows changes no content and no label. -/
theorem Labelled.moved (h : Labelled pf s) (hm : Moved s t) : Labelled pf t := by
  intro i r' ht
  obtain ⟨r, hs, hmoved⟩ := hm.row ht
  rw [hmoved.fact]
  exact h i r hs

/-- The row that a placement makes is labelled, where the merges cover what they write. -/
theorem placement_labelled (h : db.Lawful) {u : Store} (hp : prepare pf db u a = some p)
    (hcover : CoveringPlacement pf t (placement pf db t a p)) :
    (placement pf db t a p).row.sensitivity.Covers
      (pf.memoryScanContent (placement pf db t a p).row.content) := by
  cases hplace : mergePlacement pf db t a p with
  | none =>
    have hfresh : placement pf db t a p = freshInsert pf db t a p := by simp [placement, hplace]
    rw [hfresh] at hcover ⊢
    obtain ⟨hscan, hnormal⟩ := prepare_label hp
    change p.sensitivity.Covers (pf.memoryScanContent p.content)
    by_cases hnil : p.content = []
    · rw [hnil, hnormal hnil]
      exact hcover.empty (h.newId_fresh t) hnil
    · rw [hscan hnil]
      exact le_rfl
  | some place =>
    obtain ⟨id, old, content, bonus, details, hold, -, -, rfl⟩ := mergePlacement_spec h hplace
    rw [placement, hplace, Option.getD_some] at hcover ⊢
    exact hcover.merge old hold

theorem labelled_insertEx (h : db.Lawful) (hs : Labelled pf s) {r : Outcome}
    (hr : memoryInsertEx pf db out n s a = some r)
    (hcover : ∀ t place, landing pf db n s a = some (t, place) → CoveringPlacement pf t place) :
    Labelled pf r.store := by
  rcases memoryInsertEx_spec h hr with ⟨-, rfl⟩ | ⟨t, place, hland, hlanded⟩
  · exact hs.moved (residue_moved n s a)
  · obtain ⟨hm, -, u, b, p, hp, rfl, -⟩ := landing_spec hland
    intro i row hrow
    rcases hlanded.lookup_cases hrow with ⟨-, v, rfl⟩ | ⟨-, hrow⟩
    · exact placement_labelled h hp (hcover t _ hland)
    · exact hs.moved hm i row hrow

theorem labelled_updateContent (h : db.Lawful) (hs : Labelled pf s) {id : ℤ} {content : Text}
    (hcover : 0 < id → content ≠ [] → db.accepts (.updateContent id content) →
      ∀ old, s.rows.lookup id = some old → old.sensitivity.Covers (pf.memoryScanContent content)) :
    Labelled pf (memoryUpdateContent db s id content).store := by
  simp only [memoryUpdateContent, h.exec_eq]
  split_ifs with hrefused hacc
  · exact hs
  · obtain ⟨hpos, hne⟩ := not_or.1 hrefused
    intro i row hrow
    rw [Store.apply, Store.lookup_update] at hrow
    split_ifs at hrow with hi
    · subst hi
      obtain ⟨old, hold, rfl⟩ := Option.map_eq_some_iff.1 hrow
      exact hcover (not_le.1 hpos) hne hacc old hold
    · exact hs i row hrow
  · exact hs

theorem labelled_step (hs : Labelled pf s) {c : Call} (hcover : Covering pf s c) :
    Labelled pf (callStep pf s c) := by
  cases c with
  | memoryInsertEx db out depth a =>
    rw [callStep]
    cases hr : memoryInsertEx pf db.1 out depth s a with
    | none => exact hs
    | some r => exact labelled_insertEx db.2 hs hr hcover
  | updateContent db id content => exact labelled_updateContent db.2 hs hcover

theorem labelled_empty : Labelled pf {} := by
  intro i r h
  simp at h

/-- **Sensitivity follows content**: over every run of inserts and updates from an empty store
in which each content put into an existing row is covered by the row's label, every row's
label covers the scan of its content. -/
theorem labelled_of_covering (pf : Platform) (calls : List Call)
    (h : Meets (callStep pf) (fun _ => Covering pf) {} calls) : Labelled pf (run (callStep pf) {} calls) :=
  run_invariant (I := fun _ => Labelled pf) labelled_empty (fun _ _ _ hs hcover => labelled_step hs hcover)
    calls h

/-! ### A secret that is merged -/

/-- A platform whose scan takes the content "secret" for sensitive. -/
def scanningPlatform : Platform :=
  { plainPlatform with
    memoryScanContent := fun content => some (if content = text "secret" then .sensitive else .normal) }

def openLawfulDb : LawfulDb := ⟨openDb, openDb_lawful⟩

/-- The arguments of an insert under the key "note". -/
def noteArgs (content : String) : InsertArgs where
  tier := .L1
  kind := .fact
  key := text "note"
  content := text content
  confidence := 1 / 2
  sessionId := []

def note (content : String) : Call := .memoryInsertEx openLawfulDb false 1 (noteArgs content)

/-- Every label covers a content that the scan takes for normal. -/
theorem covering_note {s : Store} {content : String}
    (hland : (landing scanningPlatform openDb 1 s (noteArgs content)).all fun landed =>
      scanningPlatform.memoryScanContent landed.2.row.content = some .normal) :
    Covering scanningPlatform s (note content) := by
  intro t place h
  have hcovers (l : Label) : l.Covers (some .normal) := Nat.zero_le _
  have hscan : scanningPlatform.memoryScanContent place.row.content = some .normal := by
    simpa [show landing scanningPlatform openDb 1 s (noteArgs content) = some (t, place) from h] using hland
  exact ⟨fun old _ => hscan ▸ hcovers _, fun _ _ => hcovers _⟩

/-- Two plain notes under one key. -/
theorem labelled_plainNotes :
    Labelled scanningPlatform (run (callStep scanningPlatform) {} ([] ++ [note "hello"] ++ [note "again"])) :=
  labelled_of_covering _ _ ((Meets.nil.concat (covering_note (by decide +kernel))).concat
    (covering_note (by decide +kernel)))

/-- A plain note and then a secret under its key: the secret is merged into the row of the
note, which stays labelled as normal. -/
theorem mergedSecret_not_labelled :
    ¬ Labelled scanningPlatform (run (callStep scanningPlatform) {} [note "hello", note "secret"]) := by
  intro h
  have hrow : ((run (callStep scanningPlatform) {} [note "hello", note "secret"]).rows.lookup 1).map
      (fun r => (r.content, r.sensitivity)) = some (text "secret", .normal) := by decide +kernel
  obtain ⟨r, hr, hsecret⟩ := Option.map_eq_some_iff.1 hrow
  have hcovers := h 1 r hr
  simp only [Prod.mk.injEq] at hsecret
  rw [hsecret.1, hsecret.2] at hcovers
  exact absurd hcovers (by decide +kernel)

end AimeeMemory.Core
