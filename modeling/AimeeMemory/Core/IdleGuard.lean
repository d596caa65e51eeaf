import AimeeMemory.Core.MaintenanceCycle
import Mathlib.Data.List.AList

/-!
# The idle guard

Two runs of the maintenance with operations on the store between them. The guard of the
second run looks at the number of the rows and at the clock. Where the clock lets it skip,
it skips over whatever leaves the number as it was saved (`guard_skips_idle_iff`).

## Honest scope

The rows are of any type: a change of the lifecycle is an update of the row. An insert under
an id that is taken, and an update or a delete of a row that is not there, change nothing.
-/

namespace AimeeMemory.Core

variable {β : Type*}

/-- The rows of the store by their ids. -/
abbrev RowsOf (β : Type*) := AList fun _ : ℤ => β

inductive StoreOp (β : Type*) where
  | insert (id : ℤ) (row : β)
  | delete (id : ℤ)
  | update (id : ℤ) (change : β → β)

def StoreOp.apply (rows : RowsOf β) : StoreOp β → RowsOf β
  | .insert id row => if id ∈ rows then rows else rows.insert id row
  | .delete id => rows.erase id
  | .update id change =>
    match rows.lookup id with
    | some row => rows.insert id (change row)
    | none => rows

/-- The rows that an operation adds, less those it removes. -/
def StoreOp.adds (rows : RowsOf β) : StoreOp β → ℤ
  | .insert id _ => if id ∈ rows then 0 else 1
  | .delete id => if id ∈ rows then -1 else 0
  | .update _ _ => 0

def applyAll (ops : List (StoreOp β)) (rows : RowsOf β) : RowsOf β := ops.foldl StoreOp.apply rows

/-- The rows that operations one after the other add, less those they remove. -/
def added : List (StoreOp β) → RowsOf β → ℤ
  | [], _ => 0
  | op :: ops, rows => op.adds rows + added ops (op.apply rows)

/-- The same row under every id. -/
def SameRows (s t : RowsOf β) : Prop := ∀ id, s.lookup id = t.lookup id

/-- The clock lets a cycle run: no state, no time of the last run, or one that is not within the interval. -/
def Due {R : Type*} (E : CycleEnv R) (now : ℤ) (state : Option MaintenanceState) : Prop :=
  ∀ st ∈ state, mmIntervalSecs E ≤ 0 ∨ E.parseIso8601 st.lastRunAt = 0 ∨ now < E.parseIso8601 st.lastRunAt ∨
    mmIntervalSecs E ≤ now - E.parseIso8601 st.lastRunAt

/-- By how many rows the saved number is ahead of the store. -/
def ahead {R : Type*} (E : CycleEnv R) (r : CycleResult R) : ℤ :=
  ((loadState E r.state).map MaintenanceState.lastMemoryCount).getD (E.memoryCount r.rows) - E.memoryCount r.rows

/-! ### What one operation does to the number of rows -/

theorem length_keys_insert {rows : RowsOf β} {id : ℤ} (row : β) (h : id ∉ rows) :
    (rows.insert id row).keys.length = rows.keys.length + 1 := by
  rw [AList.keys_insert, List.length_cons, List.erase_of_not_mem h]

theorem length_keys_insert_of_mem {rows : RowsOf β} {id : ℤ} (row : β) (h : id ∈ rows) :
    (rows.insert id row).keys.length = rows.keys.length := by
  have hpos : 0 < rows.keys.length := List.length_pos_of_mem h
  rw [AList.keys_insert, List.length_cons, List.length_erase_of_mem h]
  omega

theorem length_keys_erase {rows : RowsOf β} {id : ℤ} (h : id ∈ rows) :
    ((rows.erase id).keys.length : ℤ) = rows.keys.length - 1 := by
  have hpos : 0 < rows.keys.length := List.length_pos_of_mem h
  rw [AList.keys_erase, List.length_erase_of_mem h]
  omega

theorem length_keys_apply (op : StoreOp β) (rows : RowsOf β) :
    ((op.apply rows).keys.length : ℤ) = rows.keys.length + op.adds rows := by
  cases op with
  | insert id row =>
    rw [StoreOp.apply, StoreOp.adds]
    by_cases h : id ∈ rows
    · rw [if_pos h, if_pos h, add_zero]
    · rw [if_neg h, if_neg h, length_keys_insert row h]
      rfl
  | delete id =>
    rw [StoreOp.apply, StoreOp.adds]
    by_cases h : id ∈ rows
    · rw [if_pos h, length_keys_erase h]
      rfl
    · rw [if_neg h, AList.keys_erase, List.erase_of_not_mem h, add_zero]
  | update id change =>
    rw [StoreOp.apply, StoreOp.adds, add_zero]
    cases h : rows.lookup id with
    | none => rfl
    | some row => rw [length_keys_insert_of_mem _ (AList.lookup_isSome.1 (by rw [h]; rfl))]

/-- What a run of operations does to the number of rows. -/
theorem length_keys_applyAll (ops : List (StoreOp β)) (rows : RowsOf β) :
    ((applyAll ops rows).keys.length : ℤ) = rows.keys.length + added ops rows := by
  induction ops generalizing rows with
  | nil => exact (add_zero _).symm
  | cons op ops ih =>
    show ((applyAll ops (op.apply rows)).keys.length : ℤ) = _
    rw [ih, length_keys_apply, added, add_assoc]

/-! ### What the guard sees -/

variable {R : Type*} {E : CycleEnv R}

/-- The guard skips a cycle that is not due where the number of rows is the saved one. -/
theorem mmShouldSkip_iff (now : ℤ) (state : Option MaintenanceState) (count : ℤ) :
    mmShouldSkip E now state count = true ↔
      (state.map MaintenanceState.lastMemoryCount).getD count = count ∧ ¬ Due E now state := by
  cases state with
  | none =>
    constructor
    · exact fun h => by cases h
    · exact fun h => absurd (fun st hst => by cases hst) h.2
  | some st =>
    have hdue : Due E now (some st) ↔ mmIntervalSecs E ≤ 0 ∨ E.parseIso8601 st.lastRunAt = 0 ∨
        now < E.parseIso8601 st.lastRunAt ∨ mmIntervalSecs E ≤ now - E.parseIso8601 st.lastRunAt := by
      simp [Due]
    rw [hdue, mmShouldSkip, Option.map_some, Option.getD_some]
    dsimp only
    split_ifs with h1 h2 h3 h4
    · simp only [false_iff]
      exact fun h => h1 h.1.symm
    · simp [h2]
    · simp [h3]
    · simp only [false_iff]
      exact fun h => h.2 (.inr (.inr (.inl (by omega))))
    · rw [decide_eq_true_iff]
      constructor
      · intro hlt
        refine ⟨by simpa [eq_comm] using h1, ?_⟩
        rintro (h | h | h | h)
        · exact h2 h
        · exact h3 h
        · omega
        · omega
      · rintro ⟨-, hnot⟩
        by_contra hge
        exact hnot (.inr (.inr (.inr (by omega))))

/-- The modes leave alone whether the cycle was skipped. -/
theorem runModes_skipped (modes : ℕ) (dryRun : Bool) (rows : R) (out : CycleSummary) :
    (runModes E modes dryRun rows out).2.skipped = out.skipped := by
  have hreplay : ∀ rows out, (replayMode E rows out).2.skipped = out.skipped := by
    intro rows out
    unfold replayMode
    dsimp only
    split <;> rfl
  have hprune : ∀ rows out, (pruneMode E rows out).2.skipped = out.skipped := fun _ _ => rfl
  have hcompact : ∀ rows out, (compactMode E dryRun rows out).2.skipped = out.skipped := by
    intro rows out
    unfold compactMode
    split <;> rfl
  have hsummarize : ∀ rows out, (summarizeMode E dryRun rows out).2.skipped = out.skipped := by
    intro rows out
    unfold summarizeMode
    split <;> rfl
  have hdrift : ∀ rows out, (driftMode E dryRun rows out).2.skipped = out.skipped := by
    intro rows out
    unfold driftMode
    dsimp only
    split <;> rfl
  unfold runModes
  dsimp only
  split_ifs <;> simp only [hreplay, hprune, hcompact, hsummarize, hdrift]

/-- A run that is not forced is skipped exactly when the guard says so. -/
theorem skipped_iff (cj : Cjson) (modes : ℕ) (dryRun : Bool) (times : CycleTimes) (stored : Option MaintenanceState)
    (rows : R) : (memoryMaintenanceRun E cj modes false dryRun times stored rows).summary.skipped = true ↔
      mmShouldSkip E times.now (loadState E stored) (E.memoryCount rows) = true := by
  rw [memoryMaintenanceRun]
  cases h : mmShouldSkip E times.now (loadState E stored) (E.memoryCount rows) with
  | true => exact ⟨fun _ => rfl, fun _ => rfl⟩
  | false =>
    refine ⟨fun hskipped => ?_, fun hskip => by cases hskip⟩
    have hmodes := runModes_skipped (E := E) (if modes = 0 then E.modesDefault else modes) dryRun rows
      { modesRun := (if modes = 0 then E.modesDefault else modes : ℕ), dryRun, memoryCountBefore := E.memoryCount rows }
    exact absurd (hmodes.symm.trans hskipped) Bool.false_ne_true

/-- The second of two runs that are not forced is skipped over unchanged rows only, exactly
when the rows are unchanged, or their number is not the saved one any more, or the cycle is due. -/
theorem guard_skips_idle_iff (E : CycleEnv (RowsOf β)) (cj : Cjson) (hcount : ∀ rows, E.memoryCount rows = rows.keys.length)
    (modes₁ modes₂ : ℕ) (dry₁ dry₂ : Bool) (times₁ times₂ : CycleTimes) (stored : Option MaintenanceState)
    (rows : RowsOf β) (ops : List (StoreOp β)) :
    let first := memoryMaintenanceRun E cj modes₁ false dry₁ times₁ stored rows
    let second := memoryMaintenanceRun E cj modes₂ false dry₂ times₂ first.state (applyAll ops first.rows)
    (second.summary.skipped = true → SameRows (applyAll ops first.rows) first.rows) ↔
      SameRows (applyAll ops first.rows) first.rows ∨ added ops first.rows ≠ ahead E first ∨
        Due E times₂.now (loadState E first.state) := by
  intro first second
  have hskip : second.summary.skipped = true ↔
      added ops first.rows = ahead E first ∧ ¬ Due E times₂.now (loadState E first.state) := by
    rw [skipped_iff, mmShouldSkip_iff, hcount, length_keys_applyAll]
    refine and_congr_left fun hdue => ?_
    cases hstate : loadState E first.state with
    | none =>
      rw [hstate] at hdue
      exact absurd (fun st hst => by cases hst) hdue
    | some st =>
      rw [ahead, hstate, hcount, Option.map_some, Option.getD_some, Option.getD_some]
      constructor <;> intro h <;> omega
  rw [hskip]
  tauto

/-- Behind a run that is not dry, the saved number is that of the rows. -/
theorem ahead_eq_zero (cj : Cjson) (modes : ℕ) (times : CycleTimes) (stored : Option MaintenanceState) (rows : R) :
    ahead E (memoryMaintenanceRun E cj modes false false times stored rows) = 0 := by
  cases hlinked : E.stateLinked with
  | false =>
    rw [ahead, loadState, hlinked]
    exact sub_self _
  | true =>
    rw [ahead, loadState, if_pos hlinked, memoryMaintenanceRun]
    cases hskip : mmShouldSkip E times.now (loadState E stored) (E.memoryCount rows) with
    | true =>
      have hcount := ((mmShouldSkip_iff _ _ _).1 hskip).1
      rw [loadState, if_pos hlinked] at hcount
      exact sub_eq_zero.2 hcount
    | false =>
      simp only [Bool.not_false, Bool.true_and, hlinked, Bool.false_eq_true, if_false, if_true, Option.map_some,
        Option.getD_some]
      exact sub_self _

/-- A store of texts on which a cycle does nothing, every five minutes. -/
def quietEnv : CycleEnv (RowsOf Text) where
  modesDefault := 7
  modeReplay := 1
  modePrune := 2
  modeCompact := 4
  modeSummarize := 8
  modeDrift := 16
  memoryCount rows := rows.keys.length
  stateLinked := true
  intervalConfigured := 300
  intervalDefault := 3600
  parseIso8601 _ := 1000
  profileCardsEnabled := false
  profileCardsMinObs := 10
  profileCardsStaleSecs := 86400
  dedupeEnabled := false
  maintenanceSummarizeEnabled := false
  improveSummariseEnabled := false
  improveMinCluster := 3
  improveMaxConfidence := 1 / 2
  computeEffectiveness rows := (rows, 0)
  profileCardRefresh _ _ rows := (rows, 0)
  curiosityRescoreAll rows := (rows, 0)
  lifecycleSweepExpired rows := (rows, 0)
  prospectiveSweepExpired rows := (rows, 0)
  directiveSweepExpired rows := (rows, 0)
  runMaintenance rows := (rows, 0, 0, 0)
  improveDedupe _ rows := (rows, 0)
  improveSummarise _ _ _ rows := (rows, 0)
  driftCandidates _ := 0
  requeueDrifted rows := (rows, 0)

def quietTimes (now : ℤ) : CycleTimes := { now, nowUtc := text "1970-01-01T00:16:40Z", elapsedMs := 1 }

def oneRow : RowsOf Text := AList.singleton 1 (text "the build runs on jenkins")

/-- The first run of the quiet store. -/
def quietFirst : CycleResult (RowsOf Text) :=
  memoryMaintenanceRun quietEnv (cjsonOf {} []) 0 false false (quietTimes 1000) none oneRow

/-- An update in place. -/
def correction : List (StoreOp Text) := [.update 1 fun _ => text "the build runs on buildkite"]

theorem guard_skips_quiet :
    (∀ rows, quietEnv.memoryCount rows = rows.keys.length) ∧
    (((memoryMaintenanceRun quietEnv (cjsonOf {} []) 0 false false (quietTimes 1010) quietFirst.state
          (applyAll [] quietFirst.rows)).summary.skipped = true → SameRows (applyAll [] quietFirst.rows) quietFirst.rows) ↔
      SameRows (applyAll [] quietFirst.rows) quietFirst.rows ∨ added [] quietFirst.rows ≠ ahead quietEnv quietFirst ∨
        Due quietEnv 1010 (loadState quietEnv quietFirst.state)) :=
  ⟨fun _ => rfl, guard_skips_idle_iff quietEnv (cjsonOf {} []) (fun _ => rfl) 0 0 false false (quietTimes 1000)
    (quietTimes 1010) none oneRow []⟩

/-- Ten seconds later the row is another one, and the cycle is skipped. -/
theorem guard_skips_correction :
    ¬ ((memoryMaintenanceRun quietEnv (cjsonOf {} []) 0 false false (quietTimes 1010) quietFirst.state
        (applyAll correction quietFirst.rows)).summary.skipped = true →
      SameRows (applyAll correction quietFirst.rows) quietFirst.rows) := by
  intro h
  have hskipped : (memoryMaintenanceRun quietEnv (cjsonOf {} []) 0 false false (quietTimes 1010) quietFirst.state
      (applyAll correction quietFirst.rows)).summary.skipped = true := by decide +kernel
  have hsame := h hskipped 1
  exact absurd hsame (by decide +kernel)

end AimeeMemory.Core
