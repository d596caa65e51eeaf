import AimeeMemory.Core.Store
import AimeeMemory.Lib.ScoreArith
import Mathlib.Data.Nat.Bitwise

/-!
# Scheduled maintenance

`memory_maintenance_run` of `memory_maintenance.c` with the state that it keeps in db1: the
idle guard, the modes of a cycle, and the summary that is saved behind it and read back by
`memory_maintenance_last_summary`.

A summary is written as JSON with eighteen fields, of which sixteen are read back
(`lastSummary_eq_iff`).

## Honest scope

The passes of a cycle and the lookups of the database are parameters, and so are the clock,
cJSON's printer and its parser. The parser is one of flat objects. The elapsed time is a
rational, where the code has a double. The counters of the metrics and the log lines are
left out.
-/

namespace AimeeMemory.Core

open AimeeMemory.Lib

/-! ## The summary -/

/-- The fields of a summary that are written as JSON. -/
structure CycleSummary where
  skipped : Bool := false
  dryRun : Bool := false
  modesRun : ℤ := 0
  promoted : ℤ := 0
  demoted : ℤ := 0
  expired : ℤ := 0
  lifecycleArchived : ℤ := 0
  remindersExpired : ℤ := 0
  directivesExpired : ℤ := 0
  rescored : ℤ := 0
  profileCardsRefreshed : ℤ := 0
  merged : ℤ := 0
  summarized : ℤ := 0
  driftCandidates : ℤ := 0
  driftRequeued : ℤ := 0
  elapsedMs : ℚ := 0
  memoryCountBefore : ℤ := 0
  memoryCountAfter : ℤ := 0
  deriving DecidableEq, Repr

/-- `memory_maintenance_summary_t`. -/
structure MaintenanceSummary extends CycleSummary where
  summaryJson : Text := []
  deriving DecidableEq, Repr

/-- A value of a flat object. -/
inductive FlatValue where
  | bool (b : Bool)
  | num (x : ℚ)
  | other
  deriving DecidableEq, Repr

abbrev FlatObject := List (Text × FlatValue)

/-- cJSON as far as it is used here, and the sizes of the buffers for its texts. -/
structure Cjson where
  print : FlatObject → Text
  parse : Text → Option FlatObject
  /-- The conversion of a count to a double. -/
  toDouble : ℤ → ℚ
  /-- The size of `summary_json`. -/
  summarySize : ℕ
  /-- The size of `last_summary_json`. -/
  stateSize : ℕ

/-- `snprintf` of a string. -/
def snprintf (size : ℕ) (t : Text) : Text := t.take (size - 1)

/-- `memory_maintenance_summary_to_json`. -/
def summaryToJson (toDouble : ℤ → ℚ) (s : CycleSummary) : FlatObject :=
  [(text "skipped", .bool s.skipped),
   (text "dry_run", .bool s.dryRun),
   (text "modes_run", .num s.modesRun),
   (text "promoted", .num s.promoted),
   (text "demoted", .num s.demoted),
   (text "expired", .num s.expired),
   (text "lifecycle_archived", .num s.lifecycleArchived),
   (text "reminders_expired", .num s.remindersExpired),
   (text "directives_expired", .num s.directivesExpired),
   (text "rescored", .num s.rescored),
   (text "profile_cards_refreshed", .num s.profileCardsRefreshed),
   (text "merged", .num s.merged),
   (text "summarized", .num s.summarized),
   (text "drift_candidates", .num s.driftCandidates),
   (text "drift_requeued", .num s.driftRequeued),
   (text "elapsed_ms", .num s.elapsedMs),
   (text "memory_count_before", .num (toDouble s.memoryCountBefore)),
   (text "memory_count_after", .num (toDouble s.memoryCountAfter))]

/-- The summary with its JSON text. -/
def withJson (cj : Cjson) (s : CycleSummary) : MaintenanceSummary :=
  { s with summaryJson := snprintf cj.summarySize (cj.print (summaryToJson cj.toDouble s)) }

/-! ## The state in db1 -/

/-- `db1_maintenance_state_t`, where it is present. -/
structure MaintenanceState where
  lastRunAt : Text
  lastMemoryCount : ℤ
  lastChanges : ℤ
  lastElapsedMs : ℚ
  lastSummaryJson : Text
  deriving DecidableEq, Repr

/-- The changes of a cycle. -/
def cycleChanges (s : CycleSummary) : ℤ :=
  s.promoted + s.demoted + s.expired + s.lifecycleArchived + s.remindersExpired + s.directivesExpired + s.rescored +
    s.profileCardsRefreshed + s.merged + s.summarized

/-- `mm_state_save`. -/
def mmStateSave (cj : Cjson) (nowUtc : Text) (s : MaintenanceSummary) : MaintenanceState where
  lastRunAt := nowUtc
  lastMemoryCount := s.memoryCountAfter
  lastChanges := cycleChanges s.toCycleSummary
  lastElapsedMs := s.elapsedMs
  lastSummaryJson := snprintf cj.stateSize s.summaryJson

/-- `cJSON_GetObjectItem`. -/
def flatField (key : String) (j : FlatObject) : Option FlatValue := (j.find? (·.1 = text key)).map (·.2)

/-- A field that is read where it is a boolean. -/
def readBool (key : String) (j : FlatObject) (default : Bool) : Bool :=
  match flatField key j with
  | some (.bool b) => b
  | _ => default

/-- A field that is read where it is a number. -/
def readInt (key : String) (j : FlatObject) (default : ℤ) : ℤ :=
  match flatField key j with
  | some (.num x) => ScoreArith.trunc x
  | _ => default

/-- `memory_maintenance_last_summary`. -/
def lastSummary (cj : Cjson) (state : Option MaintenanceState) : Option MaintenanceSummary :=
  state.map fun st =>
    let out : MaintenanceSummary :=
      { summaryJson := snprintf cj.summarySize st.lastSummaryJson
        elapsedMs := st.lastElapsedMs
        memoryCountAfter := st.lastMemoryCount }
    match cj.parse st.lastSummaryJson with
    | none => out
    | some j =>
      { out with
        skipped := readBool "skipped" j out.skipped
        dryRun := readBool "dry_run" j out.dryRun
        modesRun := readInt "modes_run" j out.modesRun
        promoted := readInt "promoted" j out.promoted
        demoted := readInt "demoted" j out.demoted
        expired := readInt "expired" j out.expired
        lifecycleArchived := readInt "lifecycle_archived" j out.lifecycleArchived
        remindersExpired := readInt "reminders_expired" j out.remindersExpired
        directivesExpired := readInt "directives_expired" j out.directivesExpired
        rescored := readInt "rescored" j out.rescored
        profileCardsRefreshed := readInt "profile_cards_refreshed" j out.profileCardsRefreshed
        merged := readInt "merged" j out.merged
        summarized := readInt "summarized" j out.summarized
        memoryCountBefore := readInt "memory_count_before" j out.memoryCountBefore
        memoryCountAfter := readInt "memory_count_after" j out.memoryCountAfter }

theorem trunc_intCast (n : ℤ) : ScoreArith.trunc (n : ℚ) = n := by
  show (if (n : ℚ) < 0 then -⌊-(n : ℚ)⌋ else ⌊(n : ℚ)⌋) = n
  split
  · rw [← Int.cast_neg, Int.floor_intCast, neg_neg]
  · exact Int.floor_intCast n

theorem readInt_eq {key : String} {j : FlatObject} {n d : ℤ} (h : flatField key j = some (.num n)) :
    readInt key j d = n := by
  rw [readInt, h]
  exact trunc_intCast n

theorem readBool_eq {key : String} {j : FlatObject} {b d : Bool} (h : flatField key j = some (.bool b)) :
    readBool key j d = b := by
  rw [readBool, h]

/-- A count that a double holds. -/
def Exact (cj : Cjson) (n : ℤ) : Prop := n.natAbs < 2 ^ 53 → cj.toDouble n = n

/-- What is read back of a summary that is saved: all but the two fields of the drift mode. -/
theorem lastSummary_save (cj : Cjson) (nowUtc : Text) (s : CycleSummary) (hexact : ∀ n, Exact cj n)
    (hbefore : s.memoryCountBefore.natAbs < 2 ^ 53) (hafter : s.memoryCountAfter.natAbs < 2 ^ 53)
    (hsummary : (cj.print (summaryToJson cj.toDouble s)).length < cj.summarySize)
    (hstate : (cj.print (summaryToJson cj.toDouble s)).length < cj.stateSize)
    (hparse : cj.parse (cj.print (summaryToJson cj.toDouble s)) = some (summaryToJson cj.toDouble s)) :
    (lastSummary cj (some (mmStateSave cj nowUtc (withJson cj s)))).map MaintenanceSummary.toCycleSummary =
      some { s with driftCandidates := 0, driftRequeued := 0 } := by
  have hstored : (mmStateSave cj nowUtc (withJson cj s)).lastSummaryJson = cj.print (summaryToJson cj.toDouble s) := by
    show snprintf cj.stateSize (snprintf cj.summarySize _) = _
    rw [snprintf, snprintf, List.take_of_length_le (by rw [List.length_take]; omega),
      List.take_of_length_le (by omega)]
  have hcount : ∀ n : ℤ, n.natAbs < 2 ^ 53 → FlatValue.num (cj.toDouble n) = .num (n : ℚ) :=
    fun n hn => congrArg _ (hexact n hn)
  rw [lastSummary, Option.map_some, Option.map_some, hstored, hparse]
  apply congrArg some
  rw [CycleSummary.mk.injEq]
  refine ⟨readBool_eq rfl, readBool_eq rfl, readInt_eq rfl, readInt_eq rfl, readInt_eq rfl, readInt_eq rfl, readInt_eq rfl,
    readInt_eq rfl, readInt_eq rfl, readInt_eq rfl, readInt_eq rfl, readInt_eq rfl, readInt_eq rfl, rfl, rfl, rfl, ?_, ?_⟩
  · exact readInt_eq (congrArg some (hcount _ hbefore))
  · exact readInt_eq (congrArg some (hcount _ hafter))

/-- A summary that is saved is read back as it was exactly when the drift mode has counted nothing. -/
theorem lastSummary_eq_iff (cj : Cjson) (nowUtc : Text) (s : CycleSummary) (hexact : ∀ n, Exact cj n)
    (hbefore : s.memoryCountBefore.natAbs < 2 ^ 53) (hafter : s.memoryCountAfter.natAbs < 2 ^ 53)
    (hsummary : (cj.print (summaryToJson cj.toDouble s)).length < cj.summarySize)
    (hstate : (cj.print (summaryToJson cj.toDouble s)).length < cj.stateSize)
    (hparse : cj.parse (cj.print (summaryToJson cj.toDouble s)) = some (summaryToJson cj.toDouble s)) :
    (lastSummary cj (some (mmStateSave cj nowUtc (withJson cj s)))).map MaintenanceSummary.toCycleSummary = some s ↔
      s.driftCandidates = 0 ∧ s.driftRequeued = 0 := by
  rw [lastSummary_save cj nowUtc s hexact hbefore hafter hsummary hstate hparse, Option.some_inj]
  constructor
  · intro h
    rw [← h]
    exact ⟨rfl, rfl⟩
  · rintro ⟨hcandidates, hrequeued⟩
    cases s
    obtain rfl : _ = _ := hcandidates
    obtain rfl : _ = _ := hrequeued
    rfl

/-- cJSON as it is for one summary, with the summary's text. -/
def cjsonOf (s : CycleSummary) (t : Text) : Cjson where
  print _ := t
  parse u := if u = t then some (summaryToJson (fun n => n) s) else none
  toDouble n := n
  summarySize := 1024
  stateSize := 1024

theorem cjsonOf_parse (s : CycleSummary) (t : Text) (j : FlatObject) :
    (cjsonOf s t).parse ((cjsonOf s t).print j) = some (summaryToJson (cjsonOf s t).toDouble s) := if_pos rfl

theorem cjsonOf_room {s : CycleSummary} {t : Text} (h : t.length < 1024) (j : FlatObject) :
    ((cjsonOf s t).print j).length < (cjsonOf s t).summarySize ∧ ((cjsonOf s t).print j).length < (cjsonOf s t).stateSize :=
  ⟨h, h⟩

def prunedCycle : CycleSummary :=
  { modesRun := 3, promoted := 2, demoted := 1, expired := 4, remindersExpired := 1, rescored := 9, elapsedMs := 25 / 2,
    memoryCountBefore := 120, memoryCountAfter := 116 }

def prunedText : Text :=
  text "\x7b\"skipped\":false,\"dry_run\":false,\"modes_run\":3," ++
  text "\"promoted\":2,\"demoted\":1,\"expired\":4," ++
  text "\"lifecycle_archived\":0,\"reminders_expired\":1," ++
  text "\"directives_expired\":0,\"rescored\":9," ++
  text "\"profile_cards_refreshed\":0,\"merged\":0,\"summarized\":0," ++
  text "\"drift_candidates\":0,\"drift_requeued\":0," ++
  text "\"elapsed_ms\":12.5,\"memory_count_before\":120," ++
  text "\"memory_count_after\":116\x7d"

theorem length_prunedText : prunedText.length < 1024 := by decide +kernel

theorem lastSummary_prunedCycle :
    (lastSummary (cjsonOf prunedCycle prunedText) (some (mmStateSave (cjsonOf prunedCycle prunedText)
        (text "2026-01-05T10:00:00Z") (withJson (cjsonOf prunedCycle prunedText) prunedCycle)))).map
          MaintenanceSummary.toCycleSummary = some prunedCycle ↔
      prunedCycle.driftCandidates = 0 ∧ prunedCycle.driftRequeued = 0 :=
  have hroom := cjsonOf_room length_prunedText _
  lastSummary_eq_iff _ _ _ (fun _ _ => rfl) (by decide) (by decide) hroom.1 hroom.2 (cjsonOf_parse _ _ _)

/-- A cycle of the drift mode. -/
def driftCycle : CycleSummary :=
  { modesRun := 16, driftCandidates := 5, driftRequeued := 2, elapsedMs := 3, memoryCountBefore := 116,
    memoryCountAfter := 116 }

def driftText : Text :=
  text "\x7b\"skipped\":false,\"dry_run\":false,\"modes_run\":16," ++
  text "\"promoted\":0,\"demoted\":0,\"expired\":0," ++
  text "\"lifecycle_archived\":0,\"reminders_expired\":0," ++
  text "\"directives_expired\":0,\"rescored\":0," ++
  text "\"profile_cards_refreshed\":0,\"merged\":0,\"summarized\":0," ++
  text "\"drift_candidates\":5,\"drift_requeued\":2," ++
  text "\"elapsed_ms\":3,\"memory_count_before\":116," ++
  text "\"memory_count_after\":116\x7d"

theorem length_driftText : driftText.length < 1024 := by decide +kernel

/-- Five candidates and two projects that were requeued are read back as none. -/
theorem lastSummary_driftCycle :
    (lastSummary (cjsonOf driftCycle driftText) (some (mmStateSave (cjsonOf driftCycle driftText)
      (text "2026-01-05T10:00:00Z") (withJson (cjsonOf driftCycle driftText) driftCycle)))).map
        MaintenanceSummary.toCycleSummary ≠ some driftCycle := by
  have hroom := cjsonOf_room (s := driftCycle) length_driftText (summaryToJson (cjsonOf driftCycle driftText).toDouble driftCycle)
  rw [lastSummary_save _ _ _ (fun _ _ => rfl) (by decide) (by decide) hroom.1 hroom.2 (cjsonOf_parse _ _ _)]
  decide

/-! ## A cycle -/

/-- A pass over the store, with what it counts. -/
abbrev CyclePass (R : Type*) := R → R × ℤ

/-- What a cycle runs in: the modes of `memory.h`, the configuration, and the passes. -/
structure CycleEnv (R : Type*) where
  modesDefault : ℕ
  modeReplay : ℕ
  modePrune : ℕ
  modeCompact : ℕ
  modeSummarize : ℕ
  modeDrift : ℕ
  memoryCount : R → ℤ
  /-- The functions of db1 are linked. -/
  stateLinked : Bool
  intervalConfigured : ℤ
  intervalDefault : ℤ
  parseIso8601 : Text → ℤ
  profileCardsEnabled : Bool
  profileCardsMinObs : ℤ
  profileCardsStaleSecs : ℤ
  dedupeEnabled : Bool
  maintenanceSummarizeEnabled : Bool
  improveSummariseEnabled : Bool
  improveMinCluster : ℤ
  improveMaxConfidence : ℚ
  computeEffectiveness : CyclePass R
  profileCardRefresh : ℤ → ℤ → CyclePass R
  curiosityRescoreAll : CyclePass R
  lifecycleSweepExpired : CyclePass R
  prospectiveSweepExpired : CyclePass R
  directiveSweepExpired : CyclePass R
  /-- The rows promoted, demoted and expired. -/
  runMaintenance : R → R × ℤ × ℤ × ℤ
  improveDedupe : Bool → CyclePass R
  improveSummarise : Bool → ℤ → ℚ → CyclePass R
  driftCandidates : R → ℤ
  requeueDrifted : CyclePass R

variable {R : Type*} (E : CycleEnv R)

/-- The times of a run: when the guard looks at the clock, when the state is saved, and how long it took. -/
structure CycleTimes where
  now : ℤ
  nowUtc : Text
  elapsedMs : ℚ

/-- `mm_interval_secs`. -/
def mmIntervalSecs : ℤ := if 0 < E.intervalConfigured then E.intervalConfigured else E.intervalDefault

/-- `mm_should_skip`. -/
def mmShouldSkip (now : ℤ) (state : Option MaintenanceState) (currentCount : ℤ) : Bool :=
  match state with
  | none => false
  | some st =>
    if currentCount ≠ st.lastMemoryCount then false
    else if mmIntervalSecs E ≤ 0 then false
    else
      let lastRun := E.parseIso8601 st.lastRunAt
      if lastRun = 0 then false
      else if now - lastRun < 0 then false
      else now - lastRun < mmIntervalSecs E

/-- A count that is written where it is positive. -/
def ifPositive (n old : ℤ) : ℤ := if 0 < n then n else old

/-- A setting, or its default. -/
def settingOr {α : Type*} [LT α] [Zero α] [DecidableLT α] (setting default : α) : α := if 0 < setting then setting else default

def replayMode (rows : R) (out : CycleSummary) : R × CycleSummary :=
  let (rows, rescored) := E.computeEffectiveness rows
  let out := { out with rescored := ifPositive rescored out.rescored }
  let (rows, out) :=
    if E.profileCardsEnabled then
      let (rows, refreshed) :=
        E.profileCardRefresh (settingOr E.profileCardsMinObs 10) (settingOr E.profileCardsStaleSecs 86400) rows
      (rows, { out with profileCardsRefreshed := ifPositive refreshed out.profileCardsRefreshed })
    else (rows, out)
  let (rows, curiosityRescored) := E.curiosityRescoreAll rows
  (rows, { out with rescored := if 0 < curiosityRescored then out.rescored + curiosityRescored else out.rescored })

def pruneMode (rows : R) (out : CycleSummary) : R × CycleSummary :=
  let (rows, archived) := E.lifecycleSweepExpired rows
  let (rows, rem) := E.prospectiveSweepExpired rows
  let (rows, dirs) := E.directiveSweepExpired rows
  let (rows, promoted, demoted, expired) := E.runMaintenance rows
  (rows, { out with
    lifecycleArchived := ifPositive archived out.lifecycleArchived
    remindersExpired := ifPositive rem out.remindersExpired
    directivesExpired := ifPositive dirs out.directivesExpired
    promoted, demoted, expired })

def compactMode (dryRun : Bool) (rows : R) (out : CycleSummary) : R × CycleSummary :=
  if E.dedupeEnabled then
    let (rows, merged) := E.improveDedupe dryRun rows
    (rows, { out with merged := ifPositive merged out.merged })
  else (rows, out)

def summarizeMode (dryRun : Bool) (rows : R) (out : CycleSummary) : R × CycleSummary :=
  if E.maintenanceSummarizeEnabled || E.improveSummariseEnabled then
    let (rows, summarized) :=
      E.improveSummarise dryRun (settingOr E.improveMinCluster 3) (settingOr E.improveMaxConfidence (6 / 10)) rows
    (rows, { out with summarized := ifPositive summarized out.summarized })
  else (rows, out)

def driftMode (dryRun : Bool) (rows : R) (out : CycleSummary) : R × CycleSummary :=
  let out := { out with driftCandidates := E.driftCandidates rows }
  if dryRun then (rows, out)
  else
    let (rows, driftRequeued) := E.requeueDrifted rows
    (rows, { out with driftRequeued })

/-- The modes of a cycle that are asked for, in their order. -/
def runModes (modes : ℕ) (dryRun : Bool) (rows : R) (out : CycleSummary) : R × CycleSummary :=
  let asked (mode : ℕ) : Bool := modes &&& mode ≠ 0
  let (rows, out) := if asked E.modeReplay && !dryRun then replayMode E rows out else (rows, out)
  let (rows, out) := if asked E.modePrune && !dryRun then pruneMode E rows out else (rows, out)
  let (rows, out) := if asked E.modeCompact then compactMode E dryRun rows out else (rows, out)
  let (rows, out) := if asked E.modeSummarize then summarizeMode E dryRun rows out else (rows, out)
  if asked E.modeDrift then driftMode E dryRun rows out else (rows, out)

/-- What a run leaves: the store, the state in db1, and the summary. -/
structure CycleResult (R : Type*) where
  rows : R
  state : Option MaintenanceState
  summary : MaintenanceSummary

/-- The state that a run finds. -/
def loadState (stored : Option MaintenanceState) : Option MaintenanceState := if E.stateLinked then stored else none

/-- `memory_maintenance_run`. -/
def memoryMaintenanceRun (cj : Cjson) (modes : ℕ) (force dryRun : Bool) (times : CycleTimes)
    (stored : Option MaintenanceState) (rows : R) : CycleResult R :=
  let modes := if modes = 0 then E.modesDefault else modes
  let countBefore := E.memoryCount rows
  let out : CycleSummary := { modesRun := modes, dryRun, memoryCountBefore := countBefore }
  if !force && mmShouldSkip E times.now (loadState E stored) countBefore then
    { rows
      state := stored
      summary := withJson cj { out with skipped := true, memoryCountAfter := countBefore, elapsedMs := times.elapsedMs } }
  else
    let (rows, out) := runModes E modes dryRun rows out
    let summary := withJson cj { out with memoryCountAfter := E.memoryCount rows, elapsedMs := times.elapsedMs }
    { rows
      state := if !dryRun && E.stateLinked then some (mmStateSave cj times.nowUtc summary) else stored
      summary }

end AimeeMemory.Core
