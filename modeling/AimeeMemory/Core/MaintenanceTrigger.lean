import AimeeMemory.Lib.Trace
import AimeeMemory.Recall.RelativeDates

/-!
# When maintenance runs

`memory_maybe_run_maintenance` of `memory_core_helpers.c`: every stored memory asks whether a cycle is due. What is
counted and when the last cycle was is kept as text in the runtime state of db1, and a flag holds off the calls that
come from inside a cycle.

## What is proved

* **`maintenance_schedule`**: over every run the two texts are the number of calls since the last cycle that succeeded
  and its time. A cycle begins at a call exactly when the trigger is reached or the time is over, so with the trigger
  `T` no `T` calls pass without one, and every call tries again behind a cycle that failed. Scenes are clustered only
  behind `9T` failures in a row.

## Honest scope

db1 is linked and keeps what it is given, and its two keys have no other writer. The passes of a cycle, the sweep and
the clustering are the events of the run. The flag is that of one thread.
-/

namespace AimeeMemory.Core

open AimeeMemory.Lib
open AimeeMemory.Recall (atoi)

/-! ## The code -/

/-- A value as an `int`. -/
def cInt (n : ℤ) : ℤ := n.bmod (2 ^ 32)

/-- `%d`. -/
def printCInt (n : ℤ) : Text := (if n < 0 then text "-" else []) ++ padded 1 n.natAbs

/-- A call, with the settings that it reads and the time. -/
structure MaintenanceCall where
  configInserts : ℤ
  configSecs : ℤ
  envInserts : Option Text
  envSecs : Option Text
  now : ℤ

/-- A setting of the environment goes before that of the configuration, where it is positive. -/
def settingFrom (config default : ℤ) (env : Option Text) : ℤ :=
  let configured := if 0 < config then config else default
  match env with
  | none => configured
  | some t => if t ≠ [] ∧ 0 < atoi t then atoi t else configured

def MaintenanceCall.triggerInserts (c : MaintenanceCall) : ℤ := settingFrom c.configInserts 20 c.envInserts

def MaintenanceCall.triggerSecs (c : MaintenanceCall) : ℤ := settingFrom c.configSecs 600 c.envSecs

/-- What a call remembers while its cycle runs. -/
structure RunningCycle where
  pending : ℤ
  now : ℤ
  triggerInserts : ℤ

inductive MaintenanceEvent where
  | begins
  | swept
  | clustered
  deriving DecidableEq

/-- The runtime state, the flag and what was done. -/
structure TriggerState where
  pendingWrites : Option Text := none
  lastRunEpoch : Option Text := none
  running : Option RunningCycle := none
  done : List MaintenanceEvent := []

/-- A call, or the end of the cycle that runs. -/
inductive MaintenanceInput where
  | call (c : MaintenanceCall)
  | cycleEnds (result : ℤ) (lifecycleEnabled scenesEnabled : Bool)

/-- A key of the runtime state, where it is there and not empty. -/
def readState (stored : Option Text) : Option ℤ := (stored.filter (· ≠ [])).map atoi

/-- `memory_maybe_run_maintenance`, up to the cycle. -/
def TriggerState.call (s : TriggerState) (c : MaintenanceCall) : TriggerState :=
  if s.running.isSome then s
  else
    let pending := ((readState s.pendingWrites).map fun n => cInt (n + 1)).getD 1
    let lastRun := (readState s.lastRunEpoch).getD 0
    let shouldRun : Bool :=
      (0 < c.triggerInserts && c.triggerInserts ≤ pending) ||
        (0 < c.triggerSecs && 0 < lastRun && c.triggerSecs ≤ cInt (c.now - lastRun))
    { pendingWrites := some (printCInt pending)
      lastRunEpoch := if lastRun = 0 then some (printCInt (cInt c.now)) else s.lastRunEpoch
      running := if shouldRun then some ⟨pending, c.now, c.triggerInserts⟩ else none
      done := if shouldRun then s.done ++ [.begins] else s.done }

/-- The rest, behind the cycle. -/
def TriggerState.cycleEnds (s : TriggerState) (result : ℤ) (lifecycleEnabled scenesEnabled : Bool) : TriggerState :=
  match s.running with
  | none => s
  | some cycle =>
    { pendingWrites := if result = 0 then some (text "0") else s.pendingWrites
      lastRunEpoch := if result = 0 then some (printCInt (cInt cycle.now)) else s.lastRunEpoch
      running := none
      done := s.done ++ (if lifecycleEnabled then [.swept] else []) ++
        if scenesEnabled && cInt (cycle.triggerInserts * 10) ≤ cycle.pending then [.clustered] else [] }

def TriggerState.step (s : TriggerState) : MaintenanceInput → TriggerState
  | .call c => s.call c
  | .cycleEnds result lifecycleEnabled scenesEnabled => s.cycleEnds result lifecycleEnabled scenesEnabled

/-! ## The schedule -/

/-- What is to be known: the calls since the last cycle that succeeded, its time (that of the first call, before there
is one), the time at which the cycle that runs began, and the failures since. -/
structure Schedule where
  waiting : ℕ := 0
  stamp : Option ℤ := none
  active : Option ℤ := none
  failed : ℕ := 0
  clustered : ℕ := 0

/-- A cycle is due at a time, as the last of so many calls. -/
def Schedule.Due (T S : ℤ) (a : Schedule) (now : ℤ) : Prop := T ≤ a.waiting + 1 ∨ ∃ t ∈ a.stamp, S ≤ now - t

instance (T S : ℤ) (a : Schedule) (now : ℤ) : Decidable (a.Due T S now) := inferInstanceAs (Decidable (_ ∨ _))

def Schedule.step (T S : ℤ) (a : Schedule) : MaintenanceInput → Schedule
  | .call c =>
    if a.active.isSome then a
    else
      { a with
        waiting := a.waiting + 1
        stamp := some (a.stamp.getD c.now)
        active := if a.Due T S c.now then some c.now else none }
  | .cycleEnds result _ scenesEnabled =>
    match a.active with
    | none => a
    | some now =>
      { waiting := if result = 0 then 0 else a.waiting
        stamp := if result = 0 then some now else a.stamp
        active := none
        failed := if result = 0 then 0 else a.failed + 1
        clustered := if scenesEnabled && T * 10 ≤ a.waiting then a.clustered + 1 else a.clustered }

/-- The runtime state tells the schedule. -/
structure Tells (T : ℤ) (s : TriggerState) (a : Schedule) : Prop where
  waiting : ((readState s.pendingWrites).getD 0) = a.waiting
  stamp : readState s.lastRunEpoch = a.stamp
  active : s.running = a.active.map fun now => ⟨a.waiting, now, T⟩
  clustered : s.done.count .clustered = a.clustered

/-- The calls and times of a run with fixed triggers. The times are positive and fit an `int`. -/
def MaintenanceInput.Within (T S : ℤ) : MaintenanceInput → Prop
  | .call c => c.triggerInserts = T ∧ c.triggerSecs = S ∧ 0 < c.now ∧ c.now < 2 ^ 31
  | .cycleEnds _ _ _ => True

/-- What holds of the schedule behind so many inputs. -/
structure Schedule.Kept (T : ℤ) (n : ℕ) (a : Schedule) : Prop where
  waiting : a.waiting ≤ n
  stamp : ∀ t ∈ a.stamp, 0 < t ∧ t < 2 ^ 31
  active : ∀ t ∈ a.active, 0 < t ∧ t < 2 ^ 31
  idle : a.active = none → a.waiting < T + a.failed
  running : a.waiting ≤ T + a.failed

variable {T S : ℤ} {s : TriggerState} {a : Schedule} {c : MaintenanceCall} {n : ℕ}

/-! ## Numbers as text -/

theorem cInt_of_lt {v : ℤ} (hlow : -2 ^ 31 ≤ v) (hhigh : v < 2 ^ 31) : cInt v = v := by
  rw [cInt]
  exact Int.bmod_eq_of_le (by omega) (by omega)

theorem readState_printCInt (v : ℕ) : readState (some (printCInt v)) = some (v : ℤ) := by
  have htext : printCInt v = padded 1 v := by
    rw [printCInt, if_neg (by omega), List.nil_append, Int.natAbs_natCast]
  have hnumber : Recall.IsNumber (padded 1 v) := Recall.isNumber_padded Nat.one_pos v
  rw [htext, readState, Option.filter_some, if_pos (decide_eq_true hnumber.1), Option.map_some, Recall.atoi_number hnumber,
    readDigits_padded]

theorem readState_time {t : ℤ} (h : 0 < t ∧ t < 2 ^ 31) : readState (some (printCInt (cInt t))) = some t := by
  obtain ⟨v, rfl⟩ := Int.eq_ofNat_of_zero_le h.1.le
  rw [cInt_of_lt (by omega) h.2]
  exact readState_printCInt v

/-! ## One input -/

theorem Schedule.Kept.call (h : a.Kept T n) (hc : (MaintenanceInput.call c).Within T S) :
    (a.step T S (.call c)).Kept T (n + 1) := by
  obtain ⟨-, -, hnow⟩ := hc
  rw [Schedule.step]
  by_cases hactive : a.active.isSome
  · rw [if_pos hactive]
    exact ⟨Nat.le_succ_of_le h.waiting, h.stamp, h.active, h.idle, h.running⟩
  · rw [if_neg hactive]
    have hidle := h.idle (Option.not_isSome_iff_eq_none.1 hactive)
    refine ⟨Nat.succ_le_succ h.waiting, ?_, ?_, ?_, by push_cast; omega⟩
    · intro t ht
      cases hstamp : a.stamp with
      | none =>
        rw [hstamp] at ht
        cases ht
        exact hnow
      | some t' =>
        rw [hstamp] at ht
        cases ht
        exact h.stamp _ hstamp
    · intro t ht
      dsimp only at ht
      split_ifs at ht with hdue
      · cases ht
        exact hnow
      · cases ht
    · intro hnone
      dsimp only at hnone
      split_ifs at hnone with hdue
      rw [Schedule.Due, not_or, not_le] at hdue
      have := hdue.1
      push_cast
      omega

theorem Schedule.Kept.cycleEnds (hT : 0 < T) (h : a.Kept T n) (result : ℤ) (l sc : Bool) :
    (a.step T S (.cycleEnds result l sc)).Kept T (n + 1) := by
  rw [Schedule.step]
  cases hactive : a.active with
  | none => exact ⟨Nat.le_succ_of_le h.waiting, h.stamp, h.active, h.idle, h.running⟩
  | some now =>
    have hrunning := h.running
    have hwaiting := h.waiting
    by_cases hresult : result = 0
    · simp only [hresult, if_true]
      refine ⟨Nat.zero_le _, ?_, by simp, fun _ => by simpa using hT, by simpa using hT.le⟩
      intro t ht
      cases ht
      exact h.active _ hactive
    · simp only [hresult, if_false]
      exact ⟨Nat.le_succ_of_le hwaiting, h.stamp, by simp, fun _ => by push_cast; omega, by push_cast; omega⟩

/-- The number of calls that a call writes down. -/
theorem Tells.pending (h : Tells T s a) (hn : a.waiting + 1 < 2 ^ 31) :
    ((readState s.pendingWrites).map fun n => cInt (n + 1)).getD 1 = ((a.waiting + 1 : ℕ) : ℤ) := by
  have hwaiting := h.waiting
  cases hread : readState s.pendingWrites with
  | none =>
    rw [hread, Option.getD_none] at hwaiting
    rw [Option.map_none, Option.getD_none]
    push_cast
    omega
  | some v =>
    rw [hread, Option.getD_some] at hwaiting
    rw [Option.map_some, Option.getD_some, cInt_of_lt (by omega) (by omega), hwaiting]
    push_cast
    rfl

/-- A call is due in the code exactly where it is due in the schedule. -/
theorem Tells.due_iff (h : Tells T s a) (hkept : a.Kept T n) (hT : 0 < T) (hS : 0 < S) {now : ℤ} (hnow : 0 < now ∧ now < 2 ^ 31) :
    ((0 < T && T ≤ ((a.waiting + 1 : ℕ) : ℤ)) ||
      (0 < S && 0 < (readState s.lastRunEpoch).getD 0 && S ≤ cInt (now - (readState s.lastRunEpoch).getD 0))) =
        decide (a.Due T S now) := by
  rw [h.stamp, Bool.eq_iff_iff, decide_eq_true_eq, Schedule.Due]
  cases hstamp : a.stamp with
  | none => simp [hT]
  | some t =>
    have ht := hkept.stamp t hstamp
    have htime : cInt (now - t) = now - t := cInt_of_lt (by omega) (by omega)
    simp [hT, hS, ht.1, htime]

theorem Tells.call (h : Tells T s a) (hkept : a.Kept T n) (hn : n + 1 < 2 ^ 31) (hT : 0 < T) (hS : 0 < S)
    (hc : (MaintenanceInput.call c).Within T S) : Tells T (s.call c) (a.step T S (.call c)) := by
  obtain ⟨rfl, rfl, hnow⟩ := hc
  have hrunning := h.active
  rw [TriggerState.call, Schedule.step]
  cases hactive : a.active with
  | some t =>
    rw [hactive, Option.map_some] at hrunning
    rwa [if_pos (by rw [hrunning]; rfl), if_pos (by rfl)]
  | none =>
    rw [hactive, Option.map_none] at hrunning
    have hdue := h.due_iff hkept hT hS hnow
    rw [if_neg (by simp [hrunning]), if_neg (by simp), h.pending (by have := hkept.waiting; omega)]
    dsimp only
    rw [hdue]
    refine ⟨by rw [readState_printCInt, Option.getD_some], ?_, ?_, ?_⟩
    · rw [h.stamp]
      cases hstamp : a.stamp with
      | none => exact readState_time hnow
      | some t =>
        have ht := (hkept.stamp t hstamp).1
        rw [Option.getD_some, if_neg ht.ne', h.stamp, hstamp, Option.getD_some]
    · by_cases hd : a.Due c.triggerInserts c.triggerSecs c.now
      · simp [hd]
      · simp [hd]
    · by_cases hd : a.Due c.triggerInserts c.triggerSecs c.now
      · simp [hd, h.clustered]
      · simp [hd, h.clustered]

theorem Tells.cycleEnds (h : Tells T s a) (hkept : a.Kept T n) (hT : 0 < T) (hT10 : T * 10 < 2 ^ 31) (result : ℤ) (l sc : Bool) :
    Tells T (s.cycleEnds result l sc) (a.step T S (.cycleEnds result l sc)) := by
  have hrunning := h.active
  rw [TriggerState.cycleEnds, Schedule.step]
  cases hactive : a.active with
  | none =>
    rw [hactive, Option.map_none] at hrunning
    rwa [hrunning]
  | some now =>
    rw [hactive, Option.map_some] at hrunning
    rw [hrunning]
    dsimp only
    rw [cInt_of_lt (by omega) hT10]
    have hswept : (if l then [MaintenanceEvent.swept] else []).count .clustered = 0 := by
      cases l
      · rfl
      · rfl
    have hcount : (s.done ++ (if l then [MaintenanceEvent.swept] else []) ++
        (if (sc && T * 10 ≤ a.waiting) then [MaintenanceEvent.clustered] else [])).count .clustered =
          if (sc && T * 10 ≤ a.waiting) then a.clustered + 1 else a.clustered := by
      rw [List.count_append, List.count_append, hswept, h.clustered]
      cases (sc && decide (T * 10 ≤ a.waiting))
      · rfl
      · rfl
    by_cases hresult : result = 0
    · simp only [hresult, if_true]
      have hzero : readState (some (text "0")) = some 0 := readState_printCInt 0
      exact ⟨by rw [hzero]; rfl, readState_time (hkept.active now hactive), rfl, hcount⟩
    · simp only [hresult, if_false]
      exact ⟨h.waiting, h.stamp, rfl, hcount⟩

/-! ## Whole runs -/

theorem Tells.start (T : ℤ) : Tells T {} {} := ⟨rfl, rfl, rfl, rfl⟩

theorem Schedule.Kept.start (hT : 0 < T) : Schedule.Kept T 0 {} where
  waiting := le_rfl
  stamp t ht := by cases ht
  active t ht := by cases ht
  idle _ := by simpa using hT
  running := by simpa using hT.le

theorem tells_run {is : List MaintenanceInput} (hT : 0 < T) (hS : 0 < S) (hT10 : T * 10 < 2 ^ 31)
    (his : ∀ i ∈ is, i.Within T S) (hlength : is.length < 2 ^ 31) :
    Tells T (run TriggerState.step {} is) (run (Schedule.step T S) {} is) ∧
      (run (Schedule.step T S) {} is).Kept T is.length := by
  induction is using List.reverseRecOn with
  | nil => exact ⟨.start T, .start hT⟩
  | append_singleton is i ih =>
    rw [List.length_append, List.length_singleton] at hlength
    obtain ⟨htells, hkept⟩ := ih (fun j hj => his j (List.mem_append_left _ hj)) (by omega)
    have hi := his i (List.mem_append_right _ List.mem_cons_self)
    rw [run_concat, run_concat, List.length_append, List.length_singleton]
    cases i with
    | call c => exact ⟨htells.call hkept hlength hT hS hi, hkept.call hi⟩
    | cycleEnds result l sc => exact ⟨htells.cycleEnds hkept hT hT10 result l sc, hkept.cycleEnds hT result l sc⟩

/-- A cycle begins at a call, where none runs, exactly where it is due. -/
theorem Tells.begins_iff (h : Tells T s a) (hkept : a.Kept T n) (hn : n + 1 < 2 ^ 31) (hT : 0 < T) (hS : 0 < S)
    (hc : (MaintenanceInput.call c).Within T S) (hidle : s.running = none) :
    (s.call c).running.isSome ↔ a.Due T S c.now := by
  have hactive : a.active = none := by
    have hrunning := h.active
    rw [hidle] at hrunning
    exact Option.map_eq_none_iff.1 hrunning.symm
  rw [(h.call hkept hn hT hS hc).active, Option.isSome_map, Schedule.step, hactive, if_neg (by simp)]
  dsimp only
  split_ifs with hdue
  · simp [hdue]
  · simp [hdue]

/-- Scenes are clustered behind `9T` failures. -/
theorem Tells.clusters (h : Tells T s a) (hkept : a.Kept T n) (hT : 0 < T) (hT10 : T * 10 < 2 ^ 31) {result : ℤ} {l sc : Bool}
    (hne : (s.cycleEnds result l sc).done.count .clustered ≠ s.done.count .clustered) : 9 * T ≤ a.failed := by
  have hrunning := hkept.running
  rw [(h.cycleEnds (S := 1) hkept hT hT10 result l sc).clustered, h.clustered, Schedule.step] at hne
  cases hactive : a.active with
  | none =>
    rw [hactive] at hne
    exact absurd rfl hne
  | some now =>
    rw [hactive] at hne
    dsimp only at hne
    split_ifs at hne with hmany
    · rw [Bool.and_eq_true, decide_eq_true_eq] at hmany
      omega
    · exact absurd rfl hne

/-- **The schedule of maintenance**, over every run of calls and cycles. -/
theorem maintenance_schedule {is : List MaintenanceInput} (hT : 0 < T) (hS : 0 < S) (hT10 : T * 10 < 2 ^ 31)
    (his : ∀ i ∈ is, i.Within T S) (hlength : is.length + 1 < 2 ^ 31) :
    let s := run TriggerState.step {} is
    let a := run (Schedule.step T S) {} is
    Tells T s a ∧
      (a.active = none → a.waiting < T + a.failed) ∧
      (∀ c, (MaintenanceInput.call c).Within T S → s.running = none → ((s.call c).running.isSome ↔ a.Due T S c.now)) ∧
      ∀ result l sc, (s.cycleEnds result l sc).done.count .clustered ≠ s.done.count .clustered → 9 * T ≤ a.failed := by
  obtain ⟨htells, hkept⟩ := tells_run hT hS hT10 his (by omega)
  refine ⟨htells, hkept.idle, ?_, ?_⟩
  · intro c hc hidle
    exact htells.begins_iff hkept hlength hT hS hc hidle
  · intro result l sc hne
    exact htells.clusters hkept hT hT10 hne

/-- A call at a time, with two calls to a cycle. -/
def callAt (now : ℤ) : MaintenanceCall := ⟨2, 0, none, none, now⟩

theorem maintenance_schedule_twoCalls :
    let is := [.call (callAt 100), .call (callAt 200), .call (callAt 201), .cycleEnds 1 true true, .call (callAt 300)]
    let s := run TriggerState.step {} is
    let a := run (Schedule.step 2 600) {} is
    Tells 2 s a ∧
      (a.active = none → a.waiting < 2 + (a.failed : ℤ)) ∧
      (∀ c, (MaintenanceInput.call c).Within 2 600 → s.running = none → ((s.call c).running.isSome ↔ a.Due 2 600 c.now)) ∧
      ∀ result l sc, (s.cycleEnds result l sc).done.count .clustered ≠ s.done.count .clustered → 9 * 2 ≤ (a.failed : ℤ) := by
  have hcall : ∀ now, 0 < now ∧ now < 2 ^ 31 → (MaintenanceInput.call (callAt now)).Within 2 600 :=
    fun now hnow => ⟨rfl, rfl, hnow⟩
  refine maintenance_schedule (by omega) (by omega) (by omega) ?_ (by simp)
  simp only [List.forall_mem_cons]
  exact ⟨hcall _ (by omega), hcall _ (by omega), hcall _ (by omega), trivial, hcall _ (by omega), by simp⟩

end AimeeMemory.Core
