import AimeeMemory.Bus.ModuleRuntime
import AimeeMemory.Lib.Progress
import Mathlib.Data.List.Perm.Basic
import Mathlib.Data.Nat.Pairing

/-!
# The goroutines of a module process

`runModuleClient` of `server-go/bus/module_runtime.go` with its handler goroutines and the
bounded channel between them. A `moduleWork` lies in a heap: the loop's table, the goroutine
that runs its handler and the result that is sent share it by address, and a cancel marks it
there. When the context ends the loop cancels what it has, and takes results until its table
is empty.

The loop looks at the context in two places: between two polls, where it drains, and in
`replyModuleResult` while the ring is full, where it returns at once.

## What is proved

* `balanced_step`: the table lists the goroutines that run and the results that wait, each under
  its own correlation; what was started is running, waiting or received.
* `accounted_run`: after every run, the bounds of the two tables, one goroutine and one result for
  each job, and room for every send.
* `drains_of_balanced`: the drain takes one result for each job, and returns.
* **`runModuleClient_accounts`**: all of it, in every run in which the context never breaks off a
  reply while a job is left.
* **`cutOff_leaves_job`**: a reply that is broken off leaves a job that nobody waits for.

## Honest scope

The handler is the process's own code. The drain waits for it, so that the drain ends is shown
for handlers that return.
-/

namespace AimeeMemory.Bus

open AimeeMemory.Lib

/-- A `moduleWork` at its address. -/
structure WorkCell where
  correlationID : UInt64
  work : ModuleWork
  deriving DecidableEq, Repr

/-- What a goroutine sends on `done`; `work` is an address. -/
structure ModuleResult where
  work : ℕ
  body : List UInt8
  status : UInt16
  deriving DecidableEq, Repr

/-- Where the loop is. -/
inductive LoopPhase where
  | serving
  /-- The context has ended, and the loop waits for its jobs. -/
  | draining
  /-- The loop has returned, because of the context or not. -/
  | returned (byContext : Bool)
  deriving DecidableEq, Repr

/-- How the bus takes the fragments of a reply. -/
inductive Room where
  /-- All of them. -/
  | takes
  /-- It fails after `n` of them. -/
  | fails (n : ℕ)
  /-- After `n` of them the ring is full, until the context ends. -/
  | full (n : ℕ)
  deriving DecidableEq, Repr

structure Runtime where
  assemblies : CorrelationMap ModuleAssembly := ∅
  jobs : CorrelationMap ℕ := ∅
  heap : List WorkCell := []
  /-- The goroutines whose handler has not returned. -/
  running : List ℕ := []
  /-- The channel. -/
  done : List ModuleResult := []
  /-- What the loop has taken from the channel. -/
  received : List ℕ := []
  replies : List Reply := []
  invoked : List Invoked := []
  phase : LoopPhase := .serving

/-- What happens next, in the loop or in a goroutine. -/
inductive Happening where
  /-- `Poll` returns an event. -/
  | polled (e : Event) (now : UInt64) (room : Room)
  /-- A handler returns, and its goroutine sends the result. -/
  | handlerReturned (work : ℕ) (response : List UInt8) (status : UInt16) (now : UInt64)
  /-- The serving loop looks at the channel. -/
  | resultReceived (room : Room)
  /-- The loop sees that the context has ended. -/
  | contextEnds
  /-- The epoch has changed, or `Poll` fails. -/
  | left
  /-- One turn of the drain. -/
  | drained
  deriving DecidableEq, Repr

/-- How many fragments the bus takes, `none` for all. -/
def Room.accepted : Room → Option ℕ
  | .takes => none
  | .fails n => some n
  | .full n => some n

def Room.untilContext : Room → Bool
  | .full _ => true
  | _ => false

/-! ### The loop -/

/-- A table with its values mapped. -/
def mapValues {α β : Type} (f : α → β) (m : CorrelationMap α) : CorrelationMap β :=
  ⟨m.entries.map fun e => ⟨e.1, f e.2⟩, m.nodupKeys.map₂ fun _ => f⟩

namespace Runtime

/-- The loop's tables, as its checks read them. -/
def tables (r : Runtime) : State where
  assemblies := r.assemblies
  jobs := mapValues (fun work => ((r.heap[work]?).map WorkCell.work).getD ⟨0, ⟨0, 0, 0⟩, false, none⟩) r.jobs

/-- The cancelled flag of each of `works` is set. -/
def markCancelled (works : List ℕ) (heap : List WorkCell) : List WorkCell :=
  heap.mapIdx fun work cell =>
    if work ∈ works then { cell with work := { cell.work with cancelled := true } } else cell

/-- Sending a result; the loop returns where it fails. -/
def reply (config : ModuleProcessConfig) (r : Runtime) (kind : UInt32) (correlation : UInt64) (stageID : UInt32)
    (traceID : UInt64) (status : UInt16) (body : List UInt8) (room : Room) : Runtime :=
  let sending := replyModuleResult config.inlineBudget kind correlation stageID traceID status body
  let sent := sending room.accepted
  { r with
    replies := r.replies ++ sent.1
    -- Where the fragments could have been sent, it is the wait for room that fails.
    phase := if sent.2 then .serving else .returned (room.untilContext && (sending none).2) }

/-- A request that is complete: a new cell, a job and a goroutine. -/
def start (r : Runtime) (correlation : UInt64) (eventKind : UInt32) (invocation : ModuleInvocation)
    (body : List UInt8) : Runtime :=
  { r with
    assemblies := r.assemblies.erase correlation
    jobs := r.jobs.insert correlation r.heap.length
    heap := r.heap ++ [⟨correlation, { eventKind, invocation }⟩]
    running := r.running ++ [r.heap.length]
    invoked := r.invoked ++ [⟨correlation, invocation, body⟩] }

/-- A request fragment. -/
def request (config : ModuleProcessConfig) (r : Runtime) (e : Event) (now : UInt64) (room : Room) : Runtime :=
  let correlation := e.frame.correlationID
  match judge config r.tables e now with
  | .refuse stageID traceID status =>
    { r with assemblies := r.assemblies.erase correlation }.reply config e.frame.eventKind correlation
      stageID traceID status [] room
  | .hold assembly => { r with assemblies := r.assemblies.insert correlation assembly }
  | .start message body =>
    r.start correlation e.frame.eventKind
      ⟨config.stages e.frame.eventKind, message.deadlineNS, message.traceID⟩ body

/-- A cancel. -/
def cancel (r : Runtime) (correlation : UInt64) : Runtime :=
  { r with
    assemblies := r.assemblies.erase correlation
    heap := markCancelled (r.jobs.lookup correlation).toList r.heap }

/-- `runHandler`: the send waits while the channel is full. -/
def send (r : Runtime) (work : ℕ) (response : List UInt8) (status : UInt16) (now : UInt64) : Runtime :=
  match r.heap[work]? with
  | some cell =>
    if work ∈ r.running ∧ r.done.length < moduleMaxInFlight then
      let result := runHandler cell.work response status now
      { r with running := r.running.erase work, done := r.done ++ [⟨work, result.1, result.2⟩] }
    else r
  | none => r

/-- The first result of the channel is taken, and its job deleted. -/
def take (r : Runtime) : Option (WorkCell × ModuleResult × Runtime) :=
  match r.done with
  | [] => none
  | result :: rest =>
    (r.heap[result.work]?).map fun cell =>
      (cell, result, { r with
        jobs := r.jobs.erase cell.correlationID
        done := rest
        received := r.received ++ [result.work] })

/-- `finishModuleWork`, where there is a result. -/
def finish (config : ModuleProcessConfig) (r : Runtime) (room : Room) : Runtime :=
  match r.take with
  | some (cell, result, r) =>
    r.reply config cell.work.eventKind cell.correlationID cell.work.invocation.stageID
      cell.work.invocation.traceID result.status result.body room
  | none => r

/-- The context ends: every job is cancelled. -/
def endContext (r : Runtime) : Runtime :=
  { r with heap := markCancelled (r.jobs.entries.map Sigma.snd) r.heap, phase := .draining }

/-- One turn of the drain. It waits while there are jobs and no result. -/
def drain (r : Runtime) : Runtime :=
  if r.jobs.keys.length = 0 then { r with phase := .returned true }
  else
    match r.take with
    | some (_, _, r) => r
    | none => r

/-- One step. Goroutines run in every phase. -/
def step (config : ModuleProcessConfig) (r : Runtime) (h : Happening) : Runtime :=
  match h, r.phase with
  | .handlerReturned work response status now, _ => r.send work response status now
  | .polled e now room, .serving =>
    if hasFlag e.frame.hdrFlags FCancel then r.cancel e.frame.correlationID
    else if !hasFlag e.frame.hdrFlags FRequest then r
    else r.request config e now room
  | .resultReceived room, .serving => r.finish config room
  | .contextEnds, .serving => r.endContext
  | .left, .serving => { r with phase := .returned false }
  | .drained, .draining => r.drain
  | _, _ => r

/-! ### What holds of the jobs -/

/-- The goroutines that have not sent, and those whose result waits. -/
def live (r : Runtime) : List ℕ := r.running ++ r.done.map ModuleResult.work

/-- Whose request a goroutine serves. -/
def correlationOf (r : Runtime) (work : ℕ) : Option UInt64 := (r.heap[work]?).map WorkCell.correlationID

/-- The results that were sent. -/
def sent (r : Runtime) : List ℕ := r.done.map ModuleResult.work ++ r.received

/-- The jobs are in order. -/
structure Accounted (r : Runtime) : Prop where
  jobs_le : r.jobs.keys.length ≤ moduleMaxInFlight
  assemblies_le : r.assemblies.keys.length ≤ moduleMaxInFlight
  /-- A job has one goroutine, and no correlation without a job has any. -/
  oneGoroutine : ∀ correlation, r.live.countP (r.correlationOf · = some correlation) = if correlation ∈ r.jobs then 1 else 0
  /-- A goroutine that was started runs, or has sent its result once. -/
  sendsOnce : ∀ work < r.heap.length, r.running.count work + r.sent.count work = 1
  /-- A goroutine that runs finds room in the channel. -/
  room : r.running ≠ [] → r.done.length < moduleMaxInFlight

variable {config : ModuleProcessConfig} {r : Runtime}

/-- Every handler that runs returns, and the drain goes on. -/
structure Fair (config : ModuleProcessConfig) (r : Runtime) (inputs : ℕ → Happening) : Prop where
  handlersReturn : ∀ n, ∀ work ∈ (after (step config) r inputs n).running,
    ∃ m response status now, n ≤ m ∧ inputs m = .handlerReturned work response status now
  loopRuns : ∀ n, ∃ m, n ≤ m ∧ inputs m = .drained

/-- The loop returns with the results of all jobs of `r`, one for each. -/
structure Drained (r r' : Runtime) : Prop where
  returned : r'.phase = .returned true
  noJob : r'.jobs.keys.length = 0
  results : ∃ taken, r'.received = r.received ++ taken ∧ List.Perm taken (r.jobs.entries.map Sigma.snd)

/-- Where the context ends the loop, it leaves no job behind, and its drain comes to an end. -/
structure Drains (config : ModuleProcessConfig) (r : Runtime) : Prop where
  leavesNone : r.phase = .returned true → r.jobs.keys.length = 0
  comesToEnd : r.phase = .draining → ∀ inputs, Fair config r inputs → ∃ n, Drained r (after (step config) r inputs n)

/-- No reply waits for room until the context ends, while a job is left. The job that is answered is not. -/
def Uncut (r : Runtime) : Happening → Prop
  | .polled _ _ room => room.untilContext → r.jobs.keys.length = 0
  | .resultReceived room => room.untilContext → r.jobs.keys.length ≤ 1
  | _ => True

/-- What the steps keep: the table lists what is live, each under its correlation, and everything started is accounted for. -/
structure Balanced (r : Runtime) : Prop where
  jobs_le : r.jobs.keys.length ≤ moduleMaxInFlight
  assemblies_le : r.assemblies.keys.length ≤ moduleMaxInFlight
  live : List.Perm (r.jobs.entries.map Sigma.snd) r.live
  keyed : ∀ e ∈ r.jobs.entries, r.correlationOf e.2 = some e.1
  started : List.Perm (r.live ++ r.received) (List.range r.heap.length)

theorem Balanced.init : Balanced {} where
  jobs_le := by simp
  assemblies_le := by simp
  live := .refl _
  keyed := by simp
  started := .refl _

/-- A step that touches neither jobs nor goroutines. -/
theorem Balanced.of_eq {r' : Runtime} (h : Balanced r) (hassemblies : r'.assemblies.keys.length ≤ moduleMaxInFlight)
    (hjobs : r'.jobs = r.jobs) (hheap : r'.heap = r.heap) (hrunning : r'.running = r.running) (hdone : r'.done = r.done)
    (hreceived : r'.received = r.received) : Balanced r' where
  jobs_le := hjobs ▸ h.jobs_le
  assemblies_le := hassemblies
  live := by simpa only [hjobs, Runtime.live, hrunning, hdone] using h.live
  keyed := by simpa only [hjobs, correlationOf, hheap] using h.keyed
  started := by simpa only [hheap, Runtime.live, hrunning, hdone, hreceived] using h.started

/-! ### The tables -/

theorem keys_mapValues {α β : Type} (f : α → β) (m : CorrelationMap α) : (mapValues f m).keys = m.keys := by
  simp [mapValues, AList.keys, List.keys]

theorem mem_mapValues {α β : Type} {f : α → β} {m : CorrelationMap α} {c : UInt64} : c ∈ mapValues f m ↔ c ∈ m := by
  rw [AList.mem_keys, keys_mapValues, ← AList.mem_keys]

theorem length_erase_le {α : Type} (m : CorrelationMap α) (c : UInt64) : (m.erase c).keys.length ≤ m.keys.length := by
  rw [AList.keys_erase]
  exact List.length_erase_le

/-- A fragment is held where its assembly is there, or the table has room. -/
theorem judge_hold_room {s : State} {e : Event} {now : UInt64} {a : ModuleAssembly}
    (h : judge config s e now = .hold a) :
    e.frame.correlationID ∈ s.assemblies ∨ s.assemblies.keys.length < moduleMaxInFlight := by
  simp only [judge] at h
  split at h
  · simp at h
  · split_ifs at h with _ hfull
    cases hl : s.assemblies.lookup e.frame.correlationID with
    | some a => exact .inl (AList.lookup_isSome.1 (by simp [hl]))
    | none => exact .inr (by simpa [hl] using hfull)

/-- A handler is started for a correlation without a job, where the table has room. -/
theorem judge_start_room {s : State} {e : Event} {now : UInt64} {m : ModuleMessage} {body : List UInt8}
    (h : judge config s e now = .start m body) :
    e.frame.correlationID ∉ s.jobs ∧ s.jobs.keys.length < moduleMaxInFlight := by
  obtain ⟨-, -, hnone⟩ := judge_start none h
  refine ⟨AList.lookup_eq_none.1 hnone, ?_⟩
  simp only [judge] at h
  split at h
  · simp at h
  · split_ifs at h with _ _ _ _ _ _ hfull
    omega

/-! ### One step -/

theorem length_markCancelled (works : List ℕ) (heap : List WorkCell) :
    (markCancelled works heap).length = heap.length := List.length_mapIdx

/-- A cancelled work keeps its correlation. -/
theorem correlation_markCancelled (works : List ℕ) (heap : List WorkCell) (work : ℕ) :
    ((markCancelled works heap)[work]?).map WorkCell.correlationID = (heap[work]?).map WorkCell.correlationID := by
  rw [markCancelled, List.getElem?_mapIdx, Option.map_map]
  congr 1
  funext cell
  simp only [Function.comp]
  split_ifs <;> rfl

theorem Balanced.markCancelled (h : Balanced r) (works : List ℕ) (assemblies : CorrelationMap ModuleAssembly)
    (hassemblies : assemblies.keys.length ≤ moduleMaxInFlight) (phase : LoopPhase) :
    Balanced { r with heap := markCancelled works r.heap, assemblies, phase } where
  jobs_le := h.jobs_le
  assemblies_le := hassemblies
  live := h.live
  keyed e he := by
    rw [correlationOf, correlation_markCancelled]
    exact h.keyed e he
  started := by
    rw [length_markCancelled]
    exact h.started

theorem Balanced.start (h : Balanced r) {c : UInt64} (hnew : c ∉ r.jobs) (hroom : r.jobs.keys.length < moduleMaxInFlight)
    (eventKind : UInt32) (invocation : ModuleInvocation) (body : List UInt8) :
    Balanced (r.start c eventKind invocation body) where
  jobs_le := by
    have hkeys : c ∉ r.jobs.keys := fun hc => hnew (AList.mem_keys.2 hc)
    rw [Runtime.start, AList.keys_insert, List.erase_of_not_mem hkeys]
    exact Nat.succ_le_of_lt hroom
  assemblies_le := (length_erase_le _ _).trans h.assemblies_le
  live := by
    simp only [Runtime.start, AList.entries_insert_of_notMem hnew, List.map_cons, Runtime.live, List.append_assoc]
    exact (h.live.cons _).trans List.perm_middle.symm
  keyed e he := by
    simp only [Runtime.start, AList.entries_insert_of_notMem hnew, List.mem_cons] at he
    rcases he with rfl | he
    · simp [correlationOf, Runtime.start]
    · have hkeyed := h.keyed e he
      simp only [correlationOf, Option.map_eq_some_iff] at hkeyed ⊢
      obtain ⟨cell, hcell, hc⟩ := hkeyed
      refine ⟨cell, ?_, hc⟩
      rw [Runtime.start, List.getElem?_append_left (List.getElem?_eq_some_iff.1 hcell).1, hcell]
  started := by
    have hstarted := h.started.append_right [r.heap.length]
    rw [← List.range_succ] at hstarted
    refine List.Perm.trans ?_ (by simpa [Runtime.start] using hstarted)
    simp only [List.perm_iff_count, Runtime.start, Runtime.live, List.count_append]
    intro work
    omega

theorem Balanced.length_live (h : Balanced r) : r.running.length + r.done.length = r.jobs.keys.length := by
  have hlength := h.live.length_eq
  simp only [List.length_map, Runtime.live, List.length_append] at hlength
  rw [← hlength, AList.keys, List.keys, List.length_map]

theorem Balanced.lt_of_running (h : Balanced r) {work : ℕ} (hwork : work ∈ r.running) : work < r.heap.length := by
  have hmem : work ∈ r.live ++ r.received := by simp [Runtime.live, hwork]
  exact List.mem_range.1 (h.started.mem_iff.1 hmem)

/-- A goroutine that has not sent finds room. -/
theorem Balanced.room (h : Balanced r) (hrunning : r.running ≠ []) : r.done.length < moduleMaxInFlight := by
  have hlength := h.length_live
  have hle := h.jobs_le
  have hpos := List.length_pos_iff.2 hrunning
  omega

/-- What `send` does where the goroutine runs. -/
theorem Balanced.send_eq (h : Balanced r) {work : ℕ} (hwork : work ∈ r.running) (response : List UInt8) (status : UInt16)
    (now : UInt64) : ∃ result : ModuleResult, result.work = work ∧ r.send work response status now =
      { r with running := r.running.erase work, done := r.done ++ [result] } := by
  obtain ⟨cell, hcell⟩ : ∃ cell, r.heap[work]? = some cell :=
    ⟨_, List.getElem?_eq_getElem (h.lt_of_running hwork)⟩
  refine ⟨⟨work, (runHandler cell.work response status now).1, (runHandler cell.work response status now).2⟩, rfl, ?_⟩
  rw [Runtime.send, hcell]
  exact if_pos ⟨hwork, h.room (List.ne_nil_of_mem hwork)⟩

theorem send_of_not_running {work : ℕ} (hwork : work ∉ r.running) (response : List UInt8) (status : UInt16)
    (now : UInt64) : r.send work response status now = r := by
  rw [Runtime.send]
  split
  · exact if_neg fun hboth => hwork hboth.1
  · rfl

theorem Balanced.send (h : Balanced r) (work : ℕ) (response : List UInt8) (status : UInt16) (now : UInt64) :
    Balanced (r.send work response status now) := by
  by_cases hwork : work ∈ r.running
  · obtain ⟨result, hresult, hsend⟩ := h.send_eq hwork response status now
    have hlive : List.Perm r.live (r.running.erase work ++ (r.done ++ [result]).map ModuleResult.work) := by
      simp only [List.perm_iff_count, Runtime.live, List.map_append, List.count_append, List.map_cons, List.map_nil,
        hresult]
      intro a
      have hcount := (List.perm_cons_erase hwork).count_eq a
      simp only [List.count_cons, List.count_nil] at hcount ⊢
      omega
    rw [hsend]
    exact
      { jobs_le := h.jobs_le
        assemblies_le := h.assemblies_le
        live := h.live.trans hlive
        keyed := h.keyed
        started := (hlive.symm.append_right _).trans h.started }
  · rwa [send_of_not_running hwork]

/-- A result that is taken is that of its correlation's job. -/
theorem Balanced.take_entry (h : Balanced r) {result : ModuleResult} {rest : List ModuleResult}
    (hdone : r.done = result :: rest) {cell : WorkCell} (hcell : r.heap[result.work]? = some cell) :
    (⟨cell.correlationID, result.work⟩ : Sigma fun _ : UInt64 => ℕ) ∈ r.jobs.entries := by
  have hlive : result.work ∈ r.live := by simp [Runtime.live, hdone]
  obtain ⟨⟨c, work⟩, he, rfl⟩ := List.mem_map.1 (h.live.mem_iff.2 hlive)
  have hkeyed := h.keyed _ he
  simp only [correlationOf, hcell, Option.map_some, Option.some.injEq] at hkeyed
  rwa [hkeyed]

/-- With a result in the channel there is one to take, and its job is deleted. -/
theorem Balanced.take_eq (h : Balanced r) (hne : r.done ≠ []) : ∃ cell result rest r',
    r.take = some (cell, result, r') ∧ r.done = result :: rest ∧
      r' = { r with jobs := r.jobs.erase cell.correlationID, done := rest, received := r.received ++ [result.work] } ∧
      List.Perm (r.jobs.entries.map Sigma.snd) (result.work :: r'.jobs.entries.map Sigma.snd) := by
  obtain ⟨result, rest, hdone⟩ := List.exists_cons_of_ne_nil hne
  have hmem : result.work ∈ r.live ++ r.received := by simp [Runtime.live, hdone]
  have hlt := List.mem_range.1 (h.started.mem_iff.1 hmem)
  obtain ⟨cell, hcell⟩ : ∃ cell, r.heap[result.work]? = some cell := ⟨_, List.getElem?_eq_getElem hlt⟩
  refine ⟨cell, result, rest, _, by simp [Runtime.take, hdone, hcell], hdone, rfl, ?_⟩
  have hentry := h.take_entry hdone hcell
  obtain ⟨work, before, behind, -, hsplit, herase⟩ := List.exists_of_kerase (List.mem_keys_of_mem hentry)
  -- The table has one entry for the correlation, which is the one that is erased.
  obtain rfl : work = result.work := r.jobs.nodupKeys.eq_of_mk_mem (by simp [hsplit]) hentry
  have hleft : (r.jobs.erase cell.correlationID).entries = before ++ behind := herase
  simp only [hleft, hsplit, List.map_append, List.map_cons]
  exact List.perm_middle

theorem Balanced.take (h : Balanced r) {cell : WorkCell} {result : ModuleResult} {r' : Runtime}
    (htake : r.take = some (cell, result, r')) : Balanced r' := by
  have hne : r.done ≠ [] := by
    rintro hnil
    simp [Runtime.take, hnil] at htake
  obtain ⟨cell', result', rest, r'', htake', hdone, hr'', hperm⟩ := h.take_eq hne
  obtain ⟨rfl, rfl, rfl⟩ : cell' = cell ∧ result' = result ∧ r'' = r' := by simpa [htake'] using htake
  have hlive : List.Perm r.live (result'.work :: r''.live) := by
    rw [hr'', Runtime.live, Runtime.live, hdone]
    exact List.perm_middle
  subst hr''
  exact
    { jobs_le := (length_erase_le _ _).trans h.jobs_le
      assemblies_le := h.assemblies_le
      live := (List.perm_cons _).1 (hperm.symm.trans (h.live.trans hlive))
      keyed := fun e he => h.keyed e ((List.kerase_sublist _ _).subset he)
      started := by
        refine List.Perm.trans ?_ ((hlive.symm.append_right _).trans h.started)
        simp only [List.perm_iff_count, List.count_append, List.count_cons, List.count_nil]
        intro a
        omega }

theorem Balanced.reply (h : Balanced r) (kind : UInt32) (c : UInt64) (stageID : UInt32) (traceID : UInt64)
    (status : UInt16) (body : List UInt8) (room : Room) :
    Balanced (r.reply config kind c stageID traceID status body room) :=
  h.of_eq h.assemblies_le rfl rfl rfl rfl rfl

theorem Balanced.request (h : Balanced r) (e : Event) (now : UInt64) (room : Room) :
    Balanced (r.request config e now room) := by
  rw [Runtime.request]
  cases hjudge : judge config r.tables e now with
  | refuse stageID traceID status =>
    apply Balanced.reply
    exact h.of_eq ((length_erase_le _ _).trans h.assemblies_le) rfl rfl rfl rfl rfl
  | hold assembly =>
    refine h.of_eq ?_ rfl rfl rfl rfl rfl
    simp only [AList.keys_insert, List.length_cons]
    rcases judge_hold_room hjudge with hmem | hroom
    · have hkey : e.frame.correlationID ∈ r.assemblies.keys := AList.mem_keys.1 hmem
      have hpos := List.length_pos_of_mem hkey
      have hle := h.assemblies_le
      rw [List.length_erase_of_mem hkey]
      omega
    · have hle : (r.assemblies.keys.erase e.frame.correlationID).length ≤ r.assemblies.keys.length := List.length_erase_le
      have hlt : r.assemblies.keys.length < moduleMaxInFlight := hroom
      omega
  | start message body =>
    obtain ⟨hnew, hroom⟩ := judge_start_room hjudge
    rw [tables, mem_mapValues] at hnew
    rw [tables, keys_mapValues] at hroom
    exact h.start hnew hroom _ _ _

theorem Balanced.finish (h : Balanced r) (room : Room) : Balanced (r.finish config room) := by
  rw [Runtime.finish]
  split
  · next cell result r' htake => exact (h.take htake).reply ..
  · exact h

theorem Balanced.drain (h : Balanced r) : Balanced r.drain := by
  rw [Runtime.drain]
  split_ifs
  · exact h.of_eq h.assemblies_le rfl rfl rfl rfl rfl
  · split
    · next cell result r' htake => exact h.take htake
    · exact h

/-- **Every step keeps the balance.** -/
theorem balanced_step (h : Balanced r) (i : Happening) : Balanced (r.step config i) := by
  rw [Runtime.step.eq_def]
  split
  · exact h.send _ _ _ _
  · split_ifs
    · exact h.markCancelled _ _ ((length_erase_le _ _).trans h.assemblies_le) _
    · exact h
    · exact h.request _ _ _
  · exact h.finish _
  · exact h.markCancelled _ _ h.assemblies_le _
  · exact h.of_eq h.assemblies_le rfl rfl rfl rfl rfl
  · exact h.drain
  · exact h

/-- The balance says that the jobs are in order. -/
theorem Balanced.accounted (h : Balanced r) : Accounted r where
  jobs_le := h.jobs_le
  assemblies_le := h.assemblies_le
  oneGoroutine c := by
    have hcount : r.live.countP (r.correlationOf · = some c) = r.jobs.keys.count c := by
      rw [← h.live.countP_eq, AList.keys, List.keys, List.count, List.countP_map, List.countP_map]
      apply List.countP_congr
      intro e he
      simp [h.keyed e he]
    rw [hcount]
    split_ifs with hmem
    · exact List.count_eq_one_of_mem r.jobs.nodupKeys (AList.mem_keys.1 hmem)
    · exact List.count_eq_zero.2 fun hkey => hmem (AList.mem_keys.2 hkey)
  sendsOnce work hwork := by
    have hcount := h.started.count_eq work
    rw [List.count_eq_one_of_mem List.nodup_range (List.mem_range.2 hwork)] at hcount
    simp only [Runtime.live, List.count_append, Runtime.sent] at hcount ⊢
    omega
  room := h.room

theorem balanced_run (config : ModuleProcessConfig) (is : List Happening) : Balanced (run (step config) {} is) :=
  run_keeps (I := fun _ => Balanced) .init (fun _ _ _ h => balanced_step h _) is

/-- **In every state that is reached the jobs are in order.** -/
theorem accounted_run (config : ModuleProcessConfig) (is : List Happening) : Accounted (run (step config) {} is) :=
  (balanced_run config is).accounted

/-! ### The drain -/

/-- What a step of the drain does: nothing, a send, a result taken, or the return. -/
theorem step_draining (config : ModuleProcessConfig) (h : Balanced r) (hphase : r.phase = .draining) (i : Happening) :
    r.step config i = r ∨
      (∃ work result, work ∈ r.running ∧ r.step config i =
        { r with running := r.running.erase work, done := r.done ++ [result] }) ∨
      (∃ cell result r', r.take = some (cell, result, r') ∧ r.step config i = r') ∨
      (r.jobs.keys.length = 0 ∧ r.step config i = { r with phase := .returned true }) := by
  cases i with
  | handlerReturned work response status now =>
    by_cases hwork : work ∈ r.running
    · obtain ⟨result, -, hsend⟩ := h.send_eq hwork response status now
      exact .inr (.inl ⟨work, result, hwork, hsend⟩)
    · exact .inl (send_of_not_running hwork response status now)
  | drained =>
    have hstep : r.step config .drained = r.drain := by rw [Runtime.step.eq_def, hphase]
    rw [hstep, Runtime.drain]
    split_ifs with hempty
    · exact .inr (.inr (.inr ⟨hempty, rfl⟩))
    · split
      · next cell result r' htake => exact .inr (.inr (.inl ⟨cell, result, r', htake, rfl⟩))
      · exact .inl rfl
  | _ => exact .inl (by rw [Runtime.step.eq_def, hphase])

/-- A loop that has returned stays where it is, but for its goroutines. -/
theorem step_returned (config : ModuleProcessConfig) {byContext : Bool} (hphase : r.phase = .returned byContext) (i : Happening) :
    (r.step config i).phase = r.phase ∧ (r.step config i).jobs = r.jobs ∧ (r.step config i).received = r.received := by
  cases i with
  | handlerReturned work response status now =>
    have hstep : r.step config (.handlerReturned work response status now) = r.send work response status now := by
      rw [Runtime.step.eq_def]
    rw [hstep, Runtime.send]
    split
    · split_ifs <;> exact ⟨rfl, rfl, rfl⟩
    · exact ⟨rfl, rfl, rfl⟩
  | _ =>
    rw [Runtime.step.eq_def, hphase]
    exact ⟨hphase, rfl, rfl⟩

/-- Where a drain that began in `r` stands. -/
structure Draining (r r' : Runtime) : Prop where
  balanced : Balanced r'
  phase : r'.phase = .draining ∨ r'.phase = .returned true ∧ r'.jobs.keys.length = 0
  results : ∃ taken, r'.received = r.received ++ taken ∧
    List.Perm (taken ++ r'.jobs.entries.map Sigma.snd) (r.jobs.entries.map Sigma.snd)

theorem Draining.start (h : Balanced r) (hphase : r.phase = .draining) : Draining r r :=
  ⟨h, .inl hphase, [], by simp, by simp⟩

theorem take_phase {cell : WorkCell} {result : ModuleResult} {r' : Runtime} (h : r.take = some (cell, result, r')) :
    r'.phase = r.phase := by
  rw [Runtime.take] at h
  split at h
  · cases h
  · obtain ⟨_, -, heq⟩ := Option.map_eq_some_iff.1 h
    cases heq
    rfl

theorem Draining.step (config : ModuleProcessConfig) {r' : Runtime} (h : Draining r r') (i : Happening) : Draining r (r'.step config i) := by
  obtain ⟨taken, htaken, hperm⟩ := h.results
  refine ⟨balanced_step h.balanced i, ?_, ?_⟩
  · rcases h.phase with hphase | ⟨hphase, hjobs⟩
    · rcases step_draining config h.balanced hphase i with hstep | ⟨work, result, -, hstep⟩ | ⟨cell, result, s, htake, hstep⟩ | ⟨hempty, hstep⟩
      · exact .inl (by rw [hstep, hphase])
      · exact .inl (by rw [hstep, hphase])
      · exact .inl (by rw [hstep, take_phase htake, hphase])
      · exact .inr (by rw [hstep]; exact ⟨rfl, hempty⟩)
    · obtain ⟨hsame, hjobs', -⟩ := step_returned config hphase i
      exact .inr ⟨hsame.trans hphase, by rw [hjobs', hjobs]⟩
  · rcases h.phase with hphase | ⟨hphase, -⟩
    · rcases step_draining config h.balanced hphase i with hstep | ⟨work, result, -, hstep⟩ | ⟨cell, result, s, htake, hstep⟩ | ⟨-, hstep⟩
      · exact ⟨taken, by rw [hstep, htaken], by rwa [hstep]⟩
      · exact ⟨taken, by rw [hstep, htaken], by rwa [hstep]⟩
      · have hne : r'.done ≠ [] := by
          rintro hnil
          simp [Runtime.take, hnil] at htake
        obtain ⟨cell', result', rest, s', htake', -, hs', hjobs⟩ := h.balanced.take_eq hne
        obtain ⟨rfl, rfl, rfl⟩ : cell' = cell ∧ result' = result ∧ s' = s := by simpa [htake'] using htake
        refine ⟨taken ++ [result'.work], by rw [hstep, hs', htaken, List.append_assoc], ?_⟩
        rw [hstep, List.append_assoc]
        exact (hjobs.symm.append_left taken).trans hperm
      · exact ⟨taken, by rw [hstep, htaken], by rwa [hstep]⟩
    · obtain ⟨-, hjobs, hreceived⟩ := step_returned config hphase i
      exact ⟨taken, hreceived.trans htaken, by rwa [hjobs]⟩

/-- How many sends and results the drain still waits for. -/
def waits (r : Runtime) : ℕ := 2 * r.running.length + r.done.length

theorem Draining.waits_step (config : ModuleProcessConfig) {r' : Runtime} (h : Draining r r') (hphase : r'.phase = .draining) (i : Happening) :
    r'.step config i = r' ∨ (r'.step config i).phase = .returned true ∨ (r'.step config i).waits < r'.waits := by
  rcases step_draining config h.balanced hphase i with hstep | ⟨work, result, hwork, hstep⟩ | ⟨cell, result, s, htake, hstep⟩ | ⟨-, hstep⟩
  · exact .inl hstep
  · refine .inr (.inr ?_)
    have hlength := List.length_erase_add_one hwork
    simp only [hstep, waits, List.length_append, List.length_singleton]
    omega
  · refine .inr (.inr ?_)
    rw [Runtime.take] at htake
    split at htake
    · cases htake
    · next result' rest hdone =>
      obtain ⟨_, -, heq⟩ := Option.map_eq_some_iff.1 htake
      cases heq
      rw [hstep, waits, waits, hdone, List.length_cons]
      exact Nat.lt_succ_self _
  · exact .inr (.inl (by rw [hstep]))

/-- While the drain has not returned, a handler or the loop has a step to take. -/
theorem Draining.comes (config : ModuleProcessConfig) {r' : Runtime} (h : Draining r r') (hphase : r'.phase = .draining) :
    (∃ work ∈ r'.running, ∀ response status now, r'.step config (.handlerReturned work response status now) ≠ r') ∨
      r'.step config .drained ≠ r' := by
  by_cases hrunning : r'.running = []
  · refine .inr ?_
    have hstep : r'.step config .drained = r'.drain := by rw [Runtime.step.eq_def, hphase]
    rw [hstep, Runtime.drain]
    split_ifs with hempty
    · intro hsame
      have hreturned : ({ r' with phase := .returned true } : Runtime).phase = r'.phase := by rw [hsame]
      rw [hphase] at hreturned
      cases hreturned
    · have hlength := h.balanced.length_live
      have hne : r'.done ≠ [] := by
        rintro hnil
        rw [hrunning, hnil] at hlength
        exact hempty hlength.symm
      obtain ⟨cell, result, rest, s, htake, hdone, hs, -⟩ := h.balanced.take_eq hne
      rw [htake]
      intro hsame
      have hrest : s.done = r'.done := by rw [show s = r' from hsame]
      rw [hs, hdone] at hrest
      exact absurd (congrArg List.length hrest) (by simp)
  · obtain ⟨work, hwork⟩ := List.exists_mem_of_ne_nil _ hrunning
    refine .inl ⟨work, hwork, fun response status now hsame => ?_⟩
    obtain ⟨result, -, hsend⟩ := h.balanced.send_eq hwork response status now
    have hstep : r'.step config (.handlerReturned work response status now) = r'.send work response status now := by
      rw [Runtime.step.eq_def]
    have hlength : (r'.send work response status now).done.length = r'.done.length := by rw [← hstep, hsame]
    rw [hsend, List.length_append, List.length_singleton] at hlength
    omega

/-- **The drain takes one result for each job, and returns**, where handlers return. -/
theorem drains_of_balanced (h : Balanced r) (hphase : r.phase = .draining) {inputs : ℕ → Happening}
    (hfair : Fair config r inputs) : ∃ n, Drained r (after (step config) r inputs n) := by
  have hdraining : ∀ n, Draining r (after (step config) r inputs n) :=
    after_invariant (.start h hphase) fun _ i ht => ht.step config i
  have hgoal : ∀ n, (after (step config) r inputs n).phase ≠ .returned true →
      (after (step config) r inputs n).phase = .draining := fun n hne =>
    (hdraining n).phase.resolve_right fun hreturned => hne hreturned.1
  have hcomes : ∀ n, (after (step config) r inputs n).phase ≠ .returned true →
      ∃ m, n ≤ m ∧ step config (after (step config) r inputs n) (inputs m) ≠ after (step config) r inputs n := by
    intro n hne
    rcases (hdraining n).comes config (hgoal n hne) with ⟨work, hwork, hmoves⟩ | hmoves
    · obtain ⟨m, response, status, now, hm, hinput⟩ := hfair.handlersReturn n work hwork
      exact ⟨m, hm, hinput ▸ hmoves response status now⟩
    · obtain ⟨m, hm, hinput⟩ := hfair.loopRuns n
      exact ⟨m, hm, hinput ▸ hmoves⟩
  obtain ⟨n, hreturned⟩ := reaches_goal (fun t : Runtime => t.phase = .returned true) waits
    (fun n i hne => (hdraining n).waits_step config (hgoal n hne) i) hcomes
  obtain ⟨taken, htaken, hperm⟩ := (hdraining n).results
  have hjobs : (after (step config) r inputs n).jobs.keys.length = 0 := by
    rcases (hdraining n).phase with hphase' | ⟨-, hjobs⟩
    · rw [hphase'] at hreturned
      cases hreturned
    · exact hjobs
  refine ⟨n, hreturned, hjobs, taken, htaken, ?_⟩
  have hentries : (after (step config) r inputs n).jobs.entries = [] := by
    simpa [AList.keys, List.keys] using hjobs
  simpa [hentries] using hperm

/-- Whatever the state, there are fair schedules: one that gives every goroutine and the loop its turn again and again. -/
theorem exists_fair (config : ModuleProcessConfig) (r : Runtime) : ∃ inputs, Fair config r inputs := by
  refine ⟨fun n => if n % 2 = 0 then .drained else .handlerReturned (Nat.unpair (n / 2)).1 [] ModuleStatusOK 0, ?_, ?_⟩
  · intro n work _
    have hle := Nat.right_le_pair work n
    refine ⟨2 * Nat.pair work n + 1, [], ModuleStatusOK, 0, by omega, ?_⟩
    have hodd : (2 * Nat.pair work n + 1) % 2 = 1 := by omega
    have hhalf : (2 * Nat.pair work n + 1) / 2 = Nat.pair work n := by omega
    simp [hodd, hhalf]
  · intro n
    exact ⟨2 * n, by omega, by simp⟩

/-! ### A reply that is broken off -/

/-- Where the loop returned because of the context, no job is left. -/
def LeavesNone (r : Runtime) : Prop := r.phase = .returned true → r.jobs.keys.length = 0

theorem leavesNone_reply {kind : UInt32} {c : UInt64} {stageID : UInt32} {traceID : UInt64} {status : UInt16}
    {body : List UInt8} {room : Room} (h : room.untilContext → r.jobs.keys.length = 0) :
    LeavesNone (r.reply config kind c stageID traceID status body room) := by
  intro hreturned
  simp only [Runtime.reply] at hreturned
  split_ifs at hreturned
  simp only [LoopPhase.returned.injEq, Bool.and_eq_true] at hreturned
  exact h hreturned.1

theorem leavesNone_serving (h : r.phase = .serving) : LeavesNone r := by
  intro hreturned
  rw [h] at hreturned
  cases hreturned

theorem Balanced.leavesNone_finish (h : Balanced r) (hserving : r.phase = .serving) {room : Room}
    (huncut : room.untilContext → r.jobs.keys.length ≤ 1) : LeavesNone (r.finish config room) := by
  rw [Runtime.finish]
  split
  · next cell result r' htake =>
    have hne : r.done ≠ [] := by
      rintro hnil
      simp [Runtime.take, hnil] at htake
    obtain ⟨cell', result', rest, r'', htake', -, -, hperm⟩ := h.take_eq hne
    obtain ⟨rfl, rfl, rfl⟩ : cell' = cell ∧ result' = result ∧ r'' = r' := by simpa [htake'] using htake
    apply leavesNone_reply
    intro hroom
    have hlength := hperm.length_eq
    have hone := huncut hroom
    simp only [AList.keys, List.keys, List.length_map, List.length_cons] at hlength hone ⊢
    omega
  · exact leavesNone_serving hserving

theorem leavesNone_request (hserving : r.phase = .serving) {e : Event} {now : UInt64} {room : Room}
    (huncut : room.untilContext → r.jobs.keys.length = 0) : LeavesNone (r.request config e now room) := by
  rw [Runtime.request]
  split
  · exact leavesNone_reply huncut
  · exact leavesNone_serving hserving
  · exact leavesNone_serving hserving

theorem leavesNone_step (h : Balanced r) (hnone : LeavesNone r) {i : Happening} (huncut : Uncut r i) :
    LeavesNone (r.step config i) := by
  cases hphase : r.phase with
  | serving =>
    cases i with
    | polled e now room =>
      simp only [Runtime.step, hphase]
      split_ifs
      · exact leavesNone_serving hphase
      · exact hnone
      · exact leavesNone_request hphase huncut
    | handlerReturned work response status now =>
      apply leavesNone_serving
      by_cases hwork : work ∈ r.running
      · obtain ⟨result, -, hsend⟩ := h.send_eq hwork response status now
        simp only [Runtime.step, hsend, hphase]
      · simp only [Runtime.step, send_of_not_running hwork, hphase]
    | resultReceived room =>
      simp only [Runtime.step, hphase]
      exact h.leavesNone_finish hphase huncut
    | contextEnds =>
      simp only [Runtime.step, hphase]
      intro hreturned
      cases hreturned
    | left =>
      simp only [Runtime.step, hphase]
      intro hreturned
      cases hreturned
    | drained =>
      simp only [Runtime.step, hphase]
      exact hnone
  | draining =>
    have hdraining := (Draining.start h hphase).step config i
    intro hreturned
    rcases hdraining.phase with hstill | ⟨-, hjobs⟩
    · rw [hstill] at hreturned
      cases hreturned
    · exact hjobs
  | returned byContext =>
    obtain ⟨hsame, hjobs, -⟩ := step_returned config hphase i
    intro hreturned
    rw [hjobs]
    exact hnone (hsame ▸ hreturned)

/-- **The jobs are accounted for**, in every run in which no reply is broken off by the context while a job is left. -/
theorem runModuleClient_accounts (config : ModuleProcessConfig) (is : List Happening)
    (h : Meets (step config) (fun _ => Uncut) {} is) :
    Accounted (run (step config) {} is) ∧ Drains config (run (step config) {} is) := by
  have hkept : Balanced (run (step config) {} is) ∧ LeavesNone (run (step config) {} is) := by
    refine run_invariant (I := fun _ r => Balanced r ∧ LeavesNone r) ?_ ?_ is h
    · exact ⟨.init, leavesNone_serving rfl⟩
    · intro pre r i hr huncut
      exact ⟨balanced_step hr.1 i, leavesNone_step hr.1 hr.2 huncut⟩
  exact ⟨hkept.1.accounted, hkept.2, fun hphase inputs hfair => drains_of_balanced hkept.1 hphase hfair⟩

/-- A request is started, and then the context ends. -/
def oneJob : List Happening := [.polled (invokeEvent 1 7 [] false) 0 .takes, .contextEnds]

theorem oneJob_accounts : Accounted (run (step oneStage) {} oneJob) ∧ Drains oneStage (run (step oneStage) {} oneJob) := by
  apply runModuleClient_accounts oneStage oneJob
  rw [oneJob, meets_cons, meets_cons]
  refine ⟨?_, trivial, .nil⟩
  intro hroom
  cases hroom

/-- A request is started, another of its correlation is refused, and the ring stays full until the context ends. -/
def cutOff : List Happening :=
  [.polled (invokeEvent 1 7 [] false) 0 .takes, .polled (invokeEvent 1 7 [] false) 0 (.full 0)]

/-- The loop returns because of the context, and the job's goroutine still runs. -/
theorem cutOff_leaves_job : (run (step oneStage) {} cutOff).phase = .returned true ∧
    (run (step oneStage) {} cutOff).running = [0] ∧ ¬Drains oneStage (run (step oneStage) {} cutOff) := by
  have hrun : (run (step oneStage) {} cutOff).phase = .returned true ∧
      (run (step oneStage) {} cutOff).running = [0] ∧ (run (step oneStage) {} cutOff).jobs.keys.length = 1 := by
    decide +kernel
  obtain ⟨hphase, hrunning, hjobs⟩ := hrun
  refine ⟨hphase, hrunning, fun hdrains => ?_⟩
  have hnone := hdrains.leavesNone hphase
  omega

end Runtime

end AimeeMemory.Bus
