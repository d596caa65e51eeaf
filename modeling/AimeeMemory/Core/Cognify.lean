import AimeeMemory.Lib.Loop
import AimeeMemory.Core.Json
import Mathlib.Algebra.Order.BigOperators.Group.List
import Mathlib.Algebra.Order.Ring.Nat

/-!
# The cognify queue

`memory_improve.c`: `memory_cognify_unit`, which has the cognifier extract relations and
claims from a memory, or only enqueues a job for that, and `memory_cognify_drain`, the
worker that claims the jobs one after the other and calls it for each.

## What is proved

* **`drainFinishes_iff`**: a drain without a timeout ends, with the pass run for every job
  marked done, exactly when no job is left running by someone else and async cognify does
  not apply to a pending one.
* **`async_drain_marks_unrun`**: with async cognify on, the worker calls the function that
  enqueues. The job is marked done, its pass has not run, and it is in the queue once more.

## Honest scope

The job queue is db1's. `JobQueue` has a field for each of its functions, and
`JobQueue.Lawful` says what the drain relies on: what `claim_next` and `mark` do to the
jobs, and that `status` counts them. Only the enqueue function may be absent. What a
memory's content is, and what the cognifier answers, may change from turn to turn. The
JSON parser is a parameter; the buffers that truncate a parsed field are not modelled, nor
are the summary and the coreference bindings, which the unit does not use.
-/

namespace AimeeMemory.Core

open AimeeMemory.Lib

/-! ## One unit -/

structure CognifyRelation where
  srcEntity : Text
  relation : Text
  dstEntity : Text
  factText : Text
  deriving DecidableEq, Repr

structure CognifyClaim where
  subject : Text
  attr : Text
  value : Text
  kind : Text
  deriving DecidableEq, Repr

/-- `memory_cognify_result_t`, what the unit reads of it. -/
structure CognifyResult where
  memoryKind : Text := []
  relations : List CognifyRelation := []
  claims : List CognifyClaim := []
  deriving DecidableEq, Repr

/-- `COGNIFY_MAX_RELATIONS` and `COGNIFY_MAX_CLAIMS`. -/
structure CognifyLimits where
  maxRelations : ℕ
  maxClaims : ℕ

/-- One element of `relations`; one without its three names is skipped. -/
def parseRelation (rel : Json) : Option CognifyRelation := do
  let subject ← rel.text? "subject"
  let relation ← rel.text? "relation"
  let object ← rel.text? "object"
  return ⟨subject, relation, object, (rel.text? "fact_text").getD []⟩

/-- One element of `claims`. -/
def parseClaim (claim : Json) : Option CognifyClaim := do
  let subject ← claim.text? "subject"
  let attr ← claim.text? "attribute"
  let value ← claim.text? "value"
  let kind := (claim.text? "kind").getD []
  return ⟨subject, attr, value, if kind = [] then text "fact" else kind⟩

/-- `memory_cognify_parse_response`, of a parsed response. -/
def memoryCognifyParseResponse (limits : CognifyLimits) (j : Json) : CognifyResult where
  memoryKind := (j.text? "memory_kind").getD []
  relations := ((j.items "relations").filterMap parseRelation).take limits.maxRelations
  claims := ((j.items "claims").filterMap parseClaim).take limits.maxClaims

/-- `memory_cognify_canonical_kind`. -/
def memoryCognifyCanonicalKind (raw : Text) : Option Text :=
  if raw = text "episodic" ∨ raw = text "semantic" ∨ raw = text "procedural" then some raw else none

/-- What a pass writes to the database. -/
inductive CognifyWrite where
  | setKind (memoryId : ℤ) (kind : Text)
  | relation (memoryId : ℤ) (r : CognifyRelation)
  /-- `memory_insert` at L2, in the session "cognify". -/
  | insert (kind key value : Text) (confidence : ℚ)
  | feedback (key value : Text)
  deriving DecidableEq, Repr

/-- A claim, stored as a memory and, where it is about behaviour, as a feedback rule too. -/
def claimWrites (proceduralMemory : Bool) (cl : CognifyClaim) : List CognifyWrite :=
  let key := (cl.subject ++ text ":" ++ cl.attr).take 255
  let kind := if cl.kind = [] then text "fact" else cl.kind
  let confidence : ℚ := if kind = text "opinion" then 1 / 2 else 4 / 5
  let behavioural : Bool :=
    kind = text "preference" ∨ kind = text "policy" ∨ kind = text "procedure" ∨ kind = text "workflow"
  .insert kind key cl.value confidence ::
    if (proceduralMemory ∨ behavioural) ∧ key ≠ [] ∧ cl.value ≠ [] then [.feedback key cl.value] else []

/-- The writes of a pass, in order. -/
def cognifyWrites (memoryId : ℤ) (r : CognifyResult) : List CognifyWrite :=
  let canonKind := memoryCognifyCanonicalKind r.memoryKind
  (match canonKind with
    | some kind => if 0 < memoryId then [.setKind memoryId kind] else []
    | none => []) ++
    r.relations.map (.relation memoryId) ++
    r.claims.flatMap (claimWrites (canonKind = some (text "procedural")))

/-- The configuration that the unit reads. -/
structure CognifyConfig where
  enabled : Bool
  command : Text
  asyncEnabled : Bool
  limits : CognifyLimits

/-- The unit's text, as the cognifier is asked about it. -/
structure CognifyInput where
  unitId : ℤ
  text : Text
  deriving DecidableEq, Repr

/-- The world around a drain, by turns. -/
structure CognifyEnv where
  /-- `db2_memory_get_content`, empty where the memory is missing. -/
  getContent : ℕ → ℤ → Text
  /-- `platform_exec_pipe`: the response, where the command succeeds and answers. -/
  execPipe : ℕ → Text → CognifyInput → Option Text
  /-- `cJSON_Parse`. -/
  parse : Text → Option Json
  /-- Seconds since the drain started. -/
  elapsed : ℕ → ℤ

/-- What became of a unit. -/
inductive UnitOutcome where
  | failed
  | enqueued
  | passed (writes : List CognifyWrite)
  deriving DecidableEq, Repr

/-- The return code of `memory_cognify_unit`. -/
def UnitOutcome.rc : UnitOutcome → ℤ
  | .failed => -1
  | _ => 0

/-- The pass itself: the cognifier, the parser, the writes. -/
def cognifyPass (cfg : CognifyConfig) (env : CognifyEnv) (turn : ℕ) (memoryId : ℤ) (content : Text) :
    UnitOutcome :=
  match env.execPipe turn cfg.command ⟨memoryId, content⟩ with
  | none => .failed
  | some response =>
    match env.parse response with
    | none => .failed
    | some j => .passed (cognifyWrites memoryId (memoryCognifyParseResponse cfg.limits j))

/-- `memory_cognify_unit`. -/
def memoryCognifyUnit {D : Type} (cfg : CognifyConfig) (enqueue : Option (D → ℤ → D)) (env : CognifyEnv)
    (turn : ℕ) (memoryId : ℤ) (content : Text) (db : D) : UnitOutcome × D :=
  if !cfg.enabled then (.failed, db)
  else if cfg.command = [] then (.failed, db)
  else if content = [] then (.failed, db)
  else if cfg.asyncEnabled ∧ 0 < memoryId then
    match enqueue with
    | some enqueue => (.enqueued, enqueue db memoryId)
    | none => (cognifyPass cfg env turn memoryId content, db)
  else (cognifyPass cfg env turn memoryId content, db)

/-! ## The job queue -/

inductive JobStatus where
  | pending
  | running
  | done
  | failed
  deriving DecidableEq, Repr

/-- `db1_cognify_job_t`, and the status of the job. -/
structure CognifyJob where
  id : ℤ
  memoryId : ℤ
  attempts : ℤ
  maxAttempts : ℤ
  status : JobStatus
  deriving DecidableEq, Repr

/-- What `db1_cognify_job_claim_next` answers. -/
inductive Claim where
  | error
  | none
  | job (j : CognifyJob)
  deriving DecidableEq, Repr

/-- `db1_cognify_job_stats_t`. -/
structure JobCounts where
  pending : ℕ := 0
  running : ℕ := 0
  done : ℕ := 0
  failed : ℕ := 0
  total : ℕ := 0
  deriving DecidableEq, Repr

/-- The `db1_cognify_job_*` functions, over the state `D` of the database. -/
structure JobQueue (D : Type) where
  claimNext : D → Claim × D
  mark : D → ℤ → JobStatus → Text → D
  enqueue : Option (D → ℤ → D)
  status : D → Option JobCounts

/-- What happens to the claimed job, when it is claimed and when it is marked. -/
def CognifyJob.claimed (j k : CognifyJob) : CognifyJob :=
  if k.id = j.id then { k with attempts := k.attempts + 1, status := .running } else k

def CognifyJob.marked (id : ℤ) (status : JobStatus) (k : CognifyJob) : CognifyJob :=
  if k.id = id then { k with status := status } else k

/-- What the drain relies on, of a database with these jobs. -/
structure JobQueue.Lawful {D : Type} (q : JobQueue D) (jobs : D → List CognifyJob) : Prop where
  /-- A claim takes a pending job and counts the attempt, before or after it is read. -/
  claim_job : ∀ {d d' j}, q.claimNext d = (.job j, d') →
    jobs d' = (jobs d).map j.claimed ∧ ∃ k ∈ jobs d, k.status = .pending ∧ k.id = j.id ∧
      k.memoryId = j.memoryId ∧ k.maxAttempts = j.maxAttempts ∧ k.attempts ≤ j.attempts
  claim_none : ∀ {d d'}, q.claimNext d = (.none, d') → jobs d' = jobs d ∧ ∀ k ∈ jobs d, k.status ≠ .pending
  mark : ∀ d id status err, jobs (q.mark d id status err) = (jobs d).map (CognifyJob.marked id status)
  status : ∀ {d c}, q.status d = some c → c.running = (jobs d).countP (·.status = .running)

/-- The database answers: no claim and no status query fails. -/
structure JobQueue.Reliable {D : Type} (q : JobQueue D) : Prop where
  claims : ∀ d, (q.claimNext d).1 ≠ .error
  status : ∀ d, q.status d ≠ none

/-- `memory_cognify_queue_stats_t`. -/
structure QueueStats extends JobCounts where
  processed : ℕ := 0
  retried : ℕ := 0
  deriving DecidableEq, Repr

/-- `memory_cognify_queue_status`. It clears what the drain has counted. -/
def memoryCognifyQueueStatus {D : Type} (q : JobQueue D) (db : D) : ℤ × QueueStats :=
  match q.status db with
  | none => (-1, {})
  | some counts => (0, { counts with })

/-! ## The drain -/

/-- What the drain did with a job it claimed. -/
structure DrainEntry where
  turn : ℕ
  job : CognifyJob
  content : Text
  outcome : UnitOutcome
  status : JobStatus
  deriving DecidableEq, Repr

structure DrainState (D : Type) where
  db : D
  stats : QueueStats := {}
  turn : ℕ := 0
  log : List DrainEntry := []

section Drain

variable {D : Type} (cfg : CognifyConfig) (q : JobQueue D) (env : CognifyEnv) (timeoutSecs : ℤ)

/-- The content of a claimed job's memory, in its buffer. -/
def drainContent (turn : ℕ) (j : CognifyJob) : Text := (env.getContent turn j.memoryId).take 4095

/-- The unit of a claimed job, where its memory has content. -/
def drainUnit (turn : ℕ) (j : CognifyJob) (db : D) : UnitOutcome × D :=
  if drainContent env turn j ≠ [] then
    memoryCognifyUnit cfg q.enqueue env turn j.memoryId (drainContent env turn j) db
  else (.failed, db)

/-- How a job is marked: a failed one is retried while it has attempts left. -/
def CognifyJob.markFor (j : CognifyJob) (outcome : UnitOutcome) : JobStatus :=
  if outcome.rc = 0 then .done
  else if j.attempts < j.maxAttempts then .pending
  else .failed

/-- The error text of the mark. -/
def drainError (turn : ℕ) (j : CognifyJob) (outcome : UnitOutcome) : Text :=
  if outcome.rc = 0 then []
  else if drainContent env turn j ≠ [] then
    text ("cognify_unit failed for memory " ++ toString j.memoryId)
  else text ("memory " ++ toString j.memoryId ++ " content missing")

/-- A claimed job: the unit, and the mark. -/
def drainJob (s : DrainState D) (j : CognifyJob) (db : D) : DrainState D :=
  let (outcome, db) := drainUnit cfg q env s.turn j db
  { db := q.mark db j.id (j.markFor outcome) (drainError env s.turn j outcome)
    stats :=
      { s.stats with
        processed := s.stats.processed + 1
        retried := if j.markFor outcome = .pending then s.stats.retried + 1 else s.stats.retried }
    turn := s.turn + 1
    log := s.log ++ [⟨s.turn, j, drainContent env s.turn j, outcome, j.markFor outcome⟩] }

/-- `timeout_secs > 0 && (int)(time(NULL) - started) >= timeout_secs`. -/
def timedOut (turn : ℕ) : Bool := timeoutSecs > 0 ∧ env.elapsed turn ≥ timeoutSecs

/-- The body of the loop of `memory_cognify_drain`. -/
def drainBody (s : DrainState D) : DrainState D ⊕ (ℤ × DrainState D) :=
  match q.claimNext s.db with
  | (.error, db) => .inr (-1, { s with db := db })
  | (.none, db) =>
    let s := { s with db := db, stats := (memoryCognifyQueueStatus q db).2 }
    if s.stats.running = 0 ∨ timedOut env timeoutSecs s.turn then .inr (0, s)
    -- someone else still runs a job: usleep, and look again
    else .inl { s with turn := s.turn + 1 }
  | (.job j, db) =>
    let s' := drainJob cfg q env s j db
    if timedOut env timeoutSecs s.turn then .inr (0, s') else .inl s'

/-- `memory_cognify_drain`, for at most `fuel` turns: its result, and the database and the statistics
it leaves. -/
def memoryCognifyDrain (fuel : ℕ) (db : D) : Option (ℤ × DrainState D) :=
  (loop (drainBody cfg q env timeoutSecs) fuel { db := db }).map fun (rc, s) =>
    (rc, if rc = 0 then { s with stats := (memoryCognifyQueueStatus q s.db).2 } else s)

/-- The pass of an entry's job has run: the cognifier has answered about its text, and what the answer
says has been written. -/
def DrainEntry.PassRan (e : DrainEntry) : Prop :=
  ∃ response j, env.execPipe e.turn cfg.command ⟨e.job.memoryId, e.content⟩ = some response ∧
    env.parse response = some j ∧
    e.outcome = .passed (cognifyWrites e.job.memoryId (memoryCognifyParseResponse cfg.limits j))

/-- The drain ends, and whatever it has marked done by the start of any turn has had its pass. -/
structure DrainFinishes (db : D) : Prop where
  ends : ∃ fuel, (memoryCognifyDrain cfg q env timeoutSecs fuel db).isSome
  honest : ∀ s, Entered (drainBody cfg q env timeoutSecs) { db := db } s →
    ∀ e ∈ s.log, e.status = .done → e.PassRan cfg env

/-- The unit of a memory is enqueued, not run. -/
def Enqueues (memoryId : ℤ) : Prop :=
  cfg.enabled ∧ cfg.command ≠ [] ∧ cfg.asyncEnabled ∧ 0 < memoryId ∧ q.enqueue.isSome

instance (memoryId : ℤ) : Decidable (Enqueues cfg q memoryId) := by
  unfold Enqueues
  infer_instance

/-- No job is left running, and no pending one would be enqueued. -/
def Drainable (ks : List CognifyJob) : Prop :=
  ∀ k ∈ ks, k.status ≠ .running ∧ (k.status = .pending → ¬ Enqueues cfg q k.memoryId)

instance (ks : List CognifyJob) : Decidable (Drainable cfg q ks) := by
  unfold Drainable
  infer_instance

end Drain

/-! ## The turn of a claimed job -/

section Turn

variable {D : Type} {cfg : CognifyConfig} {q : JobQueue D} {env : CognifyEnv} {jobs : D → List CognifyJob}

/-- The claim and the mark, taken together. -/
def CognifyJob.handled (j : CognifyJob) (status : JobStatus) (k : CognifyJob) : CognifyJob :=
  if k.id = j.id then { k with attempts := k.attempts + 1, status := status } else k

theorem CognifyJob.marked_claimed (j : CognifyJob) (status : JobStatus) (k : CognifyJob) :
    (j.claimed k).marked j.id status = j.handled status k := by
  unfold marked claimed handled
  split <;> simp_all

@[simp] theorem CognifyJob.handled_id (j : CognifyJob) (status : JobStatus) (k : CognifyJob) :
    (j.handled status k).id = k.id := by
  unfold handled
  split <;> rfl

theorem CognifyJob.handled_of_ne {j k : CognifyJob} (h : k.id ≠ j.id) (status : JobStatus) :
    j.handled status k = k := if_neg h

/-- A pass says of itself that it has run. -/
theorem cognifyPass_rc {turn : ℕ} {memoryId : ℤ} {content : Text}
    (h : (cognifyPass cfg env turn memoryId content).rc = 0) :
    ∃ response j, env.execPipe turn cfg.command ⟨memoryId, content⟩ = some response ∧
      env.parse response = some j ∧
      cognifyPass cfg env turn memoryId content =
        .passed (cognifyWrites memoryId (memoryCognifyParseResponse cfg.limits j)) := by
  unfold cognifyPass at h ⊢
  split at h
  · simp [UnitOutcome.rc] at h
  · rename_i response hresponse
    split at h
    · simp [UnitOutcome.rc] at h
    · rename_i j hj
      exact ⟨response, j, hresponse, hj, by simp⟩

/-- A unit that is not enqueued leaves the queue alone, and succeeds by its pass. -/
theorem memoryCognifyUnit_of_not_enqueues {memoryId : ℤ} (h : ¬ Enqueues cfg q memoryId) (turn : ℕ)
    (content : Text) (db : D) :
    ∃ outcome, memoryCognifyUnit cfg q.enqueue env turn memoryId content db = (outcome, db) ∧
      (outcome.rc = 0 → outcome = cognifyPass cfg env turn memoryId content) := by
  unfold memoryCognifyUnit
  by_cases hoff : cfg.enabled = false ∨ cfg.command = [] ∨ content = []
  · refine ⟨.failed, ?_, by simp [UnitOutcome.rc]⟩
    rcases hoff with hoff | hoff | hoff <;> simp [hoff]
  · obtain ⟨henabled, hcommand, hcontent⟩ : cfg.enabled = true ∧ cfg.command ≠ [] ∧ content ≠ [] := by
      simpa using hoff
    refine ⟨cognifyPass cfg env turn memoryId content, ?_, fun _ => rfl⟩
    simp only [henabled, hcommand, hcontent, Bool.not_true, Bool.false_eq_true, if_false]
    split
    · rename_i hasync
      cases hq : q.enqueue with
      | none => rfl
      | some enqueue => exact absurd ⟨henabled, hcommand, hasync.1, hasync.2, by rw [hq]; rfl⟩ h
    · rfl

/-- A unit that is enqueued succeeds at once. -/
theorem memoryCognifyUnit_of_enqueues {memoryId : ℤ} (h : Enqueues cfg q memoryId) (turn : ℕ)
    {content : Text} (hcontent : content ≠ []) (db : D) :
    (memoryCognifyUnit cfg q.enqueue env turn memoryId content db).1 = .enqueued := by
  obtain ⟨henabled, hcommand, hasync, hpositive, hsome⟩ := h
  obtain ⟨enqueue, henqueue⟩ := Option.isSome_iff_exists.1 hsome
  simp [memoryCognifyUnit, henabled, hcommand, hcontent, hasync, hpositive, henqueue]

variable (env) in
/-- The unit of a claimed job that is not enqueued leaves the queue alone, and succeeds by its pass. -/
theorem drainUnit_of_not_enqueues {j : CognifyJob} (h : ¬ Enqueues cfg q j.memoryId) (turn : ℕ) (db : D) :
    ∃ outcome, drainUnit cfg q env turn j db = (outcome, db) ∧
      (outcome.rc = 0 → outcome = cognifyPass cfg env turn j.memoryId (drainContent env turn j)) := by
  unfold drainUnit
  split
  · exact memoryCognifyUnit_of_not_enqueues h turn _ db
  · exact ⟨.failed, rfl, by simp [UnitOutcome.rc]⟩

theorem CognifyJob.markFor_cases (j : CognifyJob) (outcome : UnitOutcome) :
    (j.markFor outcome = .done ∧ outcome.rc = 0) ∨
      (j.markFor outcome = .pending ∧ j.attempts < j.maxAttempts) ∨ j.markFor outcome = .failed := by
  unfold markFor
  grind

variable (env) in
/-- What becomes of a claimed job that is not enqueued: a mark, and an entry that tells the truth. -/
theorem drainJob_of_not_enqueues (hq : q.Lawful jobs) {j : CognifyJob} (h : ¬ Enqueues cfg q j.memoryId)
    (s : DrainState D) (db : D) :
    ∃ e : DrainEntry, (drainJob cfg q env s j db).log = s.log ++ [e] ∧
      (e.status = .done → e.PassRan cfg env) ∧
      e.status ≠ .running ∧ (e.status = .pending → j.attempts < j.maxAttempts) ∧
      jobs (drainJob cfg q env s j db).db = (jobs db).map (CognifyJob.marked j.id e.status) := by
  obtain ⟨outcome, hunit, hran⟩ := drainUnit_of_not_enqueues env h s.turn db
  refine ⟨⟨s.turn, j, drainContent env s.turn j, outcome, j.markFor outcome⟩, ?_, ?_, ?_, ?_, ?_⟩
  · simp only [drainJob, hunit]
  · intro hdone
    have hrc : outcome.rc = 0 := by
      have := j.markFor_cases outcome
      simp only at hdone
      simpa [hdone] using this
    obtain ⟨response, answer, hresponse, hanswer, hpass⟩ := cognifyPass_rc (hran hrc ▸ hrc)
    exact ⟨response, answer, hresponse, hanswer, (hran hrc).trans hpass⟩
  · have := j.markFor_cases outcome
    grind
  · have := j.markFor_cases outcome
    grind
  · simp only [drainJob, hunit]
    exact hq.mark _ _ _ _

/-- A claimed job that is enqueued is marked done, and no pass has run. -/
theorem drainJob_of_enqueues {j : CognifyJob} (h : Enqueues cfg q j.memoryId) {s : DrainState D} (db : D)
    (hcontent : drainContent env s.turn j ≠ []) :
    ∃ e ∈ (drainJob cfg q env s j db).log, e.status = .done ∧ ¬ e.PassRan cfg env := by
  have hunit : (drainUnit cfg q env s.turn j db).1 = .enqueued := by
    rw [drainUnit, if_pos hcontent]
    exact memoryCognifyUnit_of_enqueues h s.turn hcontent db
  refine ⟨⟨s.turn, j, drainContent env s.turn j, .enqueued, .done⟩, ?_, rfl, ?_⟩
  · simp only [drainJob, hunit]
    simp [CognifyJob.markFor, UnitOutcome.rc]
  · rintro ⟨response, answer, -, -, hpassed⟩
    cases hpassed

/-! ## The measure of a drain -/

/-- How many more times a job can be claimed. -/
def CognifyJob.claimsLeft (k : CognifyJob) : ℕ :=
  if k.status = .pending then (k.maxAttempts - k.attempts).toNat + 1 else 0

def claimsLeft (ks : List CognifyJob) : ℕ := (ks.map CognifyJob.claimsLeft).sum

/-- The jobs of a queue have ids of their own. -/
def DistinctIds (ks : List CognifyJob) : Prop := (ks.map (·.id)).Nodup

instance (ks : List CognifyJob) : Decidable (DistinctIds ks) := inferInstanceAs (Decidable (List.Nodup _))

theorem DistinctIds.handled {ks : List CognifyJob} (h : DistinctIds ks) (j : CognifyJob) (status : JobStatus) :
    DistinctIds (ks.map (j.handled status)) := by
  have hsame : (·.id) ∘ j.handled status = (·.id) := funext (j.handled_id status)
  rwa [DistinctIds, List.map_map, hsame]

/-- A job of a queue is told from the others by its id. -/
theorem DistinctIds.eq {ks : List CognifyJob} (h : DistinctIds ks) {k k' : CognifyJob} (hk : k ∈ ks)
    (hk' : k' ∈ ks) (hid : k.id = k'.id) : k = k' :=
  List.inj_on_of_nodup_map h hk hk' hid

variable {ks : List CognifyJob} {j k : CognifyJob} {status : JobStatus}

/-- A job that is claimed and marked can be claimed less often, and the others as often as before. -/
theorem claimsLeft_handled (hids : DistinctIds ks) (hk : k ∈ ks) (hpending : k.status = .pending)
    (hid : k.id = j.id) (hmax : k.maxAttempts = j.maxAttempts) (hattempts : k.attempts ≤ j.attempts)
    (hretry : status = .pending → j.attempts < j.maxAttempts) :
    claimsLeft (ks.map (j.handled status)) < claimsLeft ks := by
  have hown : (j.handled status k).claimsLeft < k.claimsLeft := by
    simp only [CognifyJob.handled, hid, if_true, CognifyJob.claimsLeft, hpending]
    split
    · rename_i hstatus
      have := hretry hstatus
      omega
    · omega
  unfold claimsLeft
  rw [List.map_map]
  refine List.sum_lt_sum _ _ (fun k' hk' => ?_) ⟨k, hk, hown⟩
  by_cases hsame : k'.id = j.id
  · obtain rfl := hids.eq hk' hk (hsame.trans hid.symm)
    exact hown.le
  · simp [CognifyJob.handled_of_ne hsame]

theorem Drainable.handled (h : Drainable cfg q ks) (hids : DistinctIds ks) (hk : k ∈ ks)
    (hpending : k.status = .pending) (hid : k.id = j.id) (hrunning : status ≠ .running) :
    Drainable cfg q (ks.map (j.handled status)) := by
  intro k' hk'
  obtain ⟨k'', hk'', rfl⟩ := List.mem_map.1 hk'
  by_cases hsame : k''.id = j.id
  · obtain rfl := hids.eq hk'' hk (hsame.trans hid.symm)
    simp only [CognifyJob.handled, hid, if_true]
    exact ⟨hrunning, fun _ => (h k'' hk).2 hpending⟩
  · rw [CognifyJob.handled_of_ne hsame]
    exact h k'' hk''

end Turn

/-! ## The whole drain -/

section Run

variable {D : Type} {cfg : CognifyConfig} {q : JobQueue D} {env : CognifyEnv} {timeoutSecs : ℤ}
variable {jobs : D → List CognifyJob}

theorem not_timedOut (h : timeoutSecs ≤ 0) (turn : ℕ) : timedOut env timeoutSecs turn = false := by
  simp only [timedOut, decide_eq_false_iff_not]
  omega

theorem drainBody_of_job (h : timeoutSecs ≤ 0) {s : DrainState D} {j : CognifyJob} {db : D}
    (hclaim : q.claimNext s.db = (.job j, db)) :
    drainBody cfg q env timeoutSecs s = .inl (drainJob cfg q env s j db) := by
  simp [drainBody, hclaim, not_timedOut h]

/-- Where nothing is left to claim, the drain goes on exactly while someone else runs a job. -/
theorem drainBody_of_none (h : timeoutSecs ≤ 0) {s : DrainState D} {db : D}
    (hclaim : q.claimNext s.db = (.none, db)) :
    drainBody cfg q env timeoutSecs s =
      if (memoryCognifyQueueStatus q db).2.running = 0 then
        .inr (0, { s with db := db, stats := (memoryCognifyQueueStatus q db).2 })
      else .inl { s with db := db, stats := (memoryCognifyQueueStatus q db).2, turn := s.turn + 1 } := by
  simp [drainBody, hclaim, not_timedOut h]

/-- The status reports no running job where there is none. -/
theorem running_eq_zero (hq : q.Lawful jobs) {db : D} (h : ∀ k ∈ jobs db, k.status ≠ .running) :
    (memoryCognifyQueueStatus q db).2.running = 0 := by
  unfold memoryCognifyQueueStatus
  split
  · rfl
  · rename_i c hc
    rw [show ({ c with } : QueueStats).running = c.running from rfl, hq.status hc, List.countP_eq_zero]
    simpa using h

/-- A claim and a mark of a job that is not enqueued, on the jobs. -/
theorem jobs_drainJob (hq : q.Lawful jobs) {s : DrainState D} {j : CognifyJob} {db : D}
    (hclaim : q.claimNext s.db = (.job j, db)) {status : JobStatus}
    (hmarked : jobs (drainJob cfg q env s j db).db = (jobs db).map (CognifyJob.marked j.id status)) :
    jobs (drainJob cfg q env s j db).db = (jobs s.db).map (j.handled status) := by
  rw [hmarked, (hq.claim_job hclaim).1, List.map_map]
  exact List.map_congr_left fun k _ => j.marked_claimed status k

/-- What the drain keeps while no job is enqueued. -/
structure Draining (cfg : CognifyConfig) (q : JobQueue D) (env : CognifyEnv) (jobs : D → List CognifyJob)
    (s : DrainState D) : Prop where
  distinct : DistinctIds (jobs s.db)
  drainable : Drainable cfg q (jobs s.db)
  honest : ∀ e ∈ s.log, e.status = .done → e.PassRan cfg env

theorem Draining.step (hq : q.Lawful jobs) (htimeout : timeoutSecs ≤ 0) {s t : DrainState D}
    (h : Draining cfg q env jobs s) (hstep : drainBody cfg q env timeoutSecs s = .inl t) :
    Draining cfg q env jobs t ∧ claimsLeft (jobs t.db) < claimsLeft (jobs s.db) := by
  rcases hclaim : q.claimNext s.db with ⟨claim, db⟩
  cases claim with
  | error => simp [drainBody, hclaim] at hstep
  | none =>
    have hidle : (memoryCognifyQueueStatus q db).2.running = 0 := by
      refine running_eq_zero hq fun k hk => ?_
      rw [(hq.claim_none hclaim).1] at hk
      exact (h.drainable k hk).1
    rw [drainBody_of_none htimeout hclaim, if_pos hidle] at hstep
    cases hstep
  | job j =>
    rw [drainBody_of_job htimeout hclaim] at hstep
    obtain rfl := Sum.inl.inj hstep
    obtain ⟨-, k, hk, hpending, hid, hmemory, hmax, hattempts⟩ := hq.claim_job hclaim
    obtain ⟨e, hlog, htrue, hrunning, hretry, hmarked⟩ :=
      drainJob_of_not_enqueues env hq (hmemory ▸ (h.drainable k hk).2 hpending) s db
    have hjobs := jobs_drainJob hq hclaim hmarked
    refine ⟨⟨?_, ?_, ?_⟩, ?_⟩
    · rw [hjobs]
      exact h.distinct.handled j e.status
    · rw [hjobs]
      exact h.drainable.handled h.distinct hk hpending hid hrunning
    · intro e' he' hdone
      rw [hlog, List.mem_append, List.mem_singleton] at he'
      rcases he' with he' | rfl
      · exact h.honest e' he' hdone
      · exact htrue hdone
    · rw [hjobs]
      exact claimsLeft_handled h.distinct hk hpending hid hmax hattempts hretry

theorem memoryCognifyDrain_isSome (fuel : ℕ) (db : D) :
    (memoryCognifyDrain cfg q env timeoutSecs fuel db).isSome =
      (loop (drainBody cfg q env timeoutSecs) fuel { db := db }).isSome := by
  rw [memoryCognifyDrain, Option.isSome_map]

theorem drainFinishes_of_drainable (hq : q.Lawful jobs) (htimeout : timeoutSecs ≤ 0) {db : D}
    (hdistinct : DistinctIds (jobs db)) (h : Drainable cfg q (jobs db)) :
    DrainFinishes cfg q env timeoutSecs db := by
  have hstart : Draining cfg q env jobs { db := db } := ⟨hdistinct, h, by simp⟩
  constructor
  · obtain ⟨fuel, hfuel⟩ := ends_of_measure (I := Draining cfg q env jobs)
      (μ := fun s => claimsLeft (jobs s.db)) (fun _ _ hs hstep => hs.step hq htimeout hstep) _ hstart
    exact ⟨fuel, by rwa [memoryCognifyDrain_isSome]⟩
  · intro s hs
    exact (hs.invariant (fun _ _ hs hstep => (hs.step hq htimeout hstep).1) hstart).honest

/-! ## Where it does not finish -/

/-- A job that is not claimed stays as it is. -/
theorem mem_handled {ks : List CognifyJob} {j k : CognifyJob} (hk : k ∈ ks) (hne : k.id ≠ j.id)
    (status : JobStatus) : k ∈ ks.map (j.handled status) :=
  List.mem_map.2 ⟨k, hk, CognifyJob.handled_of_ne hne status⟩

/-- A job that someone else left running keeps the drain waiting. -/
theorem not_ends_of_running (hq : q.Lawful jobs) (hrel : q.Reliable) (htimeout : timeoutSecs ≤ 0)
    (hempty : ∀ turn memoryId, env.getContent turn memoryId = []) {db : D} (hdistinct : DistinctIds (jobs db))
    {k : CognifyJob} (hk : k ∈ jobs db) (hrunning : k.status = .running) :
    ¬ Ends (drainBody cfg q env timeoutSecs) { db := db } := by
  refine not_ends_of_invariant (I := fun s : DrainState D => DistinctIds (jobs s.db) ∧ k ∈ jobs s.db) ?_
    ⟨hdistinct, hk⟩
  rintro s ⟨hdistinct, hk⟩
  rcases hclaim : q.claimNext s.db with ⟨claim, db⟩
  cases claim with
  | error => exact absurd (by rw [hclaim]) (hrel.claims s.db)
  | none =>
    have hjobs := (hq.claim_none hclaim).1
    have hwaits : (memoryCognifyQueueStatus q db).2.running ≠ 0 := by
      obtain ⟨c, hc⟩ := Option.ne_none_iff_exists'.1 (hrel.status db)
      rw [memoryCognifyQueueStatus, hc]
      rw [show ({ c with } : QueueStats).running = c.running from rfl, hq.status hc, hjobs]
      exact (List.countP_pos_iff.2 ⟨k, hk, by simpa using hrunning⟩).ne'
    rw [drainBody_of_none htimeout hclaim, if_neg hwaits]
    exact ⟨_, rfl, by rw [hjobs]; exact hdistinct, by rw [hjobs]; exact hk⟩
  | job j =>
    obtain ⟨-, k', hk', hpending, hid, -⟩ := hq.claim_job hclaim
    have hne : k.id ≠ j.id := by
      intro hsame
      obtain rfl := hdistinct.eq hk hk' (hsame.trans hid.symm)
      rw [hrunning] at hpending
      cases hpending
    have hunit : drainUnit cfg q env s.turn j db = (.failed, db) := by
      simp [drainUnit, drainContent, hempty]
    have hmarked : jobs (drainJob cfg q env s j db).db =
        (jobs db).map (CognifyJob.marked j.id (j.markFor .failed)) := by
      simp only [drainJob, hunit]
      exact hq.mark _ _ _ _
    have hjobs := jobs_drainJob hq hclaim hmarked
    refine ⟨_, drainBody_of_job htimeout hclaim, ?_, ?_⟩
    · rw [hjobs]
      exact hdistinct.handled j _
    · rw [hjobs]
      exact mem_handled hk hne _

/-- A pending job that is enqueued when its turn comes: either the drain never gets there, or it marks
a job done that has not run. -/
theorem not_finishes_of_enqueues (hq : q.Lawful jobs) (hrel : q.Reliable) (htimeout : timeoutSecs ≤ 0)
    (hcontent : ∀ turn memoryId, env.getContent turn memoryId ≠ []) {db : D} (hdistinct : DistinctIds (jobs db))
    {k : CognifyJob} (hk : k ∈ jobs db) (hpending : k.status = .pending) (henqueues : Enqueues cfg q k.memoryId) :
    ¬ DrainFinishes cfg q env timeoutSecs db := by
  rintro ⟨⟨fuel, hfuel⟩, hhonest⟩
  rw [memoryCognifyDrain_isSome] at hfuel
  refine not_ends_of_invariant (I := fun s : DrainState D =>
    Entered (drainBody cfg q env timeoutSecs) { db := db } s ∧ DistinctIds (jobs s.db) ∧ k ∈ jobs s.db)
    ?_ ⟨.refl, hdistinct, hk⟩ ⟨fuel, hfuel⟩
  rintro s ⟨hentered, hdistinct, hk⟩
  rcases hclaim : q.claimNext s.db with ⟨claim, db'⟩
  cases claim with
  | error => exact absurd (by rw [hclaim]) (hrel.claims s.db)
  | none => exact absurd hpending ((hq.claim_none hclaim).2 k hk)
  | job j =>
    have hstep : drainBody cfg q env timeoutSecs s = .inl (drainJob cfg q env s j db') := drainBody_of_job htimeout hclaim
    have hnext : Entered (drainBody cfg q env timeoutSecs) { db := db } (drainJob cfg q env s j db') :=
      hentered.tail hstep
    by_cases hj : Enqueues cfg q j.memoryId
    · have htext : drainContent env s.turn j ≠ [] := by
        have := hcontent s.turn j.memoryId
        simpa [drainContent] using this
      obtain ⟨e, he, hdone, hnot⟩ := drainJob_of_enqueues hj db' htext
      exact absurd (hhonest _ hnext e he hdone) hnot
    · obtain ⟨-, k', hk', -, hid, hmemory, -⟩ := hq.claim_job hclaim
      have hne : k.id ≠ j.id := by
        intro hsame
        obtain rfl := hdistinct.eq hk hk' (hsame.trans hid.symm)
        exact hj (hmemory ▸ henqueues)
      obtain ⟨e, -, -, -, -, hmarked⟩ := drainJob_of_not_enqueues env hq hj s db'
      have hjobs := jobs_drainJob hq hclaim hmarked
      refine ⟨_, hstep, hnext, ?_, ?_⟩
      · rw [hjobs]
        exact hdistinct.handled j _
      · rw [hjobs]
        exact mem_handled hk hne _

/-- Whatever the contents and the cognifier, a drain without a timeout ends with the pass run for every
job that it marks done exactly when the queue is drainable. The first half holds also of a database
that fails. -/
theorem drainFinishes_iff (hq : q.Lawful jobs) (htimeout : timeoutSecs ≤ 0) (db : D)
    (hdistinct : DistinctIds (jobs db)) :
    (Drainable cfg q (jobs db) → ∀ env, DrainFinishes cfg q env timeoutSecs db) ∧
      (q.Reliable → (∀ env, DrainFinishes cfg q env timeoutSecs db) → Drainable cfg q (jobs db)) := by
  refine ⟨fun h env => drainFinishes_of_drainable hq htimeout hdistinct h, fun hrel h k hk => ⟨?_, ?_⟩⟩
  · intro hrunning
    obtain ⟨fuel, hfuel⟩ := (h ⟨fun _ _ => [], fun _ _ _ => none, fun _ => none, fun _ => 0⟩).ends
    rw [memoryCognifyDrain_isSome] at hfuel
    exact not_ends_of_running hq hrel htimeout (fun _ _ => rfl) hdistinct hk hrunning ⟨fuel, hfuel⟩
  · intro hpending henqueues
    exact not_finishes_of_enqueues hq hrel htimeout (fun _ _ => List.cons_ne_nil _ _) hdistinct hk hpending
      henqueues (h ⟨fun _ _ => text "a", fun _ _ _ => none, fun _ => none, fun _ => 0⟩)

end Run

/-! ## A queue kept in a list -/

/-- A job queue over a list: the first pending job is claimed, and a memory with a pending job is not
enqueued again. -/
def listQueue : JobQueue (List CognifyJob) where
  claimNext ks :=
    match ks.find? (·.status = .pending) with
    | none => (.none, ks)
    | some k => (.job { k with attempts := k.attempts + 1, status := .running }, ks.map k.claimed)
  mark ks id status _ := ks.map (CognifyJob.marked id status)
  enqueue := some fun ks memoryId =>
    if ks.any fun k => k.memoryId = memoryId ∧ k.status = .pending then ks
    else ks ++ [⟨ks.length + 1, memoryId, 0, 3, .pending⟩]
  status ks := some
    { pending := ks.countP (·.status = .pending)
      running := ks.countP (·.status = .running)
      done := ks.countP (·.status = .done)
      failed := ks.countP (·.status = .failed)
      total := ks.length }

theorem listQueue_lawful : listQueue.Lawful id where
  claim_job := by
    intro ks ks' j h
    simp only [listQueue] at h
    split at h
    · cases h
    · rename_i k hfind
      obtain ⟨hj, rfl⟩ := Prod.mk.inj h
      obtain rfl := Claim.job.inj hj
      refine ⟨rfl, k, List.mem_of_find?_eq_some hfind, ?_, rfl, rfl, rfl, ?_⟩
      · simpa using List.find?_some hfind
      · simp
  claim_none := by
    intro ks ks' h
    simp only [listQueue] at h
    split at h
    · rename_i hfind
      obtain ⟨-, rfl⟩ := Prod.mk.inj h
      exact ⟨rfl, by simpa using hfind⟩
    · cases h
  mark := fun _ _ _ _ => rfl
  status := by
    intro ks c h
    obtain rfl := Option.some.inj h
    rfl

/-- A world in which every memory has content and the cognifier is out of order. -/
def brokenCognifier : CognifyEnv := ⟨fun _ _ => text "a", fun _ _ _ => none, fun _ => none, fun _ => 0⟩

/-- A drain with async cognify off, of a queue with a job that may be tried three times. -/
theorem syncDrain_finishes :
    DrainFinishes ⟨true, text "cognify", false, ⟨8, 8⟩⟩ listQueue brokenCognifier 0 [⟨1, 7, 0, 3, .pending⟩] :=
  (drainFinishes_iff listQueue_lawful le_rfl _ (by decide)).1 (by decide) brokenCognifier

/-- The configuration with async cognify on. -/
def asyncConfig : CognifyConfig := ⟨true, text "cognify", true, ⟨8, 8⟩⟩

/-- With async cognify on, the first job of a queue is marked done, and no pass has run. -/
theorem async_drain_marks_unrun :
    ¬ DrainFinishes asyncConfig listQueue brokenCognifier 0 [⟨1, 7, 0, 3, .pending⟩] := by
  rintro ⟨-, hhonest⟩
  have hstep : drainBody asyncConfig listQueue brokenCognifier 0 { db := [⟨1, 7, 0, 3, .pending⟩] } =
      .inl (drainJob asyncConfig listQueue brokenCognifier { db := [⟨1, 7, 0, 3, .pending⟩] } ⟨1, 7, 1, 3, .running⟩
        [⟨1, 7, 1, 3, .running⟩]) := drainBody_of_job le_rfl rfl
  obtain ⟨_, j, -, -, hpassed⟩ := hhonest _ (.single hstep)
    ⟨0, ⟨1, 7, 1, 3, .running⟩, text "a", .enqueued, .done⟩ (by decide) rfl
  cases hpassed

/-- The queue of a drain that has enqueued its memory `pre.length` times. -/
def Requeued (s : DrainState (List CognifyJob)) : Prop :=
  ∃ pre, s.db = pre ++ [⟨pre.length + 1, 7, 0, 3, .pending⟩] ∧
    ∀ k ∈ pre, k.status = .done ∧ k.id ≤ pre.length

/-- A job at the end of the list is claimed where no other is pending, and the others keep out of it. -/
theorem listQueue_claim_last {pre : List CognifyJob} {k : CognifyJob} (hpending : k.status = .pending)
    (hnone : ∀ k' ∈ pre, k'.status ≠ .pending) (hids : ∀ k' ∈ pre, k'.id ≠ k.id) :
    listQueue.claimNext (pre ++ [k]) =
      (.job { k with attempts := k.attempts + 1, status := .running },
        pre ++ [{ k with attempts := k.attempts + 1, status := .running }]) := by
  have hfind : (pre ++ [k]).find? (·.status = .pending) = some k := by
    have hpre : pre.find? (·.status = .pending) = none := by simpa using hnone
    simp [List.find?_append, hpre, hpending]
  have hkept : pre.map k.claimed = pre :=
    (List.map_congr_left fun k' hk' => if_neg (hids k' hk')).trans (List.map_id pre)
  simp only [listQueue, hfind, List.map_append, hkept]
  simp [CognifyJob.claimed]

/-- It is enqueued for ever: each turn leaves the queue with one job more to do. -/
theorem async_drain_never_ends :
    ¬ Ends (drainBody asyncConfig listQueue brokenCognifier 0) { db := [⟨1, 7, 0, 3, .pending⟩] } := by
  refine not_ends_of_invariant (I := Requeued) ?_ ⟨[], rfl, by simp⟩
  rintro s ⟨pre, hdb, hdone⟩
  have hids : ∀ k ∈ pre, k.id ≠ (pre.length : ℤ) + 1 := by
    intro k hk
    have := (hdone k hk).2
    omega
  have hnone : ∀ k ∈ pre, k.status ≠ .pending := fun k hk => by simp [(hdone k hk).1]
  have hclaim := hdb ▸ listQueue_claim_last (k := ⟨pre.length + 1, 7, 0, 3, .pending⟩) rfl hnone hids
  refine ⟨_, drainBody_of_job le_rfl hclaim, pre ++ [⟨pre.length + 1, 7, 1, 3, .done⟩], ?_, ?_⟩
  · -- the claimed job is not pending, so its memory is enqueued once more, behind it
    have hnew : ¬ ∃ k ∈ pre, k.memoryId = 7 ∧ k.status = .pending :=
      fun ⟨k, hk, _, hpending⟩ => hnone k hk hpending
    have hmarked : pre.map (CognifyJob.marked (pre.length + 1) .done) = pre :=
      (List.map_congr_left fun k hk => if_neg (hids k hk)).trans (List.map_id pre)
    have htext : drainContent brokenCognifier s.turn ⟨pre.length + 1, 7, 0 + 1, 3, .running⟩ = text "a" := rfl
    simp only [drainJob, drainUnit, htext, memoryCognifyUnit, asyncConfig, listQueue]
    rw [if_pos (by decide)]
    simp only [Bool.not_true, Bool.false_eq_true, if_false, List.any_append, List.any_cons, List.any_nil]
    simp [hnew, hmarked, CognifyJob.marked, CognifyJob.markFor, UnitOutcome.rc, text]
  · intro k hk
    rw [List.length_append]
    rcases List.mem_append.1 hk with hk | hk
    · obtain ⟨hstatus, hid⟩ := hdone k hk
      refine ⟨hstatus, hid.trans ?_⟩
      simp
    · obtain rfl := List.mem_singleton.1 hk
      exact ⟨rfl, by simp⟩

end AimeeMemory.Core
