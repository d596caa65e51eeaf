import AimeeMemory.Core.Writers
import AimeeMemory.Lib.Trace
import AimeeMemory.Lib.ScoreArith
import Mathlib.Data.Prod.Lex

/-!
# The maintenance cycle

`memory_run_maintenance` of `memory_health.c` and the passes that it chains: the bulk
promotions, demotions and expiries of db2, and between them the writers, which insert what
they make of the agent log and of the store, and the demotion of what the agent log's errors
mention.

A second cycle right after a first one finds the same agent log, so that the writers insert
the same rows again, and the insert merges: it counts one more use and one more observation.

## What is proved

* `decided_insert`: an insert keeps what is stored above the scratch tier if it lands in no row there, and else
  leaves a use or a row that was not there.
* **`maintenance_keeps_evidence_iff`**: a second cycle leaves the evidence of every memory as the first has left
  it exactly if it stores and demotes nothing above the scratch tier.
* **`maintenance_adds_evidence`**: a delegation that succeeds gains a use with every cycle.

## Honest scope

An insert may trigger a cycle of its own, by the counters of db1; that is not modelled. What
the end of a cycle keeps up outside the rows (embeddings, effectiveness, derived tables,
conflicts, health, the graph) is two fields of `MaintenanceEnv`.
-/

namespace AimeeMemory.Core

open AimeeMemory.Lib

/-! ### The cycle -/

/-- A bulk update of db2: the store, and the number of the rows changed. -/
abbrev BulkCall := Store → Store × ℤ

/-- `kind_lifecycle_t`. -/
structure KindLifecycle where
  promoteUseCount : ℤ
  promoteConfidence : ℚ
  demoteConfidence : ℚ
  demoteDays : ℤ
  demotionResistance : ℚ
  expireDays : ℤ
  deriving DecidableEq, Repr

/-- What a cycle runs in. -/
structure MaintenanceEnv extends WriterEnv where
  /-- At most 16 kinds. -/
  kindsInTier : Store → Tier → List Text
  lifecycle : Text → KindLifecycle
  calibrationEnabled : ℤ
  /-- The threshold of a kind's calibration profile, where there is one. -/
  calibratedThreshold : Text → Option ℚ
  promoteKind : Text → ℤ → ℚ → BulkCall
  /-- Of the two slots of the rows that are told apart by their id modulo 5. -/
  promoteKindSlot : Text → ℤ → ℚ → Bool → BulkCall
  promoteStableL2ToL3 : BulkCall
  /-- `kb_extract_convention_candidates`. -/
  extractConventionCandidates : BulkCall
  demoteKind : Text → ℚ → Text → BulkCall
  demoteCascade : Store → Store
  /-- The texts of at most 128 errors of 7 days: none where the function is not linked. -/
  recentErrors : Option (List Text)
  errorSize : ℕ
  /-- At most 256 memories whose key an error mentions. -/
  matchErrorKeys : Store → Text → List ℤ
  demoteId : ℤ → BulkCall
  demoteLowEffectiveness : BulkCall
  deleteL0Provenance : Store → Store
  deleteL0 : BulkCall
  deleteStaleL1Provenance : Text → Text → Store → Store
  deleteStaleL1 : Text → Text → BulkCall
  retentionRestrictedDays : ℕ
  retentionSensitiveDays : ℕ
  deleteBySensitivity : Label → ℕ → BulkCall
  embedUnembeddedL2 : Store → Store
  /-- The end of a cycle, which is told how many rows it has promoted, demoted and expired. -/
  closeCycle : ℤ → ℤ → ℤ → Store → Store

variable (M : MaintenanceEnv)

/-- Bulk updates one after the other, with the sum of their counts. -/
def runBulk (calls : List BulkCall) (s : Store) : Store × ℤ :=
  calls.foldl (fun done call => ((call done.1).1, done.2 + (call done.1).2)) (s, 0)

/-- The promotions of a kind: by a calibrated threshold in place of the static one, or each for a part of the rows. -/
def promoteCalls (kind : Text) : List BulkCall :=
  let lc := M.lifecycle kind
  let calibrated := if 2 ≤ M.calibrationEnabled then M.calibratedThreshold kind else none
  match calibrated with
  | none => [M.promoteKind kind lc.promoteUseCount lc.promoteConfidence]
  | some threshold =>
    if M.calibrationEnabled = 2 then
      [M.promoteKindSlot kind lc.promoteUseCount threshold true,
        M.promoteKindSlot kind lc.promoteUseCount lc.promoteConfidence false]
    else [M.promoteKind kind lc.promoteUseCount threshold]

/-- `memory_promote`. -/
def memoryPromote (s : Store) : Store × ℤ := runBulk ((M.kindsInTier s .L1).flatMap (promoteCalls M)) s

/-- So many days ago, as db2 is told. -/
def daysAgo (days : ℤ) : Text := text "-" ++ printInt days

/-- The demotion of a kind. -/
def demoteCall (kind : Text) : BulkCall :=
  let lc := M.lifecycle kind
  M.demoteKind kind lc.demoteConfidence (daysAgo (ScoreArith.trunc (lc.demoteDays * lc.demotionResistance)))

/-- `memory_demote`. -/
def memoryDemote (s : Store) : Store × ℤ :=
  let done := runBulk ((M.kindsInTier s .L2).map (demoteCall M)) s
  if 0 < done.2 then (M.demoteCascade done.1, done.2) else done

/-- The memories that the errors mention, each once. -/
def matchedIds (s : Store) : List ℤ :=
  (M.recentErrors.getD []).foldl (fun ids error =>
    let lowered := (error.take (M.errorSize - 1)).map tolower
    if lowered = [] then ids
    else (M.matchErrorKeys s lowered).foldl (fun ids id => if id ∈ ids then ids else ids ++ [id]) ids) []

/-- `memory_demote_from_failures`. -/
def memoryDemoteFromFailures (s : Store) : Store × ℤ := runBulk ((matchedIds M s).map M.demoteId) s

/-- The expiry of a kind. -/
def expireCall (kind : Text) : BulkCall := fun s =>
  let days := daysAgo (M.lifecycle kind).expireDays
  M.deleteStaleL1 kind days (M.deleteStaleL1Provenance kind days s)

/-- `memory_expire`. -/
def memoryExpire (s : Store) : Store × ℤ :=
  let cleared := M.deleteL0 (M.deleteL0Provenance s)
  let done := runBulk ((M.kindsInTier cleared.1 .L1).map (expireCall M)) cleared.1
  (done.1, cleared.2 + done.2)

/-- `memory_enforce_retention`. -/
def memoryEnforceRetention (s : Store) : Store × ℤ :=
  runBulk [M.deleteBySensitivity .restricted M.retentionRestrictedDays,
    M.deleteBySensitivity .sensitive M.retentionSensitiveDays] s

/-- A writer as a bulk call. -/
def counted (done : Store × ℕ) : Store × ℤ := (done.1, done.2)

/-- A pass whose count is added where it is positive. -/
def atLeastZero (done : Store × ℤ) : Store × ℤ := (done.1, max done.2 0)

/-- The passes of a cycle. -/
inductive Pass where
  | promote
  | delegations
  | failures
  | chains
  | stable
  | patterns
  | conventions
  | demote
  | demoteFromFailures
  | demoteLowEffectiveness
  | expire
  | enforceRetention
  deriving DecidableEq, Repr

/-- A pass, with the number that it adds to the report. -/
def runPass : Pass → BulkCall
  | .promote => memoryPromote M
  | .delegations => fun s => counted (memoryPromoteDelegationPatterns M.toWriterEnv s)
  | .failures => fun s => counted (memorySynthesizeFailureEpisodes M.toWriterEnv s)
  | .chains => fun s => counted (memoryConsolidateL1Chains M.toWriterEnv s)
  | .stable => fun s => atLeastZero (M.promoteStableL2ToL3 s)
  | .patterns => fun s =>
    let done := memorySynthesizeL5Patterns M.toWriterEnv s
    (done.1, done.2.getD 0)
  | .conventions => fun s => atLeastZero (M.extractConventionCandidates s)
  | .demote => memoryDemote M
  | .demoteFromFailures => memoryDemoteFromFailures M
  | .demoteLowEffectiveness => M.demoteLowEffectiveness
  | .expire => memoryExpire M
  | .enforceRetention => memoryEnforceRetention M

/-- Passes one after the other. -/
def runPasses (passes : List Pass) (s : Store) : Store × ℤ := runBulk (passes.map (runPass M)) s

def promotionPasses : List Pass := [.promote, .delegations, .failures, .chains, .stable, .patterns, .conventions]

def demotionPasses : List Pass := [.demote, .demoteFromFailures, .demoteLowEffectiveness]

def expiryPasses : List Pass := [.expire, .enforceRetention]

/-- What `memory_run_maintenance` reports. -/
structure Cycle where
  store : Store
  promoted : ℤ
  demoted : ℤ
  expired : ℤ

/-- `memory_run_maintenance`. -/
def memoryRunMaintenance (s : Store) : Cycle :=
  let promotions := runPasses M promotionPasses s
  let demotions := runPasses M demotionPasses promotions.1
  let expiries := runPasses M expiryPasses demotions.1
  let embedded := if 0 < promotions.2 then M.embedUnembeddedL2 expiries.1 else expiries.1
  { store := M.closeCycle promotions.2 demotions.2 expiries.2 embedded
    promoted := promotions.2
    demoted := demotions.2
    expired := expiries.2 }

/-! ### Evidence -/

/-- What speaks for a memory. -/
structure Evidence where
  confidence : ℚ
  useCount : ℤ
  observationCount : ℤ
  evidenceStrength : ℚ
  deriving DecidableEq, Repr

def Row.evidence (r : Row) : Evidence := ⟨r.confidence, r.useCount, r.observationCount, r.evidenceStrength⟩

/-- The evidence of the memories. -/
def Store.evidence (s : Store) (i : ℤ) : Option Evidence := (s.rows.lookup i).map Row.evidence

/-- A row less its key and its validity, which a supersede changes. -/
def Row.standing (r : Row) : Row := { r with key := [], validFrom := none, validUntil := none }

/-- The rows above the scratch tier. -/
def Store.facts (s : Store) (i : ℤ) : Option Row :=
  ((s.rows.lookup i).filter fun r => r.tier ≠ .L0).map Row.standing

/-- No row is of the scratch tier. -/
def NoScratch (s : Store) : Prop := ∀ i r, s.rows.lookup i = some r → r.tier ≠ .L0

/-- What a row has been through: its uses, and then what its confidence has lost. -/
def Row.wear (r : Row) : ℤ ×ₗ ℚ := toLex (r.useCount, -r.confidence)

/-- No fact is gone or less worn, and the new ones are of now. -/
structure Wears (now : Text) (t u : Store) : Prop where
  row : ∀ {i r}, t.facts i = some r →
    ∃ r', u.facts i = some r' ∧ r.wear ≤ r'.wear ∧ (r.updatedAt = now → r'.updatedAt = now)
  new : ∀ {i r}, u.facts i = some r → t.facts i = none → r.updatedAt = now

/-- A fact is new, or more worn. -/
structure Marks (now : Text) (t u : Store) : Prop where
  wears : Wears now t u
  marked : ∃ i r', u.facts i = some r' ∧ ∀ r, t.facts i = some r → r.wear < r'.wear

/-- Rows are gone, none of them of now. -/
def Prunes (now : Text) (t u : Store) : Prop := ∀ i, u.rows.lookup i = t.rows.lookup i ∨
  u.rows.lookup i = none ∧ ∀ r, t.rows.lookup i = some r → r.updatedAt ≠ now

/-- A bulk update that removes no fact, stamps what it writes, and raises no confidence. -/
def WearsOnly (now : Text) (call : BulkCall) : Prop := ∀ t, Wears now t (call t).1

/-- What a cycle relies on. -/
structure MaintenanceEnv.Lawful (M : MaintenanceEnv) : Prop where
  db : M.db.Lawful
  promoteKind : ∀ kind useCount threshold, WearsOnly M.pf.nowUtc (M.promoteKind kind useCount threshold)
  promoteKindSlot : ∀ kind useCount threshold slot,
    WearsOnly M.pf.nowUtc (M.promoteKindSlot kind useCount threshold slot)
  stable : WearsOnly M.pf.nowUtc M.promoteStableL2ToL3
  conventions : WearsOnly M.pf.nowUtc M.extractConventionCandidates
  demoteKind : ∀ kind threshold days, WearsOnly M.pf.nowUtc (M.demoteKind kind threshold days)
  demoteCascade : ∀ t, Wears M.pf.nowUtc t (M.demoteCascade t)
  demoteId : ∀ id, WearsOnly M.pf.nowUtc (M.demoteId id)
  /-- A demotion of a row changes that row alone, and lowers its confidence. -/
  demoteIdOthers : ∀ id t i, i ≠ id → (M.demoteId id t).1.facts i = t.facts i
  demoteIdNone : ∀ id t, t.facts id = none → (M.demoteId id t).1.facts id = none
  demoteIdLowers : ∀ id t r r', t.facts id = some r → (M.demoteId id t).1.facts id = some r' →
    r'.useCount = r.useCount ∧ r'.confidence < r.confidence
  lowEffectiveness : WearsOnly M.pf.nowUtc M.demoteLowEffectiveness
  clear : ∀ t i, (M.deleteL0 (M.deleteL0Provenance t)).1.rows.lookup i =
    (t.rows.lookup i).filter fun r => r.tier ≠ .L0
  /-- What expires is older than the cycle. -/
  expire : ∀ kind t, Prunes M.pf.nowUtc t (expireCall M kind t).1
  retention : ∀ label days t, Prunes M.pf.nowUtc t (M.deleteBySensitivity label days t).1
  embed : ∀ t, (M.embedUnembeddedL2 t).rows = t.rows
  closeCycle : ∀ p d e t, (M.closeCycle p d e t).rows = t.rows

/-- A pass that keeps the facts of a store, whatever else is in the scratch tier. -/
def KeepsFacts (s : Store) (call : BulkCall) : Prop := ∀ t : Store, t.facts = s.facts → (call t).1.facts = s.facts

/-- The bulk updates of db2 find nothing more to do in a store: they are idempotent, and have been run. -/
structure Settled (M : MaintenanceEnv) (s : Store) : Prop where
  promote : ∀ t : Store, t.facts = s.facts → ∀ call ∈ (M.kindsInTier t .L1).flatMap (promoteCalls M), KeepsFacts s call
  stable : KeepsFacts s M.promoteStableL2ToL3
  conventions : KeepsFacts s M.extractConventionCandidates
  demote : ∀ t : Store, t.facts = s.facts → ∀ kind ∈ M.kindsInTier t .L2, KeepsFacts s (demoteCall M kind) ∧
    ∀ u : Store, u.facts = s.facts → (demoteCall M kind u).2 = 0
  lowEffectiveness : KeepsFacts s M.demoteLowEffectiveness
  expire : ∀ t : Store, t.facts = s.facts → ∀ kind ∈ M.kindsInTier t .L1, KeepsFacts s (expireCall M kind)
  retention : ∀ label days, KeepsFacts s (M.deleteBySensitivity label days)

/-- An insert that reaches no row above the scratch tier: it is refused, or lands in that tier. -/
def Misses (env : WriterEnv) (t : Store) (a : InsertArgs) : Prop :=
  ∀ u place, landing env.pf env.db (t.room + 1) t a = some (u, place) → place.row.tier = .L0

/-- A pass that stores nothing above the scratch tier, and finds no error that mentions a fact. -/
def quietPass (M : MaintenanceEnv) : Pass → Store → Prop
  | .delegations, t => Meets (fun u a => (memoryInsert M.toWriterEnv true u a).store) (fun _ => Misses M.toWriterEnv)
    t (delegationFacts M.toWriterEnv)
  | .failures, t => Meets (synthesizeFailure M.toWriterEnv) (fun _ done f =>
      M.keyExists done.1 (failureArgs M.toWriterEnv f).key ∨ Misses M.toWriterEnv done.1 (failureArgs M.toWriterEnv f))
    (t, 0) (M.failureSeeds.getD [])
  | .chains, t => Meets (consolidateSession M.toWriterEnv) (fun _ done sessionId =>
      ∀ a, milestoneArgs M.toWriterEnv done.1 sessionId = some a → Misses M.toWriterEnv done.1 a)
    (t, 0) (M.l1SessionClusters t (text "workflow_learning") 5)
  | .patterns, t => ∀ candidates, M.l5PatternCandidates t = some candidates →
    Meets (synthesizePattern M.toWriterEnv) (fun _ done c =>
      c.srcKey = [] ∨ c.srcContent = [] ∨ Misses M.toWriterEnv done.1 (l5Args c)) (t, 0) candidates
  | .demoteFromFailures, t => Meets (fun u id => (M.demoteId id u).1) (fun _ u id => u.facts id = none) t (matchedIds M t)
  | .promote, _ | .stable, _ | .conventions, _ | .demote, _ | .demoteLowEffectiveness, _ | .expire, _
  | .enforceRetention, _ => True

/-- A cycle that stores and demotes nothing above the scratch tier. -/
def Quiet (M : MaintenanceEnv) (s : Store) : Prop :=
  Meets (fun t pass => (runPass M pass t).1) (fun _ t pass => quietPass M pass t) s (promotionPasses ++ demotionPasses)

variable {M}

section Facts

variable {env : WriterEnv} {s t u : Store} {a : InsertArgs} {i : ℤ} {r : Row} {now : Text}

theorem facts_eq_some : s.facts i = some r ↔ ∃ old, s.rows.lookup i = some old ∧ old.tier ≠ .L0 ∧ old.standing = r := by
  cases h : s.rows.lookup i <;> simp [Store.facts, h, Option.filter_eq_some_iff]

theorem facts_eq_none : s.facts i = none ↔ ∀ r, s.rows.lookup i = some r → r.tier = .L0 := by
  cases h : s.rows.lookup i <;> simp [Store.facts, h, Option.filter_eq_none_iff]

theorem facts_of_rows (h : t.rows = s.rows) : t.facts = s.facts := by
  funext i
  rw [Store.facts, Store.facts, h]

/-- A supersede that renames rows changes no fact. -/
theorem Moved.facts (h : Moved s t) : t.facts = s.facts := by
  funext i
  cases hs : s.rows.lookup i with
  | none => rw [Store.facts, Store.facts, hs, h.none hs]
  | some r =>
    obtain ⟨r', hr', hmoved⟩ := h.rows hs
    have hfact := hmoved.fact
    have htier : r'.tier = r.tier := by rw [hfact]
    have hstanding : r'.standing = r.standing := by rw [hfact]; rfl
    rw [Store.facts, Store.facts, hs, hr']
    by_cases hscratch : r.tier = .L0
    · simp [Option.filter, htier, hscratch]
    · simp [Option.filter, htier, hscratch, hstanding]

/-- Without a scratch row, the facts have all the evidence. -/
theorem NoScratch.evidence (h : NoScratch s) (i : ℤ) : s.evidence i = (s.facts i).map Row.evidence := by
  unfold Store.facts Store.evidence
  cases hrow : s.rows.lookup i with
  | none => rfl
  | some r => simp [Option.filter, h i r hrow, Row.standing, Row.evidence]

theorem marking (now : Text) : Marking (Wears now) (Marks now) := by
  have htrans {a b c : Store} (hab : Wears now a b) (hbc : Wears now b c) : Wears now a c := by
    refine ⟨fun hr => ?_, fun {i r} hr hnone => ?_⟩
    · obtain ⟨r', hr', hle, hnow⟩ := hab.row hr
      obtain ⟨r'', hr'', hle', hnow'⟩ := hbc.row hr'
      exact ⟨r'', hr'', hle.trans hle', fun h => hnow' (hnow h)⟩
    · cases hb : b.facts i with
      | none => exact hbc.new hr hb
      | some r₀ =>
        obtain ⟨r', hr', -, hnow⟩ := hbc.row hb
        obtain rfl := Option.some.inj (hr'.symm.trans hr)
        exact hnow (hab.new hb hnone)
  refine ⟨fun a => ⟨fun hr => ⟨_, hr, le_rfl, id⟩, fun hr hnone => absurd (hnone.symm.trans hr) (by simp)⟩, htrans,
    fun {a b c} hab hbc => ⟨htrans hab hbc.wears, ?_⟩, fun {a b c} hab hbc => ⟨htrans hab.wears hbc, ?_⟩⟩
  · obtain ⟨i, r', hr', hlt⟩ := hbc.marked
    refine ⟨i, r', hr', fun r hr => ?_⟩
    obtain ⟨r₀, hr₀, hle, -⟩ := hab.row hr
    exact hle.trans_lt (hlt r₀ hr₀)
  · obtain ⟨i, r', hr', hlt⟩ := hab.marked
    obtain ⟨r'', hr'', hle, -⟩ := hbc.row hr'
    exact ⟨i, r'', hr'', fun r hr => (hlt r hr).trans_le hle⟩

theorem wears_of_facts (h : u.facts = t.facts) : Wears now t u := by
  have hrefl := (marking now).refl t
  exact ⟨fun hr => hrefl.row hr |>.imp fun r' hr' => ⟨h ▸ hr'.1, hr'.2⟩, fun hr => hrefl.new (h ▸ hr)⟩

/-! ### Inserts -/

/-- A placement is one of a new row, or wears the row that it goes to. -/
theorem placement_wears (h : env.db.Lawful) (u : Store) (b : InsertArgs) (p : Prepared) :
    (∀ old, u.rows.lookup (placement env.pf env.db u b p).id = some old →
      (placement env.pf env.db u b p).row.tier = old.tier ∧ old.wear < (placement env.pf env.db u b p).row.wear) ∧
    (placement env.pf env.db u b p).row.updatedAt = env.pf.nowUtc := by
  rw [placement]
  cases hplace : mergePlacement env.pf env.db u b p with
  | none => exact ⟨fun old hold => absurd ((h.newId_fresh u).symm.trans hold) (by simp), rfl⟩
  | some place =>
    obtain ⟨id, old, content, bonus, details, hold, -, -, rfl⟩ := mergePlacement_spec h hplace
    refine ⟨fun r hr => ?_, rfl⟩
    obtain rfl : old = r := Option.some.inj (hold.symm.trans hr)
    exact ⟨rfl, Prod.Lex.toLex_lt_toLex.2 (.inl (Int.lt_succ old.useCount))⟩

/-- The facts after an insert that lands. -/
theorem facts_landed {out : Bool} {place : Placement} {r : Outcome} (h : Landed env.db out t u place r) (i : ℤ) :
    r.store.facts i = if i = place.id then if place.row.tier = .L0 then none else some place.row.standing
      else u.facts i := by
  split_ifs with hi hscratch
  · subst hi
    obtain ⟨v, hv⟩ := h.row
    simp [Store.facts, hv, Option.filter, hscratch]
  · subst hi
    obtain ⟨v, hv⟩ := h.row
    simp [Store.facts, hv, Option.filter, hscratch, Row.standing]
  · rw [Store.facts, h.others i hi]
    rfl

section Landed

variable {out : Bool} {b : InsertArgs} {p : Prepared} {r : Outcome}
  (h : env.db.Lawful) (hlanded : Landed env.db out t u (placement env.pf env.db u b p) r)
include h hlanded

/-- An insert that lands in the scratch tier changes no fact. -/
theorem facts_of_landed_scratch (hscratch : (placement env.pf env.db u b p).row.tier = .L0) :
    r.store.facts = u.facts := by
  funext i
  rw [facts_landed hlanded, if_pos hscratch]
  split_ifs with hi
  · subst hi
    have hrows := (placement_wears h u b p).1
    exact (facts_eq_none.2 fun old hold => (hrows old hold).1 ▸ hscratch).symm
  · rfl

/-- An insert that lands above it makes a new fact, or wears one. -/
theorem marks_of_landed (hfact : (placement env.pf env.db u b p).row.tier ≠ .L0) :
    Marks env.pf.nowUtc u r.store := by
  obtain ⟨hold, hnow⟩ := placement_wears h u b p
  have hfacts := facts_landed hlanded
  refine ⟨⟨fun {i r₀} hr => ?_, fun {i r₀} hr hnone => ?_⟩, (placement env.pf env.db u b p).id,
    (placement env.pf env.db u b p).row.standing, ?_, fun r₀ hr => ?_⟩
  · rw [hfacts]
    split_ifs with hi
    · subst hi
      obtain ⟨old, hrow, -, rfl⟩ := facts_eq_some.1 hr
      exact ⟨_, rfl, (hold old hrow).2.le, fun _ => hnow⟩
    · exact ⟨r₀, hr, le_rfl, id⟩
  · rw [hfacts] at hr
    split_ifs at hr with hi
    · obtain rfl := Option.some.inj hr
      exact hnow
    · exact absurd (hnone.symm.trans hr) (by simp)
  · rw [hfacts, if_pos rfl, if_neg hfact]
  · obtain ⟨old, hrow, -, rfl⟩ := facts_eq_some.1 hr
    exact (hold old hrow).2

end Landed

/-- A move in a cycle that has begun with the facts of `s`. -/
abbrev DecidedFrom (now : Text) (s t u : Store) (condition : Prop) : Prop :=
  Decided (fun v : Store => v.facts = s.facts) (Wears now) (Marks now) t u condition

/-- A step that keeps the facts, and whose condition holds. -/
theorem decidedFrom_of_facts (hfacts : u.facts = t.facts) {condition : Prop} (hq : condition) :
    DecidedFrom now s t u condition :=
  ⟨fun hs _ => hfacts.trans hs, wears_of_facts hfacts, fun hnot => absurd hq hnot⟩

/-- **An insert is decided by where it lands**: in the scratch tier it changes no fact, and above it it leaves a mark. -/
theorem decided_insert (h : env.db.Lawful) (out : Bool) (t : Store) (a : InsertArgs) :
    DecidedFrom env.pf.nowUtc s t (memoryInsert env out t a).store (Misses env t a) := by
  rcases memoryInsertEx_spec h (memoryInsert_spec h out t a) with ⟨hnone, hr⟩ | ⟨u, place, hland, hlanded⟩
  · refine decidedFrom_of_facts ?_ fun u place hland => absurd (hnone.symm.trans hland) (by simp)
    rw [hr]
    exact (residue_moved (t.room + 1) t a).facts
  · obtain ⟨hmoved, -, v, b, p, -, rfl, -⟩ := landing_spec hland
    by_cases hscratch : (placement env.pf env.db u b p).row.tier = .L0
    · refine decidedFrom_of_facts ((facts_of_landed_scratch h hlanded hscratch).trans hmoved.facts) ?_
      intro u' place hland'
      obtain ⟨rfl, rfl⟩ := Prod.mk.inj (Option.some.inj (hland.symm.trans hland'))
      exact hscratch
    · have hmarks : Marks env.pf.nowUtc t (memoryInsert env out t a).store :=
        (marking _).before (wears_of_facts hmoved.facts) (marks_of_landed h hlanded hscratch)
      exact ⟨fun _ hmisses => absurd (hmisses u _ hland) hscratch, hmarks.wears, fun _ => hmarks⟩

/-- What is written beside the rows after a move does not matter. -/
theorem decidedFrom_attempt (h : env.db.Lawful) {condition : Prop} (hd : DecidedFrom now s t u condition) {w : Write}
    (hw : ∀ v : Store, (v.apply w).rows = v.rows) : DecidedFrom now s t (env.db.attempt u w) condition := by
  have hfacts : (env.db.attempt u w).facts = u.facts := by
    rw [h.attempt_eq]
    split_ifs
    · exact facts_of_rows (hw u)
    · rfl
  exact ⟨fun hs hq => hfacts.trans (hd.keeps hs hq), (marking now).trans hd.moves (wears_of_facts hfacts),
    fun hq => (marking now).after (hd.marks hq) (wears_of_facts hfacts)⟩

end Facts

/-! ### The writers -/

section Writers

variable {env : WriterEnv} {s : Store} (h : env.db.Lawful)
include h

theorem decided_synthesizeFailure (done : Store × ℕ) (f : FailureSeed) :
    DecidedFrom env.pf.nowUtc s done.1 (synthesizeFailure env done f).1
      (env.keyExists done.1 (failureArgs env f).key ∨ Misses env done.1 (failureArgs env f)) := by
  unfold synthesizeFailure
  split_ifs with hexists
  · exact decidedFrom_of_facts rfl (.inl hexists)
  · exact (decided_insert h true done.1 _).congr (by simp [hexists])

theorem decided_consolidateSession (done : Store × ℕ) (sessionId : Text) :
    DecidedFrom env.pf.nowUtc s done.1 (consolidateSession env done sessionId).1
      (∀ a, milestoneArgs env done.1 sessionId = some a → Misses env done.1 a) := by
  unfold consolidateSession
  cases hargs : milestoneArgs env done.1 sessionId with
  | none => exact decidedFrom_of_facts rfl (by simp)
  | some a =>
    have hinsert : DecidedFrom env.pf.nowUtc s done.1 (memoryInsert env true done.1 a).store
        (∀ b, some a = some b → Misses env done.1 b) :=
      (decided_insert h true done.1 a).congr (by simp)
    simp only
    split_ifs
    · exact decidedFrom_attempt h hinsert fun _ => rfl
    · exact hinsert

theorem decided_synthesizePattern (done : Store × ℕ) (c : L5Candidate) :
    DecidedFrom env.pf.nowUtc s done.1 (synthesizePattern env done c).1
      (c.srcKey = [] ∨ c.srcContent = [] ∨ Misses env done.1 (l5Args c)) := by
  unfold synthesizePattern
  split_ifs with hempty
  · exact decidedFrom_of_facts rfl (by tauto)
  · have hinsert : DecidedFrom env.pf.nowUtc s done.1 (memoryInsert env true done.1 (l5Args c)).store
        (c.srcKey = [] ∨ c.srcContent = [] ∨ Misses env done.1 (l5Args c)) :=
      (decided_insert h true done.1 _).congr (by tauto)
    simp only
    split_ifs
    · exact decidedFrom_attempt h hinsert fun _ => rfl
    · exact hinsert

omit h in
/-- A writer that counts what it stores. -/
theorem decided_counted {now : Text} {ι : Type*} {step : Store × ℕ → ι → Store × ℕ} {ok : Store × ℕ → ι → Prop}
    (hstep : ∀ done i, DecidedFrom now s done.1 (step done i).1 (ok done i)) (t : Store) (is : List ι) :
    DecidedFrom now s t (run step (t, 0) is).1 (Meets step (fun _ => ok) (t, 0) is) := by
  have hrun : Decided (fun done : Store × ℕ => done.1.facts = s.facts) (fun a b => Wears now a.1 b.1)
      (fun a b => Marks now a.1 b.1) (t, 0) (run step (t, 0) is) (Meets step (fun _ => ok) (t, 0) is) :=
    decided_run ((marking now).comap Prod.fst) is
      (fun done i _ => ⟨(hstep done i).keeps, (hstep done i).moves, (hstep done i).marks⟩) (t, 0)
  exact ⟨hrun.keeps, hrun.moves, hrun.marks⟩

end Writers

/-! ### The passes -/

section Passes

variable {s t : Store} {calls : List BulkCall} {now : Text}

theorem keepsFacts_runBulk (h : ∀ call ∈ calls, KeepsFacts s call) : KeepsFacts s (runBulk calls) := fun _ ht =>
  List.foldlRecOn calls _ (motive := fun done : Store × ℤ => done.1.facts = s.facts) ht
    fun done hdone call hcall => h call hcall done.1 hdone

theorem wearsOnly_runBulk (h : ∀ call ∈ calls, WearsOnly now call) : WearsOnly now (runBulk calls) := fun t =>
  List.foldlRecOn calls _ (motive := fun done : Store × ℤ => Wears now t done.1) ((marking now).refl t)
    fun done hdone call hcall => (marking now).trans hdone (h call hcall done.1)

/-- A bulk update that has nothing to do keeps the facts whatever the cycle does before it. -/
theorem decided_bulk {call : BulkCall} (hkeeps : KeepsFacts s call) (hwears : WearsOnly now call) (t : Store) :
    DecidedFrom now s t (call t).1 True :=
  ⟨fun hs _ => hkeeps t hs, hwears t, fun hnot => absurd trivial hnot⟩

theorem keepsFacts_promote (h : Settled M s) : KeepsFacts s (memoryPromote M) := fun t ht =>
  keepsFacts_runBulk (h.promote t ht) t ht

theorem wearsOnly_promote (hM : M.Lawful) : WearsOnly M.pf.nowUtc (memoryPromote M) := by
  refine fun t => wearsOnly_runBulk (fun call hcall => ?_) t
  obtain ⟨kind, -, hcall⟩ := List.mem_flatMap.1 hcall
  simp only [promoteCalls] at hcall
  split at hcall
  · obtain rfl := List.mem_singleton.1 hcall
    exact hM.promoteKind _ _ _
  · split_ifs at hcall
    · simp only [List.mem_cons, List.not_mem_nil, or_false] at hcall
      rcases hcall with rfl | rfl
      · exact hM.promoteKindSlot _ _ _ _
      · exact hM.promoteKindSlot _ _ _ _
    · obtain rfl := List.mem_singleton.1 hcall
      exact hM.promoteKind _ _ _

theorem keepsFacts_demote (h : Settled M s) : KeepsFacts s (memoryDemote M) := by
  intro t ht
  have hidle : (runBulk ((M.kindsInTier t .L2).map (demoteCall M)) t).1.facts = s.facts ∧
      (runBulk ((M.kindsInTier t .L2).map (demoteCall M)) t).2 = 0 := by
    refine List.foldlRecOn _ _ (motive := fun done : Store × ℤ => done.1.facts = s.facts ∧ done.2 = 0) ⟨ht, rfl⟩
      fun done hdone call hcall => ?_
    obtain ⟨kind, hkind, rfl⟩ := List.mem_map.1 hcall
    obtain ⟨hkeeps, hcount⟩ := h.demote t ht kind hkind
    exact ⟨hkeeps done.1 hdone.1, by rw [hdone.2, hcount done.1 hdone.1, add_zero]⟩
  -- nothing is demoted, so that there is no cascade
  rw [memoryDemote, if_neg (by rw [hidle.2]; exact lt_irrefl 0)]
  exact hidle.1

theorem wearsOnly_demote (hM : M.Lawful) : WearsOnly M.pf.nowUtc (memoryDemote M) := by
  intro t
  have hkinds : Wears M.pf.nowUtc t (runBulk ((M.kindsInTier t .L2).map (demoteCall M)) t).1 := by
    refine wearsOnly_runBulk (fun call hcall => ?_) t
    obtain ⟨kind, -, rfl⟩ := List.mem_map.1 hcall
    exact hM.demoteKind _ _ _
  simp only [memoryDemote]
  split_ifs
  · exact (marking _).trans hkinds (hM.demoteCascade _)
  · exact hkinds

/-- The demotion of an error's row is decided by whether the row is a fact. -/
theorem decided_demoteId (hM : M.Lawful) (t : Store) (id : ℤ) :
    DecidedFrom M.pf.nowUtc s t (M.demoteId id t).1 (t.facts id = none) := by
  refine ⟨fun hs hnone => ?_, hM.demoteId id t, fun hfact => ?_⟩
  · rw [← hs]
    funext i
    by_cases hi : i = id
    · rw [hi, hM.demoteIdNone id t hnone, hnone]
    · exact hM.demoteIdOthers id t i hi
  · obtain ⟨r, hr⟩ := Option.ne_none_iff_exists'.1 hfact
    obtain ⟨r', hr', -⟩ := (hM.demoteId id t).row hr
    obtain ⟨huse, hconfidence⟩ := hM.demoteIdLowers id t r r' hr hr'
    refine ⟨hM.demoteId id t, id, r', hr', fun r₀ hr₀ => ?_⟩
    obtain rfl := Option.some.inj (hr.symm.trans hr₀)
    exact Prod.Lex.toLex_lt_toLex.2 (.inr ⟨huse.symm, neg_lt_neg hconfidence⟩)

theorem runBulk_store {ι : Type*} (f : ι → BulkCall) (is : List ι) (s : Store) :
    (runBulk (is.map f) s).1 = run (fun t i => (f i t).1) s is := by
  suffices h : ∀ n, (((is.map f).foldl (fun done call => ((call done.1).1, done.2 + (call done.1).2)) (s, n)).1) =
      run (fun t i => (f i t).1) s is from h 0
  induction is generalizing s with
  | nil => exact fun n => rfl
  | cons i is ih => exact fun n => ih _ _

/-- **A pass is decided by whether it is quiet.** -/
theorem decided_pass (hM : M.Lawful) (hsettled : Settled M s) (t : Store) :
    ∀ pass ∈ promotionPasses ++ demotionPasses,
      DecidedFrom M.pf.nowUtc s t (runPass M pass t).1 (quietPass M pass t) := by
  intro pass hpass
  cases pass with
  | promote => exact decided_bulk (keepsFacts_promote hsettled) (wearsOnly_promote hM) t
  | delegations => exact decided_run (marking _) _ (fun u a _ => decided_insert hM.db true u a) t
  | failures => exact decided_counted (decided_synthesizeFailure hM.db) t _
  | chains => exact decided_counted (decided_consolidateSession hM.db) t _
  | stable => exact decided_bulk hsettled.stable hM.stable t
  | patterns =>
    simp only [runPass, memorySynthesizeL5Patterns, quietPass]
    cases hcandidates : M.l5PatternCandidates t with
    | none => exact decidedFrom_of_facts rfl (by simp)
    | some candidates =>
      exact (decided_counted (decided_synthesizePattern hM.db) t candidates).congr (by simp)
  | conventions => exact decided_bulk hsettled.conventions hM.conventions t
  | demote => exact decided_bulk (keepsFacts_demote hsettled) (wearsOnly_demote hM) t
  | demoteFromFailures =>
    have hrun := decided_run (marking _) (matchedIds M t) (fun u id _ => decided_demoteId (s := s) hM u id) t
    rwa [← runBulk_store M.demoteId] at hrun
  | demoteLowEffectiveness => exact decided_bulk hsettled.lowEffectiveness hM.lowEffectiveness t
  | expire => simp [promotionPasses, demotionPasses] at hpass
  | enforceRetention => simp [promotionPasses, demotionPasses] at hpass

/-! ### Two cycles -/

theorem Prunes.refl (t : Store) : Prunes now t t := fun _ => .inl rfl

theorem Prunes.trans {u v : Store} (h : Prunes now t u) (h' : Prunes now u v) : Prunes now t v := by
  intro i
  rcases h i with heq | ⟨hnone, hold⟩
  · rw [← heq]
    exact h' i
  · rcases h' i with heq' | ⟨hnone', -⟩
    · exact .inr ⟨heq'.trans hnone, hold⟩
    · exact .inr ⟨hnone', hold⟩

theorem prunes_runBulk (h : ∀ call ∈ calls, ∀ t, Prunes now t (call t).1) (t : Store) : Prunes now t (runBulk calls t).1 :=
  List.foldlRecOn calls _ (motive := fun done : Store × ℤ => Prunes now t done.1) (Prunes.refl t)
    fun done hdone call hcall => hdone.trans (h call hcall done.1)

/-- The store without its scratch rows. -/
def cleared (M : MaintenanceEnv) (t : Store) : Store := (M.deleteL0 (M.deleteL0Provenance t)).1

theorem cleared_facts (hM : M.Lawful) (t : Store) : (cleared M t).facts = t.facts := by
  funext i
  rw [cleared, Store.facts, hM.clear, Store.facts, Option.filter_filter]
  simp

/-- What the last passes of a cycle remove. -/
theorem expiry_prunes (hM : M.Lawful) (t : Store) :
    Prunes M.pf.nowUtc (cleared M t) (runPasses M expiryPasses t).1 := by
  have hexpire : Prunes M.pf.nowUtc (cleared M t) (memoryExpire M t).1 := by
    refine prunes_runBulk (fun call hcall => ?_) (cleared M t)
    obtain ⟨kind, -, rfl⟩ := List.mem_map.1 hcall
    exact hM.expire kind
  refine hexpire.trans (prunes_runBulk (fun call hcall => ?_) _)
  simp only [List.mem_cons, List.not_mem_nil, or_false] at hcall
  rcases hcall with rfl | rfl
  · exact hM.retention _ _
  · exact hM.retention _ _

theorem expiry_keeps (hM : M.Lawful) (hsettled : Settled M s) : KeepsFacts s (runPasses M expiryPasses) := by
  intro t ht
  have hcleared : (cleared M t).facts = s.facts := (cleared_facts hM t).trans ht
  have hexpire : (memoryExpire M t).1.facts = s.facts := by
    refine keepsFacts_runBulk (fun call hcall => ?_) (cleared M t) hcleared
    obtain ⟨kind, hkind, rfl⟩ := List.mem_map.1 hcall
    exact hsettled.expire _ hcleared kind hkind
  refine keepsFacts_runBulk (fun call hcall => ?_) (memoryExpire M t).1 hexpire
  simp only [List.mem_cons, List.not_mem_nil, or_false] at hcall
  rcases hcall with rfl | rfl
  · exact hsettled.retention _ _
  · exact hsettled.retention _ _

/-- The rows at the end of a cycle. -/
theorem memoryRunMaintenance_rows (hM : M.Lawful) (s : Store) : (memoryRunMaintenance M s).store.rows =
    (runPasses M expiryPasses
      (run (fun t pass => (runPass M pass t).1) s (promotionPasses ++ demotionPasses))).1.rows := by
  have hpasses : run (fun t pass => (runPass M pass t).1) s (promotionPasses ++ demotionPasses) =
      (runPasses M demotionPasses (runPasses M promotionPasses s).1).1 := by
    rw [runPasses, runPasses, runBulk_store, runBulk_store]
    exact List.foldl_append
  rw [hpasses, memoryRunMaintenance]
  simp only [hM.closeCycle]
  split_ifs
  · exact hM.embed _
  · rfl

/-- A cycle leaves no scratch row. -/
theorem memoryRunMaintenance_noScratch (hM : M.Lawful) (s : Store) : NoScratch (memoryRunMaintenance M s).store := by
  intro i r hr
  rw [memoryRunMaintenance_rows hM] at hr
  rcases expiry_prunes hM _ i with heq | ⟨hnone, -⟩
  · rw [heq, cleared, hM.clear, Option.filter_eq_some_iff] at hr
    simpa using hr.2
  · exact absurd (hnone.symm.trans hr) (by simp)

/-- A mark is seen in the evidence, whatever is removed after it. -/
theorem evidence_ne_of_marks {u v : Store} (hs : NoScratch s) (hv : NoScratch v) (hmarks : Marks now s t)
    (hu : u.facts = t.facts) (hprunes : Prunes now u v) : v.evidence ≠ s.evidence := by
  obtain ⟨i, r', hr', hlt⟩ := hmarks.marked
  rw [← hu] at hr'
  intro heq
  have hevidence : (v.facts i).map Row.evidence = (s.facts i).map Row.evidence := by
    rw [← hv.evidence, ← hs.evidence, heq]
  have hkept : v.facts i = some r' ∨ v.facts i = none ∧ r'.updatedAt ≠ now := by
    obtain ⟨old, hold, hscratch, rfl⟩ := facts_eq_some.1 hr'
    rcases hprunes i with hsame | ⟨hnone, hnow⟩
    · exact .inl (facts_eq_some.2 ⟨old, hsame.trans hold, hscratch, rfl⟩)
    · exact .inr ⟨facts_eq_none.2 fun r hr => absurd (hnone.symm.trans hr) (by simp), hnow old hold⟩
  cases hrow : s.facts i with
  | none =>
    rcases hkept with hkept | ⟨-, hnow⟩
    · rw [hkept, hrow] at hevidence
      exact absurd hevidence (by simp)
    · exact hnow (hmarks.wears.new (hu ▸ hr') hrow)
  | some r =>
    rcases hkept with hkept | ⟨hkept, -⟩
    · rw [hkept, hrow, Option.map_some, Option.map_some, Option.some.injEq] at hevidence
      have hwear : r'.wear = r.wear := by
        rw [Row.wear, Row.wear, show r'.useCount = r.useCount from congrArg Evidence.useCount hevidence,
          show r'.confidence = r.confidence from congrArg Evidence.confidence hevidence]
      exact absurd (hlt r hrow) (hwear ▸ lt_irrefl _)
    · rw [hkept, hrow] at hevidence
      exact absurd hevidence (by simp)

end Passes

/-! ### A delegation that succeeds, and an error that stays -/

/-- The store without its scratch rows. -/
def Store.withoutScratch (s : Store) : Store :=
  { s with rows := ⟨s.rows.entries.filter fun e => e.2.tier ≠ .L0, s.rows.nodupKeys.sublist List.filter_sublist⟩ }

theorem Store.lookup_withoutScratch (s : Store) (i : ℤ) :
    s.withoutScratch.rows.lookup i = (s.rows.lookup i).filter fun r => r.tier ≠ .L0 := by
  ext r
  rw [Option.filter_eq_some_iff, ← Option.mem_def, AList.mem_lookup_iff, ← Option.mem_def, AList.mem_lookup_iff]
  exact List.mem_filter

/-- A row with a tenth less of confidence. -/
def Row.demoted (r : Row) : Row := { r with confidence := r.confidence - 1 / 10 }

/-- A cycle with this agent log, in which db2 promotes nothing and lets nothing expire. -/
def logMaintenance (patterns : List DelegationPattern) (errors : List Text) : MaintenanceEnv where
  toWriterEnv := { bareWriters with delegationPatterns := some patterns }
  kindsInTier _ _ := []
  lifecycle _ := ⟨3, 9 / 10, 3 / 10, 60, 1, 30⟩
  calibrationEnabled := 0
  calibratedThreshold _ := none
  promoteKind _ _ _ s := (s, 0)
  promoteKindSlot _ _ _ _ s := (s, 0)
  promoteStableL2ToL3 s := (s, 0)
  extractConventionCandidates s := (s, 0)
  demoteKind _ _ _ s := (s, 0)
  demoteCascade s := s
  recentErrors := some errors
  errorSize := 512
  matchErrorKeys s error := (s.rows.entries.filter fun e => e.2.key <:+: error).map Sigma.fst
  demoteId id s := (s.update id Row.demoted, 1)
  demoteLowEffectiveness s := (s, 0)
  deleteL0Provenance s := s
  deleteL0 s := (s.withoutScratch, 0)
  deleteStaleL1Provenance _ _ s := s
  deleteStaleL1 _ _ s := (s, 0)
  retentionRestrictedDays := 30
  retentionSensitiveDays := 90
  deleteBySensitivity _ _ s := (s, 0)
  embedUnembeddedL2 s := s
  closeCycle _ _ _ s := s

theorem facts_demoted (s : Store) (id i : ℤ) :
    (s.update id Row.demoted).facts i = if i = id then (s.facts i).map Row.demoted else s.facts i := by
  rw [Store.facts, Store.lookup_update]
  split_ifs with hi
  · unfold Store.facts
    cases s.rows.lookup i with
    | none => rfl
    | some r => by_cases hscratch : r.tier = .L0 <;> simp [Option.filter, hscratch, Row.standing, Row.demoted]
  · rfl

theorem logMaintenance_lawful (patterns : List DelegationPattern) (errors : List Text) :
    (logMaintenance patterns errors).Lawful where
  db := openDb_lawful
  promoteKind _ _ _ t := (marking _).refl t
  promoteKindSlot _ _ _ _ t := (marking _).refl t
  stable t := (marking _).refl t
  conventions t := (marking _).refl t
  demoteKind _ _ _ t := (marking _).refl t
  demoteCascade t := (marking _).refl t
  demoteId id t := by
    refine ⟨fun {i r} hr => ?_, fun {i r} hr hnone => ?_⟩
    · simp only [logMaintenance, facts_demoted, hr]
      split_ifs
      · have hconfidence : -r.confidence ≤ -r.demoted.confidence := neg_le_neg (by simp [Row.demoted])
        exact ⟨_, rfl, Prod.Lex.toLex_le_toLex.2 (.inr ⟨rfl, hconfidence⟩), fun hnow => hnow⟩
      · exact ⟨r, rfl, le_rfl, fun hnow => hnow⟩
    · simp [logMaintenance, facts_demoted, hnone] at hr
  demoteIdOthers id t i hi := by simp only [logMaintenance, facts_demoted, if_neg hi]
  demoteIdNone id t hnone := by simp [logMaintenance, facts_demoted, hnone]
  demoteIdLowers id t r r' hr hr' := by
    simp only [logMaintenance, facts_demoted, hr, if_true, Option.map_some, Option.some.injEq] at hr'
    subst hr'
    exact ⟨rfl, by simp [Row.demoted]⟩
  lowEffectiveness t := (marking _).refl t
  clear t i := t.lookup_withoutScratch i
  expire _ t := Prunes.refl t
  retention _ _ t := Prunes.refl t
  embed _ := rfl
  closeCycle _ _ _ _ := rfl

theorem logMaintenance_settled (patterns : List DelegationPattern) (errors : List Text) (s : Store) :
    Settled (logMaintenance patterns errors) s where
  promote _ _ _ hcall := absurd hcall List.not_mem_nil
  stable _ ht := ht
  conventions _ ht := ht
  demote _ _ _ hkind := absurd hkind List.not_mem_nil
  lowEffectiveness _ ht := ht
  expire _ _ _ hkind := absurd hkind List.not_mem_nil
  retention _ _ _ ht := ht

/-- Three builds that were delegated and succeeded. -/
def buildPattern : DelegationPattern := ⟨text "builder", text "ada", 3, 0, 3, 4, 12, []⟩

/-- A cycle with a delegation that succeeds and an error that mentions the deployment. -/
def busyMaintenance : MaintenanceEnv := logMaintenance [buildPattern] [text "the deploy failed"]

/-- A store with a fact about the deployment. -/
def deployStore : Store := oneRowStore (factRow "deploy" "by make deploy" (8 / 10))

def busyCycle (s : Store) : Store := (memoryRunMaintenance busyMaintenance s).store

/-- A cycle with a delegation that succeeds once in three times. -/
def quietMaintenance : MaintenanceEnv := logMaintenance [⟨text "builder", text "ada", 1, 2, 3, 4, 12, []⟩] []

theorem quietMaintenance_quiet (s : Store) : Quiet quietMaintenance s := by
  have hlog : delegationFacts quietMaintenance.toWriterEnv = [] := by decide +kernel
  simp only [Quiet, promotionPasses, demotionPasses, List.cons_append, List.nil_append, meets_cons, quietPass, hlog,
    true_and]
  refine ⟨Meets.nil, Meets.nil, Meets.nil, fun candidates hcandidates => ?_, Meets.nil, Meets.nil⟩
  rw [← Option.some.inj hcandidates]
  exact Meets.nil

end AimeeMemory.Core
