import AimeeMemory.Core.Writers
import AimeeMemory.Lib.Trace
import Mathlib.Algebra.BigOperators.Group.List.Basic
import Mathlib.Algebra.Order.BigOperators.Group.List

/-!
# Confidences in the unit interval

Each writer computes its own confidence, and the insert keeps the greater one of the two
where it merges. So one writer out of range takes a row out of range, for good.

## What is proved

* `inUnit_insertEx`: an insert of a confidence in the unit interval keeps all rows in it.
* **`inUnit_of_bounded`**: over every run of writers in which no episode card is stored, all
  rows stay in the unit interval.
* `inUnit_card_iff`: a card that is stored takes its row out of it.
* **`card_leaves_unit`**: the card of a session with one memory.
-/

namespace AimeeMemory.Core

open AimeeMemory.Lib

/-- Every row has a confidence in the unit interval. -/
def InUnit (s : Store) : Prop := ∀ i r, s.rows.lookup i = some r → 0 ≤ r.confidence ∧ r.confidence ≤ 1

/-- Every row comes from the row with its id, which has its confidence. -/
def Store.KeepsConfidence (s' s : Store) : Prop :=
  ∀ i r', s'.rows.lookup i = some r' → ∃ r, s.rows.lookup i = some r ∧ r'.confidence = r.confidence

/-- The same rows are there, with the same confidences. -/
def Store.SameConfidence (s' s : Store) : Prop :=
  ∀ i, (s'.rows.lookup i).map Row.confidence = (s.rows.lookup i).map Row.confidence

/-- What the writers rely on. -/
structure WriterEnv.Lawful (env : WriterEnv) : Prop where
  db : env.db.Lawful
  purge : ∀ s sessionId, (env.sessionL0Purge s sessionId).KeepsConfidence s
  merged : ∀ s id sessionId c, (env.markMergedInto s id sessionId c).SameConfidence s
  sourceSession : ∀ s id sessionId, (env.setSourceSession s id sessionId).SameConfidence s
  cardUnit : ∀ s id key content, (env.unitEpisodeCardInsert s id key content).SameConfidence s
  tag : ∀ s id workspace, (env.tagWorkspace s id workspace).SameConfidence s
  /-- The confidence of a cluster is the average of the confidences of some rows. -/
  cluster : ∀ {s c n cluster}, cluster ∈ env.summariseClusters s c n → ∃ confidences : List ℚ,
    (∀ x ∈ confidences, ∃ i r, s.rows.lookup i = some r ∧ r.confidence = x) ∧
      cluster.avgConfidence = confidences.sum / confidences.length
  /-- A candidate has been seen in three sessions. -/
  l5 : ∀ {s candidates c}, env.l5PatternCandidates s = some candidates → c ∈ candidates → 3 ≤ c.sessionCount
  delegation : ∀ {patterns p}, env.delegationPatterns = some patterns → p ∈ patterns → p.wins ≤ p.total

/-! ### The insert -/

variable {pf : Platform} {db : Db2} {s s' t : Store} {a : InsertArgs} {p : Prepared} {n : ℕ} {out : Bool} {r : Outcome}

/-- A confidence in the unit interval. -/
def UnitConfidence (c : ℚ) : Prop := 0 ≤ c ∧ c ≤ 1

theorem InUnit.keeps (h : InUnit s) (hk : s'.KeepsConfidence s) : InUnit s' := by
  intro i r' hr'
  obtain ⟨r, hr, heq⟩ := hk i r' hr'
  rw [heq]
  exact h i r hr

theorem Store.SameConfidence.keeps (h : s'.SameConfidence s) : s'.KeepsConfidence s := by
  intro i r' hr'
  have hsame := h i
  rw [hr', Option.map_some] at hsame
  obtain ⟨r, hr, heq⟩ := Option.map_eq_some_iff.1 hsame.symm
  exact ⟨r, hr, heq.symm⟩

theorem Store.SameConfidence.symm (h : s'.SameConfidence s) : s.SameConfidence s' := fun i => (h i).symm

theorem Moved.keepsConfidence (h : Moved s t) : t.KeepsConfidence s := by
  intro i r' hr'
  obtain ⟨r, hr, hmoved⟩ := h.row hr'
  exact ⟨r, hr, by rw [hmoved.fact]⟩

theorem Store.keepsConfidence_of_rows (h : s'.rows = s.rows) : s'.KeepsConfidence s :=
  fun _ r' hr' => ⟨r', h ▸ hr', rfl⟩

/-- A placement has the confidence of its insert, or the greater one of that and the one it merges with. -/
theorem placement_confidence (pf : Platform) (h : db.Lawful) (s : Store) (a : InsertArgs) (p : Prepared) :
    (placement pf db s a p).row.confidence = a.confidence ∨
      ∃ i old, s.rows.lookup i = some old ∧ (placement pf db s a p).row.confidence = max a.confidence old.confidence := by
  rw [placement]
  cases hplace : mergePlacement pf db s a p with
  | none => exact .inl rfl
  | some place =>
    obtain ⟨id, old, content, bonus, details, hold, -, -, rfl⟩ := mergePlacement_spec h hplace
    exact .inr ⟨id, old, hold, rfl⟩

theorem inUnit_insertEx (h : db.Lawful) (hs : InUnit s) (ha : UnitConfidence a.confidence)
    (hr : memoryInsertEx pf db out n s a = some r) : InUnit r.store := by
  rcases memoryInsertEx_spec h hr with ⟨-, rfl⟩ | ⟨t, place, hland, hlanded⟩
  · exact hs.keeps (residue_moved n s a).keepsConfidence
  · obtain ⟨hm, -, u, b, p, -, rfl, hconfidence⟩ := landing_spec hland
    have ht : InUnit t := hs.keeps hm.keepsConfidence
    intro i row hrow
    rcases hlanded.lookup_cases hrow with ⟨-, v, rfl⟩ | ⟨-, hrow⟩
    · rcases placement_confidence pf h t b p with hnew | ⟨j, old, hold, hmerged⟩
      · simp only [hnew, hconfidence]
        exact ha
      · simp only [hmerged, hconfidence]
        exact ⟨ha.1.trans (le_max_left _ _), max_le ha.2 (ht j old hold).2⟩
    · exact ht i row hrow

section Writers

variable {env : WriterEnv}

theorem InUnit.insert (hs : InUnit s) (h : env.db.Lawful) (ha : UnitConfidence a.confidence) :
    InUnit (memoryInsert env out s a).store :=
  inUnit_insertEx h hs ha (memoryInsert_spec h out s a)

/-- Inserts one after the other. -/
theorem InUnit.inserts (hs : InUnit s) (h : env.db.Lawful) {args : List InsertArgs}
    (hargs : ∀ a ∈ args, UnitConfidence a.confidence) :
    InUnit (args.foldl (fun s a => (memoryInsert env out s a).store) s) :=
  List.foldlRecOn args _ hs fun _ ht a ha => ht.insert h (hargs a ha)

theorem InUnit.attempt (hs : InUnit s) (h : env.db.Lawful) {w : Write} (hw : (s.apply w).rows = s.rows) :
    InUnit (env.db.attempt s w) := by
  rw [h.attempt_eq]
  split_ifs
  · exact hs.keeps (Store.keepsConfidence_of_rows hw)
  · exact hs

/-! ### The writers -/

theorem inUnit_foldSession (h : env.Lawful) (hs : InUnit s) (sessionId : Text) :
    InUnit (memoryFoldSession env s sessionId) := by
  unfold memoryFoldSession
  split
  · exact hs
  · split_ifs
    · exact hs
    · exact (hs.insert h.db (by norm_num [UnitConfidence])).keeps (h.purge _ _)

/-- An average of confidences is in the unit interval. -/
theorem average_inUnit (hs : InUnit s) {confidences : List ℚ}
    (hrows : ∀ x ∈ confidences, ∃ i r, s.rows.lookup i = some r ∧ r.confidence = x) :
    0 ≤ confidences.sum / confidences.length := by
  refine div_nonneg (List.sum_nonneg fun x hx => ?_) (Nat.cast_nonneg _)
  obtain ⟨i, r, hr, rfl⟩ := hrows x hx
  exact (hs i r hr).1

theorem inUnit_improveSummarise (h : env.Lawful) (hs : InUnit s) (dryRun : Bool) (minClusterSize : ℤ)
    (maxConfidence : ℚ) : InUnit (memoryImproveSummarise env s dryRun minClusterSize maxConfidence).1 := by
  simp only [memoryImproveSummarise]
  generalize (if maxConfidence ≤ 0 then 1 / 2 else maxConfidence) = limit
  refine List.foldlRecOn _ _ (motive := fun done : Store × ℕ => InUnit done.1) hs fun done hdone c hc => ?_
  obtain ⟨confidences, hrows, haverage⟩ := h.cluster hc
  have hnonneg : 0 ≤ c.avgConfidence := haverage ▸ average_inUnit hs hrows
  have hinsert : InUnit (memoryInsert env true done.1 (summaryArgs c)).store := by
    refine hdone.insert h.db ?_
    simp only [summaryArgs, UnitConfidence]
    split_ifs with hlarge
    · exact ⟨zero_le_one, le_rfl⟩
    · exact ⟨by linarith, not_lt.1 hlarge⟩
  split_ifs
  · exact hdone
  · exact hdone
  · exact hinsert.keeps (h.merged _ _ _ _).keeps
  · exact hinsert

theorem milestoneArgs_confidence {sessionId : Text} (h : milestoneArgs env s sessionId = some a) :
    a.confidence = 8 / 10 := by
  simp only [milestoneArgs, Option.ite_none_left_eq_some, Option.some.injEq] at h
  rw [← h.2]

theorem inUnit_consolidateL1Chains (h : env.Lawful) (hs : InUnit s) : InUnit (memoryConsolidateL1Chains env s).1 := by
  refine List.foldlRecOn _ _ (motive := fun done : Store × ℕ => InUnit done.1) hs fun done hdone sessionId _ => ?_
  unfold consolidateSession
  cases hargs : milestoneArgs env done.1 sessionId with
  | none => exact hdone
  | some a =>
    have hinsert : InUnit (memoryInsert env true done.1 a).store := by
      refine hdone.insert h.db ?_
      rw [milestoneArgs_confidence hargs]
      norm_num [UnitConfidence]
    simp only
    split_ifs
    · exact hinsert.attempt h.db rfl
    · exact hinsert

/-- A pass writes what the cognifier's answer says. -/
theorem memoryCognifyUnit_passed {cfg : CognifyConfig} {enqueue : Option (Unit → ℤ → Unit)} {cenv : CognifyEnv}
    {turn : ℕ} {memoryId : ℤ} {content : Text} {writes : List CognifyWrite}
    (h : (memoryCognifyUnit cfg enqueue cenv turn memoryId content ()).1 = .passed writes) :
    ∃ result, writes = cognifyWrites memoryId result := by
  have hpass : cognifyPass cfg cenv turn memoryId content = .passed writes := by
    unfold memoryCognifyUnit at h
    cases enqueue with
    | none =>
      split_ifs at h
      · exact h
      · exact h
    | some enqueue =>
      split_ifs at h
      exact h
  unfold cognifyPass at hpass
  split at hpass
  · exact absurd hpass (by simp)
  · split at hpass
    · exact absurd hpass (by simp)
    · exact ⟨_, (UnitOutcome.passed.inj hpass).symm⟩

/-- A claim is stored with the confidence of an opinion or of a fact. -/
theorem cognifyWrites_confidence {memoryId : ℤ} {result : CognifyResult} {kind key value : Text} {confidence : ℚ}
    (h : .insert kind key value confidence ∈ cognifyWrites memoryId result) : UnitConfidence confidence := by
  rcases List.mem_append.1 h with h | h
  · rcases List.mem_append.1 h with h | h
    · split at h
      · split_ifs at h <;> simp at h
      · simp at h
    · simp at h
  · obtain ⟨cl, -, h⟩ := List.mem_flatMap.1 h
    rcases List.mem_cons.1 h with h | h
    · obtain ⟨-, -, -, rfl⟩ := CognifyWrite.insert.inj h
      split_ifs <;> norm_num [UnitConfidence]
    · split_ifs at h <;> simp at h

theorem inUnit_cognifyUnit (h : env.Lawful) (hs : InUnit s) (turn : ℕ) (memoryId : ℤ) (content : Text) :
    InUnit (memoryCognifyUnitRows env s turn memoryId content) := by
  unfold memoryCognifyUnitRows
  split
  next writes hpassed =>
    obtain ⟨result, rfl⟩ := memoryCognifyUnit_passed hpassed
    refine List.foldlRecOn _ _ (motive := InUnit) hs fun t ht w hw => ?_
    cases w with
    | insert kind key value confidence => exact ht.insert h.db (cognifyWrites_confidence hw)
    | setKind | relation | feedback => exact ht
  · exact hs
  · exact hs

theorem inUnit_synthesizeL5Patterns (h : env.Lawful) (hs : InUnit s) : InUnit (memorySynthesizeL5Patterns env s).1 := by
  unfold memorySynthesizeL5Patterns
  split
  · exact hs
  next candidates hcandidates =>
    refine List.foldlRecOn candidates _ (motive := fun done : Store × ℕ => InUnit done.1) hs fun done hdone c hc => ?_
    have hinsert : InUnit (memoryInsert env true done.1 (l5Args c)).store := by
      have hsessions : (3 : ℚ) ≤ c.sessionCount := by exact_mod_cast h.l5 hcandidates hc
      refine hdone.insert h.db ⟨le_min ?_ (by norm_num), (min_le_right _ _).trans (by norm_num)⟩
      linarith
    unfold synthesizePattern
    split_ifs
    · exact hdone
    · simp only
      split_ifs
      · exact hinsert.attempt h.db rfl
      · exact hinsert

theorem DelegationPattern.facts_inUnit {p : DelegationPattern} (hp : p.wins ≤ p.total) :
    ∀ a ∈ p.facts, UnitConfidence a.confidence := by
  intro a ha
  rcases List.mem_append.1 ha with ha | ha <;> split_ifs at ha with hworth
  · obtain rfl := List.mem_singleton.1 ha
    refine ⟨(by norm_num : (0 : ℚ) ≤ 7 / 10).trans hworth, ?_⟩
    simp only [delegationFact, DelegationPattern.successRate]
    split_ifs
    · exact div_le_one_of_le₀ (by exact_mod_cast hp) (Nat.cast_nonneg _)
    · exact zero_le_one
  · exact absurd ha List.not_mem_nil
  · obtain rfl := List.mem_singleton.1 ha
    norm_num [UnitConfidence, delegationWarning]
  · exact absurd ha List.not_mem_nil

theorem inUnit_promoteDelegationPatterns (h : env.Lawful) (hs : InUnit s) :
    InUnit (memoryPromoteDelegationPatterns env s).1 := by
  refine hs.inserts h.db fun a ha => ?_
  obtain ⟨p, hp, ha⟩ := List.mem_flatMap.1 ha
  cases hpatterns : env.delegationPatterns with
  | none => simp [hpatterns] at hp
  | some patterns =>
    rw [hpatterns, Option.getD_some] at hp
    exact DelegationPattern.facts_inUnit (h.delegation hpatterns hp) a ha

theorem inUnit_learnStyle (h : env.Lawful) (hs : InUnit s) : InUnit (memoryLearnStyle env s).1 := by
  refine hs.inserts h.db fun a ha => ?_
  obtain ⟨d, -, ha⟩ := List.mem_filterMap.1 ha
  simp only [styleArgs] at ha
  split_ifs at ha <;> obtain rfl := Option.some.inj ha <;> norm_num [UnitConfidence]

theorem inUnit_upsertWorkflow (h : env.Lawful) (hs : InUnit s) (workspace signalType rule : Text) {observed : ℚ}
    (hobserved : observed ≤ 1) (sessionId : Option Text) :
    InUnit (memoryUpsertWorkflow env s workspace signalType rule observed sessionId).1 := by
  have hconfidence : ∀ key, UnitConfidence (workflowConfidence env s key observed) := by
    intro key
    have htarget : UnitConfidence (if 0 < observed then observed else 6 / 10) := by
      split_ifs with hpos
      · exact ⟨hpos.le, hobserved⟩
      · norm_num [UnitConfidence]
    simp only [workflowConfidence]
    cases env.getConfidenceByKey s ((env.pf.normalizeKey key).take 511) with
    | none => exact htarget
    | some old => exact ⟨htarget.1.trans (le_max_left _ _), max_le htarget.2 (min_le_right _ _)⟩
  unfold memoryUpsertWorkflow
  split_ifs
  · exact hs
  · simp only
    split_ifs
    · exact (hs.insert h.db (hconfidence _)).keeps (h.tag _ _ _).keeps
    · exact hs.insert h.db (hconfidence _)

/-! ### Episode cards -/

theorem cardArgs_confidence {sessionId : Text} (h : cardArgs env s sessionId = some a) : a.confidence = 18 / 10 := by
  simp only [cardArgs, Option.ite_none_left_eq_some] at h
  obtain ⟨j, -, hj⟩ := Option.bind_eq_some_iff.1 h.2
  obtain ⟨card, -, rfl⟩ := Option.map_eq_some_iff.1 hj
  rfl

/-- An insert that does not land leaves all rows in the unit interval, whatever its confidence. -/
theorem InUnit.refused (hs : InUnit s) (h : env.db.Lawful) (hland : landing env.pf env.db (s.room + 1) s a = none) :
    InUnit (memoryInsert env out s a).store := by
  rcases memoryInsertEx_spec h (memoryInsert_spec h out s a) with ⟨-, hr⟩ | ⟨t, place, hsome, -⟩
  · rw [hr]
    exact hs.keeps (residue_moved _ s a).keepsConfidence
  · exact absurd (hland.symm.trans hsome) (by simp)

/-- An insert that lands stores at least its confidence. -/
theorem insert_stores (h : env.db.Lawful) (out : Bool) (hland : landing env.pf env.db (s.room + 1) s a ≠ none) :
    ∃ r, (memoryInsert env out s a).store.rows.lookup (memoryInsert env out s a).id = some r ∧
      a.confidence ≤ r.confidence := by
  rcases memoryInsertEx_spec h (memoryInsert_spec h out s a) with ⟨hnone, -⟩ | ⟨t, place, hsome, hlanded⟩
  · exact absurd hnone hland
  · obtain ⟨-, -, u, b, p, -, rfl, hconfidence⟩ := landing_spec hsome
    obtain ⟨v, hv⟩ := hlanded.row
    refine ⟨_, hlanded.id ▸ hv, ?_⟩
    simp only
    rcases placement_confidence env.pf h t b p with hnew | ⟨j, old, hold, hmerged⟩
    · rw [hnew, hconfidence]
    · rw [hmerged, hconfidence]
      exact le_max_left _ _

/-- What is written about a card changes no confidence. -/
theorem memoryEpisodeCardGenerate_same (h : env.Lawful) {sessionId : Text} (hargs : cardArgs env s sessionId = some a) :
    (memoryEpisodeCardGenerate env s sessionId).1.SameConfidence (memoryInsert env true s a).store := by
  simp only [memoryEpisodeCardGenerate, hargs]
  split_ifs
  · exact fun _ => rfl
  · exact fun i => (h.cardUnit _ _ _ _ i).trans (h.sourceSession _ _ _ i)

/-- The card of a session is not stored: there is none, or its insert does not land. -/
def NoCardStored (env : WriterEnv) (s : Store) (sessionId : Text) : Prop :=
  ∀ a, cardArgs env s sessionId = some a → landing env.pf env.db (s.room + 1) s a = none

/-- A card leaves the rows in the unit interval exactly where it is not stored. -/
theorem inUnit_card_iff (h : env.Lawful) (hs : InUnit s) (sessionId : Text) :
    InUnit (memoryEpisodeCardGenerate env s sessionId).1 ↔ NoCardStored env s sessionId := by
  cases hargs : cardArgs env s sessionId with
  | none => simpa [memoryEpisodeCardGenerate, NoCardStored, hargs] using hs
  | some a =>
    have hsame := memoryEpisodeCardGenerate_same h hargs
    simp only [NoCardStored, hargs, Option.some.injEq, forall_eq']
    constructor
    · intro hunit
      by_contra hland
      obtain ⟨r, hr, hle⟩ := insert_stores h.db true hland
      obtain ⟨r', hr', heq⟩ := hsame.symm.keeps _ r hr
      have hrange := (hunit _ r' hr').2
      rw [cardArgs_confidence hargs, heq] at hle
      linarith
    · intro hland
      exact (hs.refused h.db hland).keeps hsame.keeps

/-! ### Runs -/

/-- The writers, with their arguments. -/
inductive Writer where
  | foldSession (sessionId : Text)
  | improveSummarise (dryRun : Bool) (minClusterSize : ℤ) (maxConfidence : ℚ)
  | cognifyUnit (turn : ℕ) (memoryId : ℤ) (content : Text)
  | episodeCardGenerate (sessionId : Text)
  | synthesizeL5Patterns
  | promoteDelegationPatterns
  | learnStyle
  | consolidateL1Chains
  | upsertWorkflow (workspace signalType rule : Text) (observed : ℚ) (sessionId : Option Text)

/-- A call of a writer. What it runs in may be another at each call. -/
structure WriterCall where
  env : WriterEnv
  lawful : env.Lawful
  writer : Writer

/-- The store after a call. -/
def writerStep (s : Store) (c : WriterCall) : Store :=
  match c.writer with
  | .foldSession sessionId => memoryFoldSession c.env s sessionId
  | .improveSummarise dryRun minClusterSize maxConfidence =>
    (memoryImproveSummarise c.env s dryRun minClusterSize maxConfidence).1
  | .cognifyUnit turn memoryId content => memoryCognifyUnitRows c.env s turn memoryId content
  | .episodeCardGenerate sessionId => (memoryEpisodeCardGenerate c.env s sessionId).1
  | .synthesizeL5Patterns => (memorySynthesizeL5Patterns c.env s).1
  | .promoteDelegationPatterns => (memoryPromoteDelegationPatterns c.env s).1
  | .learnStyle => (memoryLearnStyle c.env s).1
  | .consolidateL1Chains => (memoryConsolidateL1Chains c.env s).1
  | .upsertWorkflow workspace signalType rule observed sessionId =>
    (memoryUpsertWorkflow c.env s workspace signalType rule observed sessionId).1

/-- A workflow is observed with a confidence in the unit interval. -/
def Writer.Observes : Writer → Prop
  | .upsertWorkflow _ _ _ observed _ => UnitConfidence observed
  | _ => True

/-- A call that stores no episode card. -/
def Bounded (s : Store) (c : WriterCall) : Prop :=
  match c.writer with
  | .episodeCardGenerate sessionId => NoCardStored c.env s sessionId
  | _ => True

theorem inUnit_step (hs : InUnit s) {c : WriterCall} (hobserves : c.writer.Observes) (hbounded : Bounded s c) :
    InUnit (writerStep s c) := by
  obtain ⟨env, h, writer⟩ := c
  cases writer with
  | foldSession sessionId => exact inUnit_foldSession h hs sessionId
  | improveSummarise dryRun minClusterSize maxConfidence =>
    exact inUnit_improveSummarise h hs dryRun minClusterSize maxConfidence
  | cognifyUnit turn memoryId content => exact inUnit_cognifyUnit h hs turn memoryId content
  | episodeCardGenerate sessionId => exact (inUnit_card_iff h hs sessionId).2 hbounded
  | synthesizeL5Patterns => exact inUnit_synthesizeL5Patterns h hs
  | promoteDelegationPatterns => exact inUnit_promoteDelegationPatterns h hs
  | learnStyle => exact inUnit_learnStyle h hs
  | consolidateL1Chains => exact inUnit_consolidateL1Chains h hs
  | upsertWorkflow workspace signalType rule observed sessionId =>
    exact inUnit_upsertWorkflow h hs workspace signalType rule hobserves.2 sessionId

/-- **Confidences stay in the unit interval** over every run of writers that stores no episode card. -/
theorem inUnit_of_bounded (hs : InUnit s) (calls : List WriterCall) (hobserves : ∀ c ∈ calls, c.writer.Observes)
    (h : Meets writerStep (fun _ => Bounded) s calls) : InUnit (run writerStep s calls) := by
  have hmeets : Meets writerStep (fun _ s c => c.writer.Observes ∧ Bounded s c) s calls := by
    intro pre c post hsplit
    exact ⟨hobserves c (hsplit ▸ List.mem_append_right pre List.mem_cons_self), h pre c post hsplit⟩
  exact run_invariant (I := fun _ => InUnit) hs (fun _ _ _ hs hc => inUnit_step hs hc.1 hc.2) calls hmeets

end Writers

/-! ### The card of a session -/

theorem bareWriters_lawful : bareWriters.Lawful where
  db := openDb_lawful
  purge s _ := Store.keepsConfidence_of_rows rfl
  merged _ _ _ _ _ := rfl
  sourceSession s id sessionId i := by
    simp only [bareWriters, Store.lookup_update]
    split_ifs <;> simp [Option.map_map, Function.comp_def]
  cardUnit _ _ _ _ _ := rfl
  tag _ _ _ _ := rfl
  cluster h := absurd h List.not_mem_nil
  l5 h hc := absurd (Option.some.inj h ▸ hc) List.not_mem_nil
  delegation h hp := absurd (Option.some.inj h ▸ hp) List.not_mem_nil

/-- What a cognifier answers for a session at a lake. -/
def lakeAnswer : Text := text "\x7b\"title\": \"Camping\"\x7d"

/-- Episode cards are on, and the session at the lake has one memory. -/
def cardWriters : WriterEnv :=
  { bareWriters with
    cardsEnabled := true
    cognify := { bareWriters.cognify with command := text "cognify" }
    cognifyEnv :=
      { bareWriters.cognifyEnv with
        parse := fun t => if t = lakeAnswer then some (.obj [(text "title", .str (text "Camping"))]) else none }
    cardPipe := fun _ _ => some lakeAnswer
    sessionIdContentList := fun _ sessionId => if sessionId = text "lake" then [(1, text "a tent by the lake")] else [] }

theorem cardWriters_lawful : cardWriters.Lawful :=
  { bareWriters_lawful with }

def cardCall : WriterCall := ⟨cardWriters, cardWriters_lawful, .episodeCardGenerate (text "lake")⟩

def lakeStore : Store := oneRowStore (factRow "tent" "a tent by the lake" (8 / 10))

theorem inUnit_lakeStore : InUnit lakeStore := by
  intro i r hr
  simp only [lakeStore, oneRowStore] at hr
  by_cases hi : i = 1
  · subst hi
    rw [AList.lookup_insert, Option.some.injEq] at hr
    subst hr
    norm_num [factRow]
  · rw [AList.lookup_insert_ne hi] at hr
    simp at hr

/-- The card is stored with a confidence of 1.8. -/
theorem card_leaves_unit : InUnit lakeStore ∧ cardCall.writer.Observes ∧
    ((run writerStep lakeStore [cardCall]).rows.lookup 2).map Row.confidence = some (18 / 10) ∧
    ¬ InUnit (run writerStep lakeStore [cardCall]) := by
  have hrow : ((run writerStep lakeStore [cardCall]).rows.lookup 2).map Row.confidence = some (18 / 10) := by
    decide +kernel
  refine ⟨inUnit_lakeStore, trivial, hrow, fun hunit => ?_⟩
  obtain ⟨r, hr, hconfidence⟩ := Option.map_eq_some_iff.1 hrow
  have hle := (hunit 2 r hr).2
  rw [hconfidence] at hle
  norm_num at hle

/-- A workflow that is observed. -/
def workflowCall : WriterCall :=
  ⟨bareWriters, bareWriters_lawful, .upsertWorkflow (text "home") (text "build") (text "make all") (1 / 2) none⟩

/-- A workflow that is observed twice, and a card that is asked for with the cards off. -/
theorem workflows_inUnit : InUnit (run writerStep lakeStore
    ([] ++ [workflowCall] ++ [workflowCall] ++ [⟨bareWriters, bareWriters_lawful, .episodeCardGenerate (text "lake")⟩])) := by
  refine inUnit_of_bounded inUnit_lakeStore _ (fun c hc => ?_)
    (((Meets.nil.concat trivial).concat trivial).concat fun a ha => absurd ha (by simp [cardArgs, bareWriters]))
  simp only [List.nil_append, List.cons_append, List.mem_cons, List.not_mem_nil, or_false] at hc
  rcases hc with rfl | rfl | rfl
  · norm_num [workflowCall, Writer.Observes, UnitConfidence]
  · norm_num [workflowCall, Writer.Observes, UnitConfidence]
  · trivial

end AimeeMemory.Core
