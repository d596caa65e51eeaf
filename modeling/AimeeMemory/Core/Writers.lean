import AimeeMemory.Core.Cognify
import AimeeMemory.Core.Depth
import AimeeMemory.Core.ReferenceDb
import AimeeMemory.Lib.Decimal
import Mathlib.Data.Rat.Floor

/-!
# The writers of the module

The functions that make up memories of their own and store them by `memory_insert`:
`memory_fold_session` (`memory_conflict.c`), `memory_improve_summarise` and
`memory_cognify_unit` (`memory_improve.c`), `memory_episode_card_generate`
(`memory_episodes.c`), `memory_synthesize_l5_patterns` (`memory_core_tiers.c`),
`memory_promote_delegation_patterns` and `memory_synthesize_failure_episodes`
(`memory_logic.c`), `memory_learn_style` (`memory_advanced.c`),
`memory_consolidate_l1_chains` (`memory_health.c`) and `memory_upsert_workflow`
(`memory_core_scope_embed.c`).

Each computes a key, a content and a confidence, and the insert takes them as they are.

## Honest scope

The lookups and the other writes of db1 and db2 are the fields of `WriterEnv`. What the
writers store outside the rows (relations, feature rows, feedback rules, log lines) is not
modelled. The sizes of an episode card and of the two windows of a failure episode are
parameters: their headers are not in the repository.
-/

namespace AimeeMemory.Core

open AimeeMemory.Lib

/-! ### What the writers read -/

/-- `db2_memory_summary_cluster_t`. -/
structure SummaryCluster where
  sessionId : Text
  count : ℕ
  avgConfidence : ℚ
  deriving DecidableEq, Repr

/-- `db2_memory_l5_candidate_t`. -/
structure L5Candidate where
  sourceId : ℤ
  srcKey : Text
  srcContent : Text
  sessionCount : ℤ
  deriving DecidableEq, Repr

/-- `db1_agent_log_delegation_pattern_t`. -/
structure DelegationPattern where
  role : Text
  agentName : Text
  wins : ℕ
  fails : ℕ
  total : ℕ
  avgTurns : ℤ
  avgTools : ℤ
  recentError : Text := []
  deriving DecidableEq, Repr

/-- `db1_agent_log_failure_episode_seed_t`. -/
structure FailureSeed where
  role : Text
  agentName : Text
  fails : ℕ
  errors : Text
  deriving DecidableEq, Repr

/-- A feedback rule, as the style learner reads it. -/
structure StyleRule where
  polarity : Text
  description : Text
  deriving DecidableEq, Repr

/-- A decision of the decision log, as the style learner reads it. -/
structure Decision where
  chosen : Text
  rationale : Text
  deriving DecidableEq, Repr

/-- The sizes of the fields of `memory_episode_card_t`. -/
structure CardSizes where
  title : ℕ
  participants : ℕ
  places : ℕ
  events : ℕ
  outcomes : ℕ
  openThreads : ℕ

/-- What an episode card is asked for: the memories of a session. -/
structure CardInput where
  sessionId : Text
  turns : List (ℤ × Text)
  deriving DecidableEq, Repr

/-- What the writers run in. -/
structure WriterEnv where
  pf : Platform
  db : Db2
  /-- The key and the content of at most 64 L0 rows of a session. -/
  sessionL0List : Store → Text → List (Text × Text)
  sessionL0Purge : Store → Text → Store
  /-- At most 256 clusters. -/
  summariseClusters : Store → ℚ → ℤ → List SummaryCluster
  markMergedInto : Store → ℤ → Text → ℚ → Store
  cognify : CognifyConfig
  cognifyEnv : CognifyEnv
  /-- Where the enqueue function is linked. The queue is not part of the store. -/
  cognifyEnqueue : Option (Unit → ℤ → Unit)
  cardsEnabled : Bool
  cardSizes : CardSizes
  /-- The cognifier's answer for an episode card, where the command succeeds. -/
  cardPipe : Text → CardInput → Option Text
  /-- At most 200 rows. -/
  sessionIdContentList : Store → Text → List (ℤ × Text)
  setSourceSession : Store → ℤ → Text → Store
  unitEpisodeCardInsert : Store → ℤ → Text → Text → Store
  unitFirstEpisodeCardId : Store → ℤ → ℤ
  /-- At most 20 candidates: none on an error. -/
  l5PatternCandidates : Store → Option (List L5Candidate)
  /-- At most 128 patterns of 30 days: none where the function is not linked. -/
  delegationPatterns : Option (List DelegationPattern)
  failureWindow : ℕ
  /-- At most 128 seeds: none where the function is not linked. -/
  failureSeeds : Option (List FailureSeed)
  keyExists : Store → Text → Bool
  /-- At most 256 rules. -/
  rulesList : Store → List StyleRule
  /-- At most 256 successful decisions. -/
  decisionLogList : Store → List Decision
  /-- The sessions of at most 64 clusters of so many L1 rows. -/
  l1SessionClusters : Store → Text → ℕ → List Text
  l1SessionCreatedAt : Store → Text → List Text
  l1SessionContent : Store → Text → List Text
  /-- `mh_is_within_days`. -/
  isWithinDays : Text → ℕ → Bool
  getConfidenceByKey : Store → Text → Option ℚ
  tagWorkspace : Store → ℤ → Text → Store

variable (env : WriterEnv)

/-- `memory_insert`, with as much fuel as the store asks for. -/
def memoryInsert (out : Bool) (s : Store) (a : InsertArgs) : Outcome :=
  (memoryInsertEx env.pf env.db out (s.room + 1) s a).getD (failed s)

variable {env} in
/-- That fuel is enough. -/
theorem memoryInsert_spec (h : env.db.Lawful) (out : Bool) (s : Store) (a : InsertArgs) :
    memoryInsertEx env.pf env.db out (s.room + 1) s a = some (memoryInsert env out s a) := by
  obtain ⟨r, hr⟩ := Option.isSome_iff_exists.1 (memoryInsertEx_isSome h (Nat.lt_succ_self s.room))
  rw [memoryInsert, hr, Option.getD_some]

variable {env} in
/-- **An insert outside tier L2** is the gate and the last stages. -/
theorem memoryInsert_below {s : Store} {a : InsertArgs} (out : Bool) (h : a.tier ≠ .L2) : memoryInsert env out s a =
    match prepare env.pf env.db s a with
    | none => failed s
    | some p => mergeOrInsert env.pf env.db s a p := by
  rw [memoryInsert, memoryInsertEx]
  cases hp : prepare env.pf env.db s a with
  | none => rfl
  | some p =>
    simp only [supersededRow_of_tier hp h]
    rfl

/-- A decimal number, as `%d` prints it. -/
def printInt (n : ℤ) : Text := text (toString n)

/-- A number rounded to an integer, a half to the even one. -/
def roundHalfEven (q : ℚ) : ℤ :=
  if q - ⌊q⌋ < 1 / 2 then ⌊q⌋
  else if 1 / 2 < q - ⌊q⌋ then ⌊q⌋ + 1
  else if ⌊q⌋ % 2 = 0 then ⌊q⌋ else ⌊q⌋ + 1

/-- A number with two decimals, as `%.2f` prints it. -/
def printHundredths (q : ℚ) : Text :=
  let n := (roundHalfEven (|q| * 100)).toNat
  (if q < 0 then text "-" else []) ++ padded 1 (n / 100) ++ text "." ++ padded 2 (n % 100)

/-- A kind by its name. -/
def Kind.ofText (name : Text) : Kind :=
  if name = text "scratch" then .scratch
  else if name = text "fact" then .fact
  else if name = text "preference" then .preference
  else if name = text "decision" then .decision
  else if name = text "episode" then .episode
  else if name = text "procedure" then .procedure
  else if name = text "policy" then .policy
  else .other name

/-! ### Sessions -/

/-- The checkpoint of `memory_fold_session`, in its buffer of 200 bytes, and the number of its rows: none where a
copy of a negative length is asked for, which has no meaning. -/
def foldCheckpoint : List (Text × Text) → Text → ℕ → Option (Text × ℕ)
  | [], checkpoint, count => some (checkpoint, count)
  | (key, content) :: rows, checkpoint, count =>
    if key = [] then foldCheckpoint rows checkpoint count
    else if 197 ≤ checkpoint.length then some (checkpoint, count)
    else
      let separator := if checkpoint = [] then [] else text "; "
      if 197 < checkpoint.length + separator.length then none
      else
        let line := (if content = [] then key else content).take (197 - (checkpoint.length + separator.length))
        foldCheckpoint rows (checkpoint ++ separator ++ line) (count + 1)

/-- `memory_fold_session`. -/
def memoryFoldSession (s : Store) (sessionId : Text) : Store :=
  match foldCheckpoint (env.sessionL0List s sessionId) [] 0 with
  | none => s
  | some (checkpoint, count) =>
    if count = 0 then s
    else
      let r := memoryInsert env false s
        { tier := .L1
          kind := .episode
          key := (text "session:" ++ sessionId).take 255
          content := checkpoint
          confidence := 8 / 10
          sessionId := sessionId }
      env.sessionL0Purge r.store sessionId

/-- The observation that stands for a cluster. -/
def summaryArgs (c : SummaryCluster) : InsertArgs where
  tier := .L2
  kind := .fact
  key := (text "summary:" ++ c.sessionId).take 255
  content := (text "Observation summary: " ++ printInt c.count ++ text " low-confidence L1 facts from session " ++
    c.sessionId ++ text " (avg_conf=" ++ printHundredths c.avgConfidence ++
    text ") superseded by this L2 observation.").take 511
  confidence := if 1 < c.avgConfidence + 1 / 10 then 1 else c.avgConfidence + 1 / 10
  sessionId := c.sessionId

/-- `memory_improve_summarise`. -/
def memoryImproveSummarise (s : Store) (dryRun : Bool) (minClusterSize : ℤ) (maxConfidence : ℚ) : Store × ℕ :=
  let minClusterSize := if minClusterSize ≤ 0 then 3 else minClusterSize
  let maxConfidence := if maxConfidence ≤ 0 then 1 / 2 else maxConfidence
  (env.summariseClusters s maxConfidence minClusterSize).foldl (fun done c =>
    if c.sessionId = [] then done
    else if dryRun then (done.1, done.2 + 1)
    else
      let r := memoryInsert env true done.1 (summaryArgs c)
      if r.ok then (env.markMergedInto r.store r.id c.sessionId maxConfidence, done.2 + 1) else (r.store, done.2))
    (s, 0)

/-- A milestone made of the contents of a session. -/
def milestone (contents : List Text) : Text :=
  contents.foldl (fun summary c =>
    if c = [] ∨ 2048 ≤ summary.length + c.length + 4 then summary
    else if summary = [] then c else summary ++ text " | " ++ c) []

/-- The milestone of a session with five recent L1 rows. -/
def milestoneArgs (s : Store) (sessionId : Text) : Option InsertArgs :=
  let summary := milestone (env.l1SessionContent s sessionId)
  if sessionId = [] ∨ (env.l1SessionCreatedAt s sessionId).countP (env.isWithinDays · 1) < 5 ∨ summary = [] then none
  else
    some
      { tier := .L2
        kind := .fact
        key := (text "milestone:" ++ sessionId).take 255
        content := (text "Consolidated milestone for session " ++ sessionId ++ text ": " ++ summary).take 2047
        confidence := 8 / 10
        sessionId := sessionId }

/-- The insert of a milestone. -/
def consolidateSession (done : Store × ℕ) (sessionId : Text) : Store × ℕ :=
  match milestoneArgs env done.1 sessionId with
  | none => done
  | some a =>
    let r := memoryInsert env true done.1 a
    if r.ok then
      (env.db.attempt r.store
        (.provenanceInsert ⟨r.id, sessionId, text "consolidate", text "L1 chain distillation"⟩), done.2 + 1)
    else (r.store, done.2)

/-- `memory_consolidate_l1_chains`. -/
def memoryConsolidateL1Chains (s : Store) : Store × ℕ :=
  (env.l1SessionClusters s (text "workflow_learning") 5).foldl (consolidateSession env) (s, 0)

/-! ### The cognifier -/

/-- A write of a cognify pass, as far as it is to the rows. -/
def applyCognifyWrite (s : Store) : CognifyWrite → Store
  | .insert kind key value confidence =>
    (memoryInsert env true s
      { tier := .L2
        kind := .ofText kind
        key := key
        content := value
        confidence := confidence
        sessionId := text "cognify" }).store
  | .setKind .. | .relation .. | .feedback .. => s

/-- `memory_cognify_unit`, on the store. -/
def memoryCognifyUnitRows (s : Store) (turn : ℕ) (memoryId : ℤ) (content : Text) : Store :=
  match (memoryCognifyUnit env.cognify env.cognifyEnqueue env.cognifyEnv turn memoryId content ()).1 with
  | .passed writes => writes.foldl (applyCognifyWrite env) s
  | .failed | .enqueued => s

/-! ### Episode cards -/

/-- `memory_episode_card_t`. -/
structure EpisodeCard where
  title : Text
  participants : Text
  places : Text
  events : Text
  outcomes : Text
  openThreads : Text
  deriving DecidableEq, Repr

/-- `JOIN_ARRAY`: the strings of an array, in a field of so many bytes. -/
def joinArray (size : ℕ) (separator : Text) : List Json → Text → Text
  | [], field => field
  | .str value :: items, field =>
    if value = [] then joinArray size separator items field
    else
      let field := if field ≠ [] ∧ field.length + separator.length + 1 < size then field ++ separator else field
      if size ≤ field.length + value.length + 1 then field
      else joinArray size separator items (field ++ value)
  | _ :: items, field => joinArray size separator items field

/-- `memory_episode_card_parse`, of a parsed response. -/
def memoryEpisodeCardParse (sizes : CardSizes) (j : Json) : Option EpisodeCard :=
  match j.text? "title" with
  | none => none
  | some title =>
    if title = [] then none
    else
      some
        { title := title.take (sizes.title - 1)
          participants := joinArray sizes.participants (text ", ") (j.items "participants") []
          places := joinArray sizes.places (text ", ") (j.items "places") []
          events := joinArray sizes.events (text "\n") (j.items "events") []
          outcomes := joinArray sizes.outcomes (text "\n") (j.items "outcomes") []
          openThreads := joinArray sizes.openThreads (text "\n") (j.items "open_threads") [] }

def orNone (t : Text) : Text := if t = [] then text "(none)" else t

/-- The text of a card. -/
def EpisodeCard.text (c : EpisodeCard) : Text :=
  (Core.text "Episode: " ++ c.title ++ Core.text "\nParticipants: " ++ orNone c.participants ++
    Core.text "\nPlaces: " ++ orNone c.places ++ Core.text "\nEvents:\n" ++ orNone c.events ++
    Core.text "\nOutcomes:\n" ++ orNone c.outcomes ++ Core.text "\nOpen threads:\n" ++ orNone c.openThreads).take 2047

/-- The key of a session's card. -/
def cardKey (sessionId : Text) : Text := (text "episode:" ++ sessionId).take 255

/-- The insert of a session's card, where the cognifier has made one. -/
def cardArgs (s : Store) (sessionId : Text) : Option InsertArgs :=
  let rows := env.sessionIdContentList s sessionId
  if sessionId = [] ∨ env.cardsEnabled = false ∨ env.cognify.command = [] ∨ rows = [] then none
  else
    ((env.cardPipe env.cognify.command ⟨sessionId, rows⟩).bind env.cognifyEnv.parse).bind fun j =>
      (memoryEpisodeCardParse env.cardSizes j).map fun card =>
        { tier := .L2
          kind := .episode
          key := cardKey sessionId
          content := card.text
          confidence := 18 / 10
          sessionId := text "episode_card" }

/-- `memory_episode_card_generate`: the store, and the id of the card's unit. -/
def memoryEpisodeCardGenerate (s : Store) (sessionId : Text) : Store × ℤ :=
  match cardArgs env s sessionId with
  | none => (s, 0)
  | some a =>
    let r := memoryInsert env true s a
    if r.ok = false ∨ r.id ≤ 0 then (r.store, 0)
    else
      let s := env.setSourceSession r.store r.id sessionId
      let s := env.unitEpisodeCardInsert s r.id a.key a.content
      (s, env.unitFirstEpisodeCardId s r.id)

/-! ### Patterns -/

/-- The pattern of a candidate. -/
def l5Args (c : L5Candidate) : InsertArgs where
  tier := .L5
  kind := .fact
  key := (text "pattern_" ++ c.srcKey.take 200).take 255
  content := (text "Pattern observed across " ++ printInt c.sessionCount ++ text " sessions: " ++
    c.srcContent.take 400).take 1023
  confidence := min (85 / 100 + 1 / 100 * (c.sessionCount - 3)) (95 / 100)
  sessionId := []

/-- The insert of a pattern, linked to its source. -/
def synthesizePattern (done : Store × ℕ) (c : L5Candidate) : Store × ℕ :=
  if c.srcKey = [] ∨ c.srcContent = [] then done
  else
    let r := memoryInsert env true done.1 (l5Args c)
    if r.ok then (env.db.attempt r.store (.linkCreate ⟨r.id, c.sourceId, text "synthesizes"⟩), done.2 + 1)
    else (r.store, done.2)

/-- `memory_synthesize_l5_patterns`; a count of none is an error. -/
def memorySynthesizeL5Patterns (s : Store) : Store × Option ℕ :=
  match env.l5PatternCandidates s with
  | none => (s, none)
  | some candidates =>
    let done := candidates.foldl (synthesizePattern env) (s, 0)
    (done.1, some done.2)

/-- The share of the attempts that succeeded. -/
def DelegationPattern.successRate (p : DelegationPattern) : ℚ := if 0 < p.total then p.wins / p.total else 0

/-- The fact about a delegation that succeeds. -/
def delegationFact (p : DelegationPattern) : InsertArgs where
  tier := .L2
  kind := .fact
  key := (text "delegate_pattern_" ++ p.role ++ text "_" ++ p.agentName).take 255
  content := (text "Delegation [" ++ p.role ++ text "] via " ++ p.agentName ++ text " reliably succeeds (" ++
    printInt p.wins ++ text "/" ++ printInt p.total ++ text " attempts, avg " ++ printInt p.avgTurns ++
    text " turns, " ++ printInt p.avgTools ++ text " tool calls).").take 1023
  confidence := p.successRate
  sessionId := []

/-- The fact about a delegation that fails. -/
def delegationWarning (p : DelegationPattern) : InsertArgs where
  tier := .L2
  kind := .fact
  key := (text "delegate_warning_" ++ p.role ++ text "_" ++ p.agentName).take 255
  content := (text "Delegation [" ++ p.role ++ text "] via " ++ p.agentName ++ text " often fails (" ++
    printInt p.fails ++ text "/" ++ printInt p.total ++ text " attempts). Recent error: " ++
    (if p.recentError = [] then text "unknown" else p.recentError)).take 1023
  confidence := 8 / 10
  sessionId := []

/-- The facts that a pattern is worth. -/
def DelegationPattern.facts (p : DelegationPattern) : List InsertArgs :=
  (if 7 / 10 ≤ p.successRate then [delegationFact p] else []) ++
    -- a division by zero is an infinite share
    if 3 ≤ p.fails ∧ (p.total = 0 ∨ 1 / 2 ≤ (p.fails : ℚ) / p.total) then [delegationWarning p] else []

/-- The facts that the agent log is worth. -/
def delegationFacts : List InsertArgs := (env.delegationPatterns.getD []).flatMap DelegationPattern.facts

/-- `memory_promote_delegation_patterns`. -/
def memoryPromoteDelegationPatterns (s : Store) : Store × ℕ :=
  ((delegationFacts env).foldl (fun s a => (memoryInsert env true s a).store) s, (delegationFacts env).length)

/-- The episode of a failure. -/
def failureArgs (f : FailureSeed) : InsertArgs where
  tier := .L3
  kind := .episode
  key := (text "failure_episode_" ++ f.role ++ text "_" ++ f.agentName ++ text "_" ++ env.pf.nowUtc.take 10).take 255
  content := (text "Delegation [" ++ f.role ++ text "] via " ++ f.agentName ++ text " failed " ++ printInt f.fails ++
    text " times in " ++ printInt env.failureWindow ++ text " days. Errors: " ++
    (if f.errors = [] then text "unknown" else f.errors.take 500) ++
    text ". Avoid repeating this pattern without addressing the root cause.").take 1023
  confidence := 7 / 10
  sessionId := []

/-- The insert of a failure's episode, unless its key is there. -/
def synthesizeFailure (done : Store × ℕ) (f : FailureSeed) : Store × ℕ :=
  if env.keyExists done.1 (failureArgs env f).key then done
  else
    let r := memoryInsert env true done.1 (failureArgs env f)
    (r.store, if r.ok then done.2 + 1 else done.2)

/-- `memory_synthesize_failure_episodes`. -/
def memorySynthesizeFailureEpisodes (s : Store) : Store × ℕ :=
  (env.failureSeeds.getD []).foldl (synthesizeFailure env) (s, 0)

/-! ### Style -/

/-- `style_dimension_t`. -/
structure StyleDimension where
  dimension : String
  negKeywords : List String
  posKeywords : List String
  negPreference : String
  posPreference : String

/-- `style_dimensions`. -/
def styleDimensions : List StyleDimension :=
  [ { dimension := "verbosity"
      negKeywords := ["verbose", "wordy", "lengthy", "chatty", "too long", "too much", "wall of text", "overwhelming"]
      posKeywords := ["concise", "brief", "terse", "short", "minimal", "succinct", "compact"]
      negPreference := "User prefers concise, non-verbose output"
      posPreference := "User explicitly prefers brief responses" },
    { dimension := "explanations"
      negKeywords := ["obvious", "unnecessary", "over-explain", "don't explain", "stop explaining", "already know"]
      posKeywords := ["explain", "why", "reasoning", "context", "more detail", "elaborate"]
      negPreference := "User prefers minimal explanations; avoid stating the obvious"
      posPreference := "User values detailed explanations with reasoning" },
    { dimension := "commit_style"
      negKeywords := ["vague commit", "bad message", "commit message", "unclear commit"]
      posKeywords := ["conventional", "semantic commit", "good commit", "commit convention"]
      negPreference := "User wants clear, descriptive commit messages"
      posPreference := "User follows conventional commit style" },
    { dimension := "naming"
      negKeywords := ["inconsistent", "wrong case", "naming", "rename"]
      posKeywords := ["snake_case", "camelcase", "consistent naming", "naming convention"]
      negPreference := "User wants consistent naming conventions"
      posPreference := "User prefers specific naming conventions" },
    { dimension := "comments"
      negKeywords := ["too many comments", "obvious comments", "unnecessary comment", "remove comment"]
      posKeywords := ["document", "comment", "annotate", "docstring", "jsdoc"]
      negPreference := "User prefers minimal code comments"
      posPreference := "User values thorough code documentation" },
    { dimension := "structure"
      negKeywords := ["wall of text", "no headers", "unstructured", "hard to read", "formatting"]
      posKeywords := ["headers", "sections", "bullet", "structured", "organized"]
      negPreference := "User prefers structured output with sections and headers"
      posPreference := "User values well-organized, structured responses" } ]

/-- `match_keywords`. -/
def matchKeywords (t : Text) (keywords : List String) : Bool := keywords.any fun k => text k <:+: t

/-- The negative and the positive signals of a dimension in the rules. -/
def ruleSignals (d : StyleDimension) (rules : List StyleRule) : ℕ × ℕ :=
  rules.foldl (fun counts rule =>
    let lowered := (rule.description.take 1023).map tolower
    if rule.description = [] then counts
    else if rule.polarity = text "negative" ∧ matchKeywords lowered d.negKeywords then (counts.1 + 1, counts.2)
    else if rule.polarity = text "positive" ∧ matchKeywords lowered d.posKeywords then (counts.1, counts.2 + 1)
    else counts) (0, 0)

/-- The words that make a decision one about style. -/
def styleWords : List String := ["style", "format", "naming", "convention", "commit", "comment"]

/-- The signals of a dimension in the decisions, on top of those in the rules. -/
def decisionSignals (d : StyleDimension) (decisions : List Decision) (counts : ℕ × ℕ) : ℕ × ℕ :=
  decisions.foldl (fun counts decision =>
    let lowered := ((decision.chosen ++ text " " ++ decision.rationale).take 2047).map tolower
    if !matchKeywords lowered styleWords then counts
    else if matchKeywords lowered d.posKeywords then (counts.1, counts.2 + 1)
    else if matchKeywords lowered d.negKeywords then (counts.1 + 1, counts.2)
    else counts) counts

/-- The preference that a dimension is worth. -/
def styleArgs (d : StyleDimension) (counts : ℕ × ℕ) : Option InsertArgs :=
  let args (preference : String) (n : ℕ) (confidence : ℚ) : InsertArgs :=
    { tier := .L1
      kind := .preference
      key := text ("style_" ++ d.dimension)
      content := text preference ++ text ". Evidence: " ++ printInt n ++ text " feedback signal(s)."
      confidence := confidence
      sessionId := text "style_learning" }
  if 2 ≤ counts.1 then some (args d.negPreference counts.1 (8 / 10))
  else if 2 ≤ counts.2 then some (args d.posPreference counts.2 (9 / 10))
  else none

/-- `memory_learn_style`. -/
def memoryLearnStyle (s : Store) : Store × ℕ :=
  let preferences := styleDimensions.filterMap fun d =>
    styleArgs d (decisionSignals d (env.decisionLogList s) (ruleSignals d (env.rulesList s)))
  (preferences.foldl (fun s a => (memoryInsert env false s a).store) s, preferences.length)

/-! ### Workflows -/

/-- The key of a workflow. -/
def workflowKey (workspace signalType : Text) : Text := (text "workflow:" ++ workspace ++ text ":" ++ signalType).take 511

/-- The confidence that a workflow is observed with: a step up from the one it has. -/
def workflowConfidence (s : Store) (key : Text) (observed : ℚ) : ℚ :=
  let target := if 0 < observed then observed else 6 / 10
  match env.getConfidenceByKey s ((env.pf.normalizeKey key).take 511) with
  | none => target
  | some old => max target (min (old + 2 / 10) 1)

/-- `memory_upsert_workflow`. -/
def memoryUpsertWorkflow (s : Store) (workspace signalType rule : Text) (observed : ℚ) (sessionId : Option Text) :
    Store × ℤ :=
  if workspace = [] ∨ signalType = [] ∨ rule = [] then (s, -1)
  else
    let key := workflowKey workspace signalType
    let r := memoryInsert env true s
      { tier := .L1
        kind := .other (text "workflow")
        key := key
        content := rule
        confidence := workflowConfidence env s key observed
        sessionId := sessionId.getD (text "workflow_learning") }
    if r.ok then (env.tagWorkspace r.store r.id workspace, r.id) else (r.store, -1)

/-! ### A bare environment -/

/-- An environment with every feature off, over the reference database, in which the writers find nothing but rows
by their keys. -/
def bareWriters : WriterEnv where
  pf := plainPlatform
  db := openDb
  sessionL0List _ _ := []
  sessionL0Purge s _ := s
  summariseClusters _ _ _ := []
  markMergedInto s _ _ _ := s
  cognify :=
    { enabled := false
      command := []
      asyncEnabled := false
      limits := ⟨0, 0⟩ }
  cognifyEnv :=
    { getContent := fun _ _ => []
      execPipe := fun _ _ _ => none
      parse := fun _ => none
      elapsed := fun _ => 0 }
  cognifyEnqueue := none
  cardsEnabled := false
  cardSizes := ⟨256, 256, 256, 512, 512, 512⟩
  cardPipe _ _ := none
  sessionIdContentList _ _ := []
  setSourceSession s id sessionId := s.update id fun r => { r with sourceSession := sessionId }
  unitEpisodeCardInsert s id _ _ := { s with units := fun i => if i = id then s.units i ++ [id] else s.units i }
  unitFirstEpisodeCardId s id := (s.units id).headD 0
  l5PatternCandidates _ := some []
  delegationPatterns := some []
  failureWindow := 7
  failureSeeds := some []
  keyExists s key := (s.findRow fun r => r.key = key).isSome
  rulesList _ := []
  decisionLogList _ := []
  l1SessionClusters _ _ _ := []
  l1SessionCreatedAt _ _ := []
  l1SessionContent _ _ := []
  isWithinDays _ _ := true
  getConfidenceByKey s key := (s.findRow fun r => r.key = key).map fun found => found.2.confidence
  tagWorkspace s _ _ := s

end AimeeMemory.Core
