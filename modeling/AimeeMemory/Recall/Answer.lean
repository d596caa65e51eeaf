import AimeeMemory.Recall.Scoped
import AimeeMemory.Recall.Visible
import AimeeMemory.Context.Candidate
import AimeeMemory.Lib.Decimal

/-!
# Answers

`memory_ask_query_scoped` of `memory_core_search_c.c`: the search for the request, the anchor
and its cluster, the text of the answer, the citations, the second search of a required
citation that is missing, and the judgement whether the answer is grounded; and
`memory_answer_query_scoped`, which prints the answer with its citations.

## What is proved

* `anchor_cited`, `cited_of_room`: the anchor is always cited, so that the second search is never
  made, and the row that the answer is from where there is room for all rows.
* `memoryRenderCitedAnswer_eq`: the buffer is long enough for every citation.
* **`answersConsistently_iff`**: an answer and its citations, or none of them and no confidence,
  exactly where the judgement lets the answer through.
* **`abstention_keeps_confidence`**: an answer that is not grounded is withdrawn, its confidence is not.

## Honest scope

The confidence and the coverages are rationals, where the code has doubles. The counters of the
runtime state are not modelled. The sizes of the answer, of its citations and of its trace are
parameters: their header is not in the repository.
-/

namespace AimeeMemory.Recall

open AimeeMemory.Core AimeeMemory.Lib
open AimeeMemory.Context (lowered isCoverageStopword memoryTierPriority memoryRetrievalConfidence)

/-! ### What an answer is made of -/

/-- The fields of a row that only an answer reads. -/
structure RowFields where
  tier : Text
  kind : Text
  provenanceCategory : Text := []
  deriving DecidableEq, Repr

/-- `db2_memory_event_frame_row_t`. -/
structure EventFrame where
  actor : Text := []
  action : Text := []
  object : Text := []
  location : Text := []
  eventTime : Text := []
  deriving DecidableEq, Repr

/-- What an answer is made in. -/
structure AnswerEnv extends Env where
  ranking : Ranking
  /-- The scope context of the request, where one is active. -/
  requestScope : Option ScopeContext
  fields : ℤ → RowFields
  eventFrame : ℤ → Option EventFrame
  firstTemporalRef : ℤ → Text
  firstSummary : ℤ → Option Text
  /-- At most 32 terms. -/
  answerTerms : Text → List Text
  answerSize : ℕ
  maxCitations : ℕ+
  traceMaxIds : ℕ
  configCitationsMode : Text
  envCitationsMode : Option Text
  configStripUnverified : Bool
  envStripUnverified : Option ℤ
  repromptOnMiss : Bool
  abstainGate : ℚ
  chunkMinConfidence : ℚ
  abstainEnabled : Bool

variable (env : AnswerEnv)

/-! ### The cluster -/

/-- `memory_cluster_member`. -/
def memoryClusterMember (rows : List Memory) (anchor candidate : ℕ) : Bool :=
  match rows[anchor]?, rows[candidate]? with
  | some a, some c => anchor = candidate || (a.sourceSession ≠ [] && a.sourceSession = c.sourceSession)
  | _, _ => false

/-- The places of a cluster. -/
def clusterPlaces (rows : List Memory) (anchor : ℕ) : List ℕ :=
  (List.range rows.length).filter (memoryClusterMember rows anchor)

/-- The rows of a cluster. -/
def clusterRows (rows : List Memory) (anchor : ℕ) : List Memory := (clusterPlaces rows anchor).filterMap fun i => rows[i]?

/-- `memory_answer_cluster_score`. -/
def memoryAnswerClusterScore (rows : List Memory) (anchor : ℕ) : ℚ :=
  match rows[anchor]? with
  | none => -1
  | some a =>
    let members := clusterPlaces rows anchor
    let kinds := (clusterRows rows anchor).map fun m => (env.fields m.id).kind
    1 / (anchor + 1) + (members.map fun i : ℕ => (35 / 100 : ℚ) / (i + 1)).sum +
      (if 1 < members.length then (min members.length 4 : ℕ) * (8 / 100) else 0) +
      (if kinds.any fun kind => kind ≠ (env.fields a.id).kind then 10 / 100 else 0) +
      (if text "episode" ∈ kinds then 12 / 100 else 0) + (if text "fact" ∈ kinds then 8 / 100 else 0)

/-- `memory_answer_anchor_index`: the first of the best scores. -/
def memoryAnswerAnchorIndex (rows : List Memory) : ℕ :=
  ((List.range' 1 (rows.length - 1)).foldl (fun best i =>
    if best.2 < memoryAnswerClusterScore env rows i then (i, memoryAnswerClusterScore env rows i) else best)
    (0, memoryAnswerClusterScore env rows 0)).1

/-- The rows that an answer is looked for in, and that it cites: the cluster, and once more its anchor. -/
def answerRows (rows : List Memory) (anchor : ℕ) : List Memory := clusterRows rows anchor ++ rows[anchor]?.toList

/-- `memory_collect_answer_citation_ids`: the first of each id, up to so many. -/
def memoryCollectAnswerCitationIds (rows : List Memory) (anchor max : ℕ) : List ℤ :=
  (collect max [] (answerRows rows anchor)).map Memory.id

/-! ### The text -/

/-- A text in the buffer of the answer. -/
def inBuffer (t : Text) : Text := t.take (env.answerSize - 1)

/-- `memory_pick_answer_from_event`. -/
def memoryPickAnswerFromEvent (intent : Intent) (id : ℤ) : Text :=
  match env.eventFrame id with
  | none => []
  | some frame =>
    if intent = .temporal ∧ frame.eventTime ≠ [] then frame.eventTime
    else if intent = .entity ∧ frame.actor ≠ [] then frame.actor
    else if frame.location ≠ [] ∧ (text "move" <:+: frame.action ∨ text "visit" <:+: frame.action) then frame.location
    else frame.object

/-- The first row that gives a text, and the text. -/
def firstText (give : ℤ → Text) (rows : List Memory) : Option (Memory × Text) :=
  rows.findSome? fun m => if inBuffer env (give m.id) = [] then none else some (m, inBuffer env (give m.id))

/-- What a row shows of itself. -/
def shownText (m : Memory) : Text := (if m.content = [] then m.key else m.content).take 180

/-- The row that an answer is taken from, and its text. -/
def pickAnswer (intent : Intent) (rows : List Memory) : Option (Memory × Text) :=
  let anchor := memoryAnswerAnchorIndex env rows
  let candidates := answerRows rows anchor
  (firstText env (memoryPickAnswerFromEvent env intent) candidates).or
    ((if intent = .temporal then firstText env env.firstTemporalRef candidates else none).or
      ((firstText env (fun id => (env.firstSummary id).getD []) candidates).or
        (rows[anchor]?.bind fun m =>
          if inBuffer env (shownText m) = [] then none else some (m, inBuffer env (shownText m)))))

/-- `memory_pick_answer_from_cluster`. -/
def memoryPickAnswerFromCluster (intent : Intent) (rows : List Memory) : Text :=
  ((pickAnswer env intent rows).map Prod.snd).getD []

/-! ### The judgement -/

inductive Decision where
  | answerable
  | abstain
  | exempt
  deriving DecidableEq, Repr

inductive Reason where
  | ok
  | structuralEmpty
  | structuralNoExtract
  | citationRequired
  | groundingLow
  | chunkFloor
  | curatedExempt
  | dbUnavailable
  deriving DecidableEq, Repr

/-- `memory_answer_evidence_t`. -/
structure AnswerEvidence where
  decision : Decision := .answerable
  reason : Reason := .ok
  structural : Bool := false
  exempt : Bool := false
  anchorId : ℤ := 0
  anchorRank : ℤ := -1
  rankedCount : ℕ := 0
  candidateIds : List ℤ := []
  traceTruncated : Bool := false
  threshold : ℚ := 0
  chunkFloor : ℚ := 0
  topkGrounding : ℚ := 0
  anchorCoverage : ℚ := 0
  clusterCoverage : ℚ := 0
  deriving DecidableEq, Repr

/-- `memory_answer_trace_init`. -/
def memoryAnswerTraceInit (rows : List Memory) (anchor : Option ℕ) : AnswerEvidence :=
  let trace : AnswerEvidence :=
    { rankedCount := rows.length
      candidateIds := (rows.take env.traceMaxIds).map Memory.id
      traceTruncated := env.traceMaxIds < rows.length }
  match anchor with
  | none => trace
  | some i =>
    match rows[i]? with
    | none => trace
    | some m => { trace with anchorId := m.id, anchorRank := if 0 < m.hybridRank then (m.hybridRank : ℤ) else i + 1 }

/-- `memory_answer_trace_set`, for an abstention. -/
def AnswerEvidence.abstained (trace : AnswerEvidence) (reason : Reason) (structural : Bool) : AnswerEvidence :=
  { trace with decision := .abstain, reason, structural }

/-- `memory_answer_confidence`. -/
def memoryAnswerConfidence (rows : List Memory) (anchor citationCount : ℕ) (noAnswer lowConfidence : Bool) : ℚ :=
  if noAnswer ∨ rows.length ≤ anchor then 0
  else
    let clusterNorm := min (max (memoryAnswerClusterScore env rows anchor) 0 / 2) 1
    let rankNorm : ℚ := 1 / (anchor + 1)
    let supportNorm : ℚ := (min rows.length 4 : ℕ) / 4
    let citationNorm : ℚ := if 0 < citationCount then 1 else if lowConfidence then 0 else 35 / 100
    let conf := 45 / 100 * clusterNorm + 20 / 100 * rankNorm + 20 / 100 * supportNorm + 15 / 100 * citationNorm
    min (max (if lowConfidence then conf * (45 / 100) else conf) 0) 1

/-- `memory_answer_mode_for_anchor`. -/
def memoryAnswerModeForAnchor (rows : List Memory) (anchor : ℕ) : Text :=
  match rows[anchor]? with
  | none => []
  | some m =>
    let f := env.fields m.id
    if f.tier = text "L5" ∨ f.kind = text "synthesis" ∨ f.kind = text "restoration" ∨
        f.provenanceCategory = text "synthesis" ∨ f.provenanceCategory = text "restoration" then text "synthesised"
    else text "verbatim"

/-- The terms of a query that count for its coverage. -/
def significantTerms (terms : List Text) : List Text := terms.filter fun t => 3 ≤ t.length ∧ !isCoverageStopword t

/-- Whether one of two texts has a term. -/
def hasTerm (a b term : Text) : Bool :=
  lowered (term.take 127) <:+: lowered (a.take 2047) ∨ lowered (term.take 127) <:+: lowered (b.take 2047)

/-- `memory_text_term_coverage`. -/
def memoryTextTermCoverage (terms : List Text) (a b : Text) : ℚ :=
  let significant := significantTerms terms
  if significant = [] then 0 else (significant.countP (hasTerm a b) : ℕ) / (significant.length : ℚ)

/-- The coverage of an anchor. -/
def anchorCoverage (terms : List Text) (rows : List Memory) (anchor : ℕ) : ℚ :=
  match rows[anchor]? with
  | none => 0
  | some m => memoryTextTermCoverage terms m.key m.content

/-- The share of the terms that some row of the cluster covers. -/
def clusterCoverage (terms : List Text) (rows : List Memory) (anchor : ℕ) : ℚ :=
  let significant := significantTerms terms
  if significant = [] then 0
  else
    (significant.countP fun t => (clusterRows rows anchor).any fun m => 0 < memoryTextTermCoverage [t] m.key m.content : ℕ) /
      (significant.length : ℚ)

/-- A row as a candidate, so many places before the end. -/
def asCandidate (m : Memory) (places : ℕ) : Context.Candidate ℚ where
  id := m.id
  tier := []
  key := m.key
  content := m.content
  kind := []
  confidence := 0
  useCount := 0
  scope := []
  scopeRank := 0
  tierPriority := 0
  score := if 0 < m.retrievalScore then m.retrievalScore else places
  scorePerToken := 0
  estimatedTokens := 0

/-- The candidates that the floor leaves of the first 16 rows. -/
def keptCandidates (rows : List Memory) (chunkFloor : ℚ) : List (Context.Candidate ℚ) :=
  let cands := rows.take 16
  (cands.zipIdx.filter fun c => chunkFloor ≤ 0 ∨ chunkFloor ≤ c.1.retrievalScore).map fun c =>
    asCandidate c.1 (cands.length - c.2)

/-- The grounding of the best rows. -/
def topkGrounding (terms : List Text) (rows : List Memory) (threshold chunkFloor : ℚ) : ℚ :=
  (memoryRetrievalConfidence terms (keptCandidates rows chunkFloor) threshold).score

/-- `memory_answer_anchor_exempt`. -/
def memoryAnswerAnchorExempt (rows : List Memory) (anchor : ℕ) : Bool :=
  match rows[anchor]? with
  | none => false
  | some m => 4 ≤ memoryTierPriority (env.fields m.id).tier

/-- The lowest of the three groundings. -/
def grounding (terms : List Text) (rows : List Memory) (anchor : ℕ) (threshold chunkFloor : ℚ) : ℚ :=
  min (min (anchorCoverage terms rows anchor) (clusterCoverage terms rows anchor))
    (topkGrounding terms rows threshold chunkFloor)

/-- `memory_answerable`. A structural failure comes with its reason. -/
def memoryAnswerable (rows : List Memory) (anchor : ℕ) (terms : List Text) (citationCount : ℕ)
    (citationsRequired : Bool) (structural : Option Reason) (threshold chunkFloor : ℚ) (abstainEnabled : Bool)
    (answerConfidence : ℚ) : AnswerEvidence :=
  let trace := { memoryAnswerTraceInit env rows (some anchor) with threshold, chunkFloor }
  if memoryAnswerAnchorExempt env rows anchor then
    { trace with decision := .exempt, reason := .curatedExempt, exempt := true }
  else
    match structural with
    | some reason => trace.abstained reason true
    | none =>
      if citationsRequired ∧ citationCount = 0 then trace.abstained .citationRequired true
      else if 0 < chunkFloor ∧ keptCandidates rows chunkFloor = [] then trace.abstained .chunkFloor false
      else
        let floored := grounding terms rows anchor threshold chunkFloor
        let trace :=
          { trace with
            topkGrounding := topkGrounding terms rows threshold chunkFloor
            anchorCoverage := anchorCoverage terms rows anchor
            clusterCoverage := clusterCoverage terms rows anchor }
        if abstainEnabled ∧ floored < threshold ∧ ¬(threshold - floored < 2 / 100 ∧ threshold ≤ answerConfidence) then
          trace.abstained .groundingLow false
        else { trace with decision := .answerable, reason := .ok }

/-! ### Asking -/

/-- `memory_answer_result_t`: the citations are as many as it counts. -/
structure AnswerResult where
  answer : Text := []
  error : Text := []
  noAnswer : Bool := false
  lowConfidence : Bool := false
  confidence : ℚ := 0
  citationIds : List ℤ := []
  retrievalCount : ℕ := 0
  evidenceMode : Text := []
  evidence : Option AnswerEvidence := none
  deriving DecidableEq, Repr

/-- The result of a search that fails, with the trace of these rows. -/
def unavailable (rows : List Memory) (anchor : Option ℕ) : AnswerResult where
  error := text "error: memory retrieval index unavailable; server-side maintenance is required"
  evidence := some ((memoryAnswerTraceInit env rows anchor).abstained .dbUnavailable true)

/-- The rows that a request finds: those of its scope, or those that its scope context shows. -/
def requestMatches (query : Text) (scope : Scope) (limit : ℤ) : Option (List Memory) :=
  let limit := if 0 < limit then limit else 5
  match env.requestScope, scope.scopeType.getD [] with
  | some ctx, [] =>
    memoryFindFactsVisibleEx env.toEnv env.ranking (some ctx) query ctx.workspace ctx.project ctx.includeAll limit 8
  | _, _ => memoryFindFactsScoped env.toEnv env.ranking query scope limit 8

/-- The rows of the second search, which is not told the scope that was asked for. -/
def repromptMatches (query : Text) : Option (List Memory) :=
  match env.requestScope with
  | some ctx =>
    memoryFindFactsVisibleEx env.toEnv env.ranking (some ctx) query ctx.workspace ctx.project ctx.includeAll 5 8
  | none => memoryFindFactsScoped env.toEnv env.ranking query ⟨none, none⟩ 5 8

/-- The mode of the citations: the environment variable's, or the configured one. -/
def citationsMode : Text :=
  match env.envCitationsMode with
  | some mode => if mode = [] then env.configCitationsMode else mode
  | none => env.configCitationsMode

def citationsRequired : Bool := citationsMode env = text "required"

def stripUnverified : Bool :=
  match env.envStripUnverified with
  | some n => n ≠ 0
  | none => env.configStripUnverified

def abstainThreshold : ℚ := if 0 < env.abstainGate then env.abstainGate else 40 / 100

/-- Whether an answer may be withdrawn. -/
def abstains : Bool := env.abstainEnabled && 0 < abstainThreshold env

def chunkFloor : ℚ := if abstains env then min (max env.chunkMinConfidence 0) 1 else 0

/-- An answer on its way, with the rows that it is from. -/
structure AnswerDraft where
  rows : List Memory
  answer : Text
  citationIds : List ℤ
  deriving DecidableEq, Repr

/-- The answer that rows give. -/
def draftAnswer (intent : Intent) (rows : List Memory) : AnswerDraft where
  rows := rows
  answer := memoryPickAnswerFromCluster env intent rows
  citationIds := memoryCollectAnswerCitationIds rows (memoryAnswerAnchorIndex env rows) env.maxCitations

/-- The second search for a citation that is required and missing; none where it fails. -/
def reprompt (query : Text) (intent : Intent) (draft : AnswerDraft) : Option AnswerDraft :=
  if draft.citationIds = [] ∧ citationsRequired env ∧ env.repromptOnMiss then
    (repromptMatches env query).map fun rows =>
      let again := draftAnswer env intent rows
      if rows ≠ [] ∧ again.answer ≠ [] ∧ again.citationIds ≠ [] then again else draft
  else some draft

/-- What precedes an answer whose citations are missing. -/
def lowConfidenceNote : Text :=
  text "## Retrieval Confidence: LOW\nNo verified citations could be attached to this answer. " ++
    text "The information below is unverified and may be inaccurate.\n\n"

/-- The end of an ask: the citations that are missing, and the judgement. -/
def concludeAnswer (norm evidenceMode : Text) (draft : AnswerDraft) : AnswerResult :=
  let anchor := memoryAnswerAnchorIndex env draft.rows
  let missing := draft.citationIds = [] ∧ citationsMode env ≠ [] ∧ citationsMode env ≠ text "off"
  let result : AnswerResult := { retrievalCount := draft.rows.length, evidenceMode }
  if missing ∧ stripUnverified env then
    { result with
      noAnswer := true
      evidence := some (memoryAnswerable env draft.rows anchor [] 0 (citationsRequired env) (some .citationRequired) 0 0
        false 0) }
  else
    let required := missing ∧ citationsRequired env
    let confidence := memoryAnswerConfidence env draft.rows anchor draft.citationIds.length false required
    let evidence := memoryAnswerable env draft.rows anchor (env.answerTerms norm) draft.citationIds.length required none
      (abstainThreshold env) (chunkFloor env) (abstains env) confidence
    let result := { result with confidence, evidence := some evidence }
    if evidence.decision = .abstain then { result with noAnswer := true, lowConfidence := true }
    else
      { result with
        lowConfidence := required
        answer := if required then inBuffer env (lowConfidenceNote ++ draft.answer) else draft.answer
        citationIds := draft.citationIds }

/-- The intent of a query. -/
def askIntent (query : Text) : Intent := env.queryIntent query (normQuery env.toEnv query)

/-- `memory_ask_query_scoped`. -/
def memoryAskQueryScoped (query : Text) (scope : Scope) (limit : ℤ) : Except AnswerResult AnswerResult :=
  if query = [] then .error { error := text "query is required" }
  else
    match requestMatches env query scope limit with
    | none => .error (unavailable env [] none)
    | some [] => .ok
        { noAnswer := true
          evidence := some ((memoryAnswerTraceInit env [] none).abstained .structuralEmpty true) }
    | some rows =>
      let anchor := memoryAnswerAnchorIndex env rows
      let draft := draftAnswer env (askIntent env query) rows
      if draft.answer = [] then .ok
        { retrievalCount := rows.length
          noAnswer := true
          evidence := some ((memoryAnswerTraceInit env rows (some anchor)).abstained .structuralNoExtract true) }
      else
        match reprompt env query (askIntent env query) draft with
        | none => .error
            { unavailable env rows (some anchor) with
              retrievalCount := rows.length
              answer := draft.answer
              evidenceMode := memoryAnswerModeForAnchor env rows anchor }
        | some draft =>
          .ok (concludeAnswer env (normQuery env.toEnv query) (memoryAnswerModeForAnchor env rows anchor) draft)

/-! ### Printing -/

/-- A signed number of 64 bits, as `%lld` prints it. -/
def printInt64 (id : ℤ) : Text :=
  let n := id.bmod (2 ^ 64)
  (if n < 0 then text "-" else []) ++ padded 1 n.natAbs

def citation (id : ℤ) : Text := text "#" ++ printInt64 id

/-- A citation at its place. -/
def citationPiece (c : ℤ × ℕ) : Text := (if 0 < c.2 then text ", " else []) ++ citation c.1

/-- A citation, in a buffer of so many bytes. -/
def appendCitation (cap : ℕ) (out : Text) (c : ℤ × ℕ) : Option Text :=
  if cap - out.length ≤ (citationPiece c).length then none else some (out ++ citationPiece c)

/-- `memory_render_cited_answer`. -/
def memoryRenderCitedAnswer (answer : Text) (ids : List ℤ) : Text :=
  if ids = [] then answer
  else
    match ids.zipIdx.foldlM (appendCitation (answer.length + 64 + ids.length * 28)) (answer ++ text " [") with
    | none => answer
    | some out => out ++ text "]"

/-- `memory_answer_query_scoped`. -/
def memoryAnswerQueryScoped (query : Text) (scope : Scope) (limit : ℤ) : Text :=
  match memoryAskQueryScoped env query scope limit with
  | .error r => r.error
  | .ok r =>
    if r.noAnswer then
      (if query = [] then text "No confident answer."
        else text "No confident answer for " ++ [34] ++ query ++ [34]).take 767
    else memoryRenderCitedAnswer r.answer r.citationIds

/-! ### Consistent answers -/

/-- An answer as it is printed: followed by its citations, in their order. -/
def AnswerResult.printed (r : AnswerResult) : Text :=
  r.answer ++ text " [" ++ (List.intersperse (text ", ") (r.citationIds.map citation)).flatten ++ text "]"

/-- An answer with citations, or neither of them and no confidence. -/
structure Consistent (query : Text) (rows : List Memory) (r : AnswerResult) : Prop where
  outcome : (r.noAnswer = true ∧ r.answer = [] ∧ r.citationIds = [] ∧ r.confidence = 0) ∨
    (r.noAnswer = false ∧ r.answer ≠ [] ∧ r.citationIds ≠ [])
  distinct : r.citationIds.Nodup
  found : ∀ id ∈ r.citationIds, ∃ m ∈ rows, m.id = id
  source : r.noAnswer = false → ∃ m ∈ rows, pickAnswer env (askIntent env query) rows = some (m, r.answer) ∧
    (rows.length ≤ env.maxCitations → m.id ∈ r.citationIds)

/-- Every result of an ask is consistent with the rows that the request finds, and an answer is printed as it is. -/
def AnswersConsistently (query : Text) (scope : Scope) (limit : ℤ) : Prop :=
  ∀ r, memoryAskQueryScoped env query scope limit = .ok r → ∃ rows, requestMatches env query scope limit = some rows ∧
    Consistent env query rows r ∧ (r.noAnswer = false → memoryAnswerQueryScoped env query scope limit = r.printed)

/-- The grounding of the rows that a query finds. -/
def groundingOf (query : Text) (rows : List Memory) : ℚ :=
  grounding (env.answerTerms (normQuery env.toEnv query)) rows (memoryAnswerAnchorIndex env rows)
    (abstainThreshold env) (chunkFloor env)

/-- An answer is not withdrawn: its anchor is curated, or withdrawing is off, or a row is above the floor and the
rows ground the answer, up to two hundredths where its confidence is enough. -/
def Answerable (query : Text) (rows : List Memory) : Prop :=
  memoryAnswerAnchorExempt env rows (memoryAnswerAnchorIndex env rows) ∨ abstains env = false ∨
    (chunkFloor env ≤ 0 ∨ ∃ m ∈ rows.take 16, chunkFloor env ≤ m.retrievalScore) ∧
      (abstainThreshold env ≤ groundingOf env query rows ∨
        abstainThreshold env - groundingOf env query rows < 2 / 100 ∧
          abstainThreshold env ≤ memoryAnswerConfidence env rows (memoryAnswerAnchorIndex env rows) 1 false false)

variable {env} {rows : List Memory} {anchor max : ℕ} {m : Memory}

/-! ### The anchor and its citations -/

theorem memoryAnswerAnchorIndex_lt (h : rows ≠ []) : memoryAnswerAnchorIndex env rows < rows.length := by
  have hpos : 0 < rows.length := List.length_pos_iff.2 h
  refine List.foldlRecOn _ _ (motive := fun best : ℕ × ℚ => best.1 < rows.length) hpos fun best hbest i hi => ?_
  split_ifs
  · rw [List.mem_range'_1] at hi
    simp only
    omega
  · exact hbest

theorem mem_clusterRows (h : m ∈ clusterRows rows anchor) : m ∈ rows := by
  obtain ⟨i, -, hi⟩ := List.mem_filterMap.1 h
  exact List.mem_of_getElem? hi

theorem anchor_mem_clusterRows (h : rows[anchor]? = some m) : m ∈ clusterRows rows anchor := by
  refine List.mem_filterMap.2 ⟨anchor, List.mem_filter.2 ⟨?_, ?_⟩, h⟩
  · exact List.mem_range.2 (List.getElem?_eq_some_iff.1 h).1
  · simp [memoryClusterMember, h]

theorem clusterRows_length_le : (clusterRows rows anchor).length ≤ rows.length := by
  calc (clusterRows rows anchor).length ≤ (clusterPlaces rows anchor).length := List.length_filterMap_le _ _
    _ ≤ (List.range rows.length).length := List.length_filter_le _ _
    _ = rows.length := List.length_range

/-- The rows that an answer is looked for in are those of the cluster. -/
theorem mem_answerRows : m ∈ answerRows rows anchor ↔ m ∈ clusterRows rows anchor := by
  rw [answerRows, List.mem_append, or_iff_left_iff_imp]
  intro h
  exact anchor_mem_clusterRows (Option.mem_toList.1 h)

theorem citations_nodup : (memoryCollectAnswerCitationIds rows anchor max).Nodup :=
  (Pool.nil.collect _).distinct

theorem citations_found {id : ℤ} (h : id ∈ memoryCollectAnswerCitationIds rows anchor max) : ∃ m ∈ rows, m.id = id := by
  obtain ⟨m, hm, rfl⟩ := List.mem_map.1 h
  rcases mem_collect hm with hm | hm
  · exact absurd hm List.not_mem_nil
  · exact ⟨m, mem_clusterRows (mem_answerRows.1 hm), rfl⟩

/-- There is room for the first citation, which is one of the anchor's cluster. -/
theorem anchor_cited (hmax : 0 < max) (h : anchor < rows.length) :
    memoryCollectAnswerCitationIds rows anchor max ≠ [] := by
  have hrows : answerRows rows anchor ≠ [] :=
    List.ne_nil_of_mem (mem_answerRows.2 (anchor_mem_clusterRows (List.getElem?_eq_getElem h)))
  obtain ⟨first, rest, hsplit⟩ := List.exists_cons_of_ne_nil hrows
  have hfirst : memoryAppendUnique max [] first = [first] := by simp [memoryAppendUnique, hmax]
  have hprefix : [first] <+: collect max [] (answerRows rows anchor) := by
    rw [hsplit, ← hfirst]
    exact prefix_collect max _ rest
  intro hnone
  rw [memoryCollectAnswerCitationIds, List.map_eq_nil_iff] at hnone
  exact absurd (hnone ▸ hprefix) (by simp)

/-- Where there is room for all rows, those of the cluster are cited. -/
theorem cited_of_room (hroom : rows.length ≤ max) (h : m ∈ answerRows rows anchor) :
    m.id ∈ memoryCollectAnswerCitationIds rows anchor max := by
  have hlen : ([] : List Memory).length + (clusterRows rows anchor).length ≤ max := by
    simpa using clusterRows_length_le.trans hroom
  obtain ⟨o, ho, hid⟩ := id_mem_collect hlen (mem_answerRows.1 h)
  rw [memoryCollectAnswerCitationIds, answerRows, collect, List.foldl_append, ← hid]
  exact List.mem_map_of_mem ((prefix_collect max _ _).subset ho)

/-! ### The text -/

theorem firstText_spec {give : ℤ → Text} {t : Text} (h : firstText env give rows = some (m, t)) : m ∈ rows ∧ t ≠ [] := by
  obtain ⟨o, ho, hgive⟩ := List.exists_of_findSome?_eq_some h
  split_ifs at hgive with hempty
  obtain ⟨rfl, rfl⟩ := Prod.mk.inj (Option.some.inj hgive)
  exact ⟨ho, hempty⟩

/-- An answer is taken from a row of the cluster. -/
theorem pickAnswer_spec {intent : Intent} {t : Text} (h : pickAnswer env intent rows = some (m, t)) :
    m ∈ answerRows rows (memoryAnswerAnchorIndex env rows) ∧ t ≠ [] := by
  simp only [pickAnswer, Option.or_eq_some_iff] at h
  rcases h with h | ⟨-, h | ⟨-, h | ⟨-, h⟩⟩⟩
  · exact firstText_spec h
  · split_ifs at h
    exact firstText_spec h
  · exact firstText_spec h
  · obtain ⟨a, ha, h⟩ := Option.bind_eq_some_iff.1 h
    split_ifs at h with hempty
    obtain ⟨rfl, rfl⟩ := Prod.mk.inj (Option.some.inj h)
    exact ⟨mem_answerRows.2 (anchor_mem_clusterRows ha), hempty⟩

theorem memoryPickAnswerFromCluster_eq_nil {intent : Intent} :
    memoryPickAnswerFromCluster env intent rows = [] ↔ pickAnswer env intent rows = none := by
  rw [memoryPickAnswerFromCluster]
  cases hpick : pickAnswer env intent rows with
  | none => simp
  | some picked => simpa using (pickAnswer_spec (m := picked.1) (t := picked.2) hpick).2

/-! ### Printing -/

theorem length_citation_le (id : ℤ) : (citation id).length ≤ 21 := by
  have hlow : -2 ^ 63 ≤ id.bmod (2 ^ 64) := Int.le_bmod (by norm_num)
  have hhigh : id.bmod (2 ^ 64) < 2 ^ 63 := Int.bmod_lt (by norm_num)
  have hdigits : (Nat.digits 10 (id.bmod (2 ^ 64)).natAbs).length ≤ 19 := by
    rw [Nat.digits_length_le_iff (by norm_num)]
    omega
  have hsign : (if id.bmod (2 ^ 64) < 0 then text "-" else []).length ≤ 1 := by
    split_ifs <;> decide
  rw [citation, printInt64, List.length_append, List.length_append, length_padded]
  have hhash : (text "#").length = 1 := by decide
  omega

theorem length_citationPiece_le (c : ℤ × ℕ) : (citationPiece c).length ≤ 23 := by
  have hseparator : (if 0 < c.2 then text ", " else []).length ≤ 2 := by
    split_ifs <;> decide
  have hcitation := length_citation_le c.1
  rw [citationPiece, List.length_append]
  omega

/-- A buffer with 24 bytes for each citation takes them all. -/
theorem foldlM_appendCitation {cap : ℕ} (cs : List (ℤ × ℕ)) {out : Text} (h : out.length + 24 * cs.length ≤ cap) :
    cs.foldlM (appendCitation cap) out = some (out ++ cs.flatMap citationPiece) := by
  induction cs generalizing out with
  | nil => simp
  | cons c cs ih =>
    have hpiece := length_citationPiece_le c
    rw [List.length_cons] at h
    have hroom : ¬ cap - out.length ≤ (citationPiece c).length := by omega
    have hrest : (out ++ citationPiece c).length + 24 * cs.length ≤ cap := by
      rw [List.length_append]
      omega
    rw [List.foldlM_cons, appendCitation, if_neg hroom]
    simpa using ih hrest

theorem flatten_intersperse (separator first : Text) (rest : List Text) :
    (List.intersperse separator (first :: rest)).flatten = first ++ rest.flatMap (separator ++ ·) := by
  induction rest generalizing first with
  | nil => simp
  | cons second rest ih => simp [List.intersperse_cons_cons, ih]

theorem flatMap_citationPiece (ids : List ℤ) :
    ids.zipIdx.flatMap citationPiece = (List.intersperse (text ", ") (ids.map citation)).flatten := by
  cases ids with
  | nil => rfl
  | cons id ids =>
    have hrest : ∀ k, 0 < k → (ids.zipIdx k).flatMap citationPiece = (ids.map citation).flatMap (text ", " ++ ·) := by
      induction ids with
      | nil => exact fun _ _ => rfl
      | cons id ids ih =>
        intro k hk
        rw [List.zipIdx_cons, List.flatMap_cons, ih (k + 1) (by omega), citationPiece, if_pos hk, List.map_cons,
          List.flatMap_cons]
    rw [List.map_cons, flatten_intersperse, List.zipIdx_cons, List.flatMap_cons, hrest 1 (by omega)]
    rfl

/-- **The buffer is long enough**: every citation is printed. -/
theorem memoryRenderCitedAnswer_eq (answer : Text) {ids : List ℤ} (h : ids ≠ []) : memoryRenderCitedAnswer answer ids =
    answer ++ text " [" ++ (List.intersperse (text ", ") (ids.map citation)).flatten ++ text "]" := by
  have hopen : (text " [").length = 2 := by decide
  have hroom : (answer ++ text " [").length + 24 * ids.zipIdx.length ≤ answer.length + 64 + ids.length * 28 := by
    rw [List.length_append, List.length_zipIdx]
    omega
  rw [memoryRenderCitedAnswer, if_neg h, foldlM_appendCitation _ hroom, flatMap_citationPiece]

/-! ### The judgement -/

theorem memoryAnswerConfidence_pos (h : anchor < rows.length) (citationCount : ℕ) :
    0 < memoryAnswerConfidence env rows anchor citationCount false false := by
  have hcluster : (0 : ℚ) ≤ min (max (memoryAnswerClusterScore env rows anchor) 0 / 2) 1 :=
    le_min (div_nonneg (le_max_right _ _) (by norm_num)) (by norm_num)
  have hrank : (0 : ℚ) < 1 / (anchor + 1) := by positivity
  have hsupport : (0 : ℚ) ≤ ((min rows.length 4 : ℕ) : ℚ) / 4 := by positivity
  have hcitation : (0 : ℚ) ≤ if 0 < citationCount then 1 else 35 / 100 := by split_ifs <;> norm_num
  rw [memoryAnswerConfidence, if_neg (by simpa using h)]
  simp only [Bool.false_eq_true, if_false]
  refine lt_min (lt_max_of_lt_left ?_) (by norm_num)
  linarith

/-- Any number of citations supports an answer as one does. -/
theorem memoryAnswerConfidence_cited {citationCount : ℕ} (h : 0 < citationCount) :
    memoryAnswerConfidence env rows anchor citationCount false false =
      memoryAnswerConfidence env rows anchor 1 false false := by
  simp only [memoryAnswerConfidence, if_pos h, Nat.zero_lt_one, if_true]

theorem keptCandidates_ne_nil {floor : ℚ} (h : 0 < floor) :
    keptCandidates rows floor ≠ [] ↔ ∃ m ∈ rows.take 16, floor ≤ m.retrievalScore := by
  rw [keptCandidates, Ne, List.map_eq_nil_iff, List.filter_eq_nil_iff]
  constructor
  · intro hkept
    push Not at hkept
    obtain ⟨c, hc, habove⟩ := hkept
    exact ⟨c.1, List.fst_mem_of_mem_zipIdx hc, by simpa [not_le.2 h] using habove⟩
  · rintro ⟨m, hm, habove⟩ hnone
    obtain ⟨i, hi⟩ := List.mem_iff_getElem?.1 hm
    exact hnone (m, i) (List.mk_mem_zipIdx_iff_getElem?.2 hi) (by simp [habove])

/-- A floor is only there where answers may be withdrawn. -/
theorem abstains_of_chunkFloor (h : 0 < chunkFloor env) : abstains env = true := by
  by_contra hoff
  rw [chunkFloor, if_neg hoff] at h
  exact lt_irrefl 0 h

/-- The judgement on rows that are cited. -/
theorem memoryAnswerable_abstains_iff (query : Text) {citationCount : ℕ} (hcited : 0 < citationCount) :
    (memoryAnswerable env rows (memoryAnswerAnchorIndex env rows) (env.answerTerms (normQuery env.toEnv query))
      citationCount false none (abstainThreshold env) (chunkFloor env) (abstains env)
      (memoryAnswerConfidence env rows (memoryAnswerAnchorIndex env rows) citationCount false false)).decision = .abstain ↔
      ¬ Answerable env query rows := by
  have hkept : (0 < chunkFloor env ∧ keptCandidates rows (chunkFloor env) = []) ↔
      ¬(chunkFloor env ≤ 0 ∨ ∃ m ∈ rows.take 16, chunkFloor env ≤ m.retrievalScore) := by
    rw [not_or, not_le]
    exact and_congr_right fun hpos => not_iff_not.1 (by rw [not_not]; exact keptCandidates_ne_nil hpos)
  rw [memoryAnswerConfidence_cited hcited, Answerable, groundingOf]
  simp only [memoryAnswerable, Bool.false_eq_true, false_and, if_false, hkept]
  by_cases hexempt : memoryAnswerAnchorExempt env rows (memoryAnswerAnchorIndex env rows)
  · simp [hexempt]
  · by_cases hfloor : chunkFloor env ≤ 0 ∨ ∃ m ∈ rows.take 16, chunkFloor env ≤ m.retrievalScore
    · rw [if_neg hexempt, if_neg (not_not.2 hfloor)]
      split_ifs with hlow
      · obtain ⟨hon, hlow, hdoubt⟩ := hlow
        simp only [AnswerEvidence.abstained, true_iff]
        rintro (hyes | hoff | ⟨-, hhigh | hnear⟩)
        · exact hexempt hyes
        · exact absurd (hoff.symm.trans hon) (by decide)
        · exact absurd hlow (not_lt.2 hhigh)
        · exact hdoubt hnear
      · refine iff_of_false (by simp) (not_not.2 (.inr ?_))
        rw [not_and_or, Bool.not_eq_true, not_and_or, not_lt, not_not] at hlow
        rcases hlow with hoff | hgrounded
        · exact .inl hoff
        · exact .inr ⟨hfloor, hgrounded⟩
    · have hon := abstains_of_chunkFloor (not_le.1 fun hle => hfloor (.inl hle))
      simp [AnswerEvidence.abstained, hexempt, hon, hfloor]

/-! ### Asks -/

variable {query : Text} {scope : Scope} {limit : ℤ} {intent : Intent}

theorem draftAnswer_cited (h : rows ≠ []) : (draftAnswer env intent rows).citationIds ≠ [] :=
  anchor_cited env.maxCitations.pos (memoryAnswerAnchorIndex_lt h)

/-- The second search is never made. -/
theorem reprompt_draftAnswer (h : rows ≠ []) : reprompt env query intent (draftAnswer env intent rows) =
    some (draftAnswer env intent rows) := by
  rw [reprompt, if_neg fun hmissing => draftAnswer_cited h hmissing.1]

@[simp] theorem draftAnswer_rows : (draftAnswer env intent rows).rows = rows := rfl

/-- An answer that is not withdrawn. -/
theorem concludeAnswer_answered (h : rows ≠ []) (evidenceMode : Text) (hanswerable : Answerable env query rows) :
    ∃ confidence evidence, concludeAnswer env (normQuery env.toEnv query) evidenceMode (draftAnswer env intent rows) =
      { retrievalCount := rows.length
        evidenceMode
        confidence
        evidence
        answer := (draftAnswer env intent rows).answer
        citationIds := (draftAnswer env intent rows).citationIds } := by
  have hcited : (draftAnswer env intent rows).citationIds ≠ [] := draftAnswer_cited h
  have hjudged := (memoryAnswerable_abstains_iff query (List.length_pos_iff.2 hcited)).not.2 (not_not.2 hanswerable)
  simp only [concludeAnswer, draftAnswer_rows, hcited, false_and, if_false, decide_false, if_neg hjudged]
  exact ⟨_, _, rfl⟩

/-- An answer that is withdrawn keeps the confidence that it had. -/
theorem concludeAnswer_withdrawn (h : rows ≠ []) (evidenceMode : Text) (hlow : ¬ Answerable env query rows) :
    ∃ confidence evidence, 0 < confidence ∧
      concludeAnswer env (normQuery env.toEnv query) evidenceMode (draftAnswer env intent rows) =
        { retrievalCount := rows.length
          evidenceMode
          confidence
          evidence
          noAnswer := true
          lowConfidence := true } := by
  have hcited : (draftAnswer env intent rows).citationIds ≠ [] := draftAnswer_cited h
  have hjudged := (memoryAnswerable_abstains_iff query (List.length_pos_iff.2 hcited)).2 hlow
  simp only [concludeAnswer, draftAnswer_rows, hcited, false_and, if_false, decide_false, if_pos hjudged]
  exact ⟨_, _, memoryAnswerConfidence_pos (memoryAnswerAnchorIndex_lt h) _, rfl⟩

/-- What an ask does with the rows that it finds. -/
theorem memoryAskQueryScoped_eq (hquery : query ≠ []) (hrows : requestMatches env query scope limit = some rows)
    (h : rows ≠ []) : memoryAskQueryScoped env query scope limit =
      if pickAnswer env (askIntent env query) rows = none then .ok
        { retrievalCount := rows.length
          noAnswer := true
          evidence := some ((memoryAnswerTraceInit env rows (some (memoryAnswerAnchorIndex env rows))).abstained
            .structuralNoExtract true) }
      else .ok (concludeAnswer env (normQuery env.toEnv query)
        (memoryAnswerModeForAnchor env rows (memoryAnswerAnchorIndex env rows))
        (draftAnswer env (askIntent env query) rows)) := by
  obtain ⟨m, ms, rfl⟩ := List.exists_cons_of_ne_nil h
  rw [memoryAskQueryScoped, if_neg hquery, hrows]
  simp only [reprompt_draftAnswer h]
  refine if_congr ?_ rfl rfl
  exact memoryPickAnswerFromCluster_eq_nil

theorem Consistent.of_none {r : AnswerResult} (hnone : r.noAnswer = true) (hanswer : r.answer = [])
    (hcitations : r.citationIds = []) (hconfidence : r.confidence = 0) : Consistent env query rows r where
  outcome := .inl ⟨hnone, hanswer, hcitations, hconfidence⟩
  distinct := by rw [hcitations]; exact List.nodup_nil
  found id hid := by rw [hcitations] at hid; exact absurd hid List.not_mem_nil
  source hsome := by rw [hnone] at hsome; exact absurd hsome (by decide)

theorem Consistent.of_draft {r : AnswerResult} {picked : Memory × Text} (h : rows ≠ [])
    (hpick : pickAnswer env (askIntent env query) rows = some picked) (hsome : r.noAnswer = false)
    (hanswer : r.answer = (draftAnswer env (askIntent env query) rows).answer)
    (hcitations : r.citationIds = (draftAnswer env (askIntent env query) rows).citationIds) :
    Consistent env query rows r := by
  obtain ⟨m, t⟩ := picked
  obtain ⟨hmem, htext⟩ := pickAnswer_spec hpick
  have hpicked : r.answer = t := by simp [hanswer, draftAnswer, memoryPickAnswerFromCluster, hpick]
  refine ⟨.inr ⟨hsome, hpicked ▸ htext, hcitations ▸ draftAnswer_cited h⟩, ?_, ?_, fun _ => ⟨m, ?_, ?_, ?_⟩⟩
  · rw [hcitations]
    exact citations_nodup
  · rw [hcitations]
    exact fun id hid => citations_found hid
  · exact mem_clusterRows (mem_answerRows.1 hmem)
  · rw [hpick, hpicked]
  · intro hroom
    rw [hcitations]
    exact cited_of_room hroom hmem

/-- An answer is printed with its citations. -/
theorem memoryAnswerQueryScoped_eq {r : AnswerResult} (hr : memoryAskQueryScoped env query scope limit = .ok r)
    (hsome : r.noAnswer = false) (hcited : r.citationIds ≠ []) :
    memoryAnswerQueryScoped env query scope limit = r.printed := by
  simp only [memoryAnswerQueryScoped, hr, hsome, Bool.false_eq_true, if_false]
  exact memoryRenderCitedAnswer_eq r.answer hcited

theorem pickAnswer_nil : pickAnswer env intent [] = none := by
  by_contra hsome
  obtain ⟨⟨m, t⟩, hpick⟩ := Option.ne_none_iff_exists'.1 hsome
  exact absurd (mem_clusterRows (mem_answerRows.1 (pickAnswer_spec hpick).1)) List.not_mem_nil

/-- What an ask that returns has found: no answer, or the one that it concludes. -/
theorem memoryAskQueryScoped_cases {r : AnswerResult} (hr : memoryAskQueryScoped env query scope limit = .ok r) :
    query ≠ [] ∧ ∃ rows, requestMatches env query scope limit = some rows ∧
      ((r.noAnswer = true ∧ r.answer = [] ∧ r.citationIds = [] ∧ r.confidence = 0) ∨
        (rows ≠ [] ∧ pickAnswer env (askIntent env query) rows ≠ none ∧
          r = concludeAnswer env (normQuery env.toEnv query)
            (memoryAnswerModeForAnchor env rows (memoryAnswerAnchorIndex env rows))
            (draftAnswer env (askIntent env query) rows))) := by
  by_cases hquery : query = []
  · rw [memoryAskQueryScoped, if_pos hquery] at hr
    cases hr
  · refine ⟨hquery, ?_⟩
    cases hrows : requestMatches env query scope limit with
    | none =>
      rw [memoryAskQueryScoped, if_neg hquery, hrows] at hr
      cases hr
    | some rows =>
      refine ⟨rows, rfl, ?_⟩
      by_cases hne : rows = []
      · subst hne
        rw [memoryAskQueryScoped, if_neg hquery, hrows] at hr
        cases hr
        exact .inl ⟨rfl, rfl, rfl, rfl⟩
      · rw [memoryAskQueryScoped_eq hquery hrows hne] at hr
        split_ifs at hr with hpick
        · cases hr
          exact .inl ⟨rfl, rfl, rfl, rfl⟩
        · cases hr
          exact .inr ⟨hne, hpick, rfl⟩

/-- **Answers are consistent** exactly where no answer that is found is withdrawn. -/
theorem answersConsistently_iff (env : AnswerEnv) (query : Text) (scope : Scope) (limit : ℤ) :
    AnswersConsistently env query scope limit ↔ ∀ rows, query ≠ [] →
      requestMatches env query scope limit = some rows → pickAnswer env (askIntent env query) rows ≠ none →
      Answerable env query rows := by
  constructor
  · intro hall rows hquery hrows hpick
    have hne : rows ≠ [] := by
      rintro rfl
      exact hpick pickAnswer_nil
    by_contra hlow
    have hask := memoryAskQueryScoped_eq hquery hrows hne
    obtain ⟨confidence, evidence, hpos, hresult⟩ := concludeAnswer_withdrawn hne _ hlow
    rw [if_neg hpick, hresult] at hask
    obtain ⟨found, -, hconsistent, -⟩ := hall _ hask
    rcases hconsistent.outcome with ⟨-, -, -, hzero⟩ | ⟨hsome, -, -⟩
    · exact absurd hzero hpos.ne'
    · exact absurd hsome (by simp)
  · intro hall r hr
    obtain ⟨hquery, rows, hrows, ⟨hnone, hanswer, hcitations, hconfidence⟩ | ⟨hne, hpick, hr'⟩⟩ :=
      memoryAskQueryScoped_cases hr
    · refine ⟨rows, hrows, .of_none hnone hanswer hcitations hconfidence, fun hsome => ?_⟩
      exact absurd (hsome.symm.trans hnone) (by decide)
    · obtain ⟨picked, hpicked⟩ := Option.ne_none_iff_exists'.1 hpick
      obtain ⟨confidence, evidence, hresult⟩ := concludeAnswer_answered hne
        (memoryAnswerModeForAnchor env rows (memoryAnswerAnchorIndex env rows)) (hall rows hquery hrows hpick)
      have hcited : (draftAnswer env (askIntent env query) rows).citationIds ≠ [] := draftAnswer_cited hne
      rw [hresult] at hr'
      subst hr'
      exact ⟨rows, hrows, .of_draft hne hpicked rfl rfl rfl, fun hsome => memoryAnswerQueryScoped_eq hr hsome hcited⟩

/-! ### An answer that is not grounded -/

/-- A memory about Mars. -/
def marsRow : Memory := { id := 1, key := text "mars:color", content := text "mars color is red" }

/-- The memory about Mars in tier L2, and a gate that only a perfect grounding passes. -/
def gateEnv : AnswerEnv where
  toEnv := bareEnv [marsRow]
  ranking := ⟨fun _ _ => 1, fun _ _ => 1, [], []⟩
  requestScope := none
  fields _ := { tier := text "L2", kind := text "fact" }
  eventFrame _ := none
  firstTemporalRef _ := []
  firstSummary _ := none
  answerTerms _ := [text "mars", text "color"]
  answerSize := 512
  maxCitations := 8
  traceMaxIds := 8
  configCitationsMode := text "off"
  envCitationsMode := none
  configStripUnverified := false
  envStripUnverified := none
  repromptOnMiss := false
  abstainGate := 99 / 100
  chunkMinConfidence := 0
  abstainEnabled := true

/-- The answer is withdrawn, and keeps a confidence of 0.72175. -/
theorem abstention_keeps_confidence :
    (memoryAskQueryScoped gateEnv (text "mars color") ⟨none, none⟩ 5).toOption.map
      (fun r => (r.noAnswer, r.answer, r.citationIds, r.confidence)) = some (true, [], [], 72175 / 100000) ∧
    ¬ AnswersConsistently gateEnv (text "mars color") ⟨none, none⟩ 5 := by
  have hask : (memoryAskQueryScoped gateEnv (text "mars color") ⟨none, none⟩ 5).toOption.map
      (fun r => (r.noAnswer, r.answer, r.citationIds, r.confidence)) = some (true, [], [], 72175 / 100000) := by
    decide +kernel
  refine ⟨hask, fun hall => ?_⟩
  cases hr : memoryAskQueryScoped gateEnv (text "mars color") ⟨none, none⟩ 5 with
  | error r => simp [hr, Except.toOption] at hask
  | ok r =>
    obtain ⟨rows, -, hconsistent, -⟩ := hall r hr
    simp only [hr, Except.toOption, Option.map_some, Option.some.injEq, Prod.mk.injEq] at hask
    obtain ⟨hnone, -, -, hconfidence⟩ := hask
    rcases hconsistent.outcome with ⟨-, -, -, hzero⟩ | ⟨hsome, -, -⟩
    · rw [hzero] at hconfidence
      norm_num at hconfidence
    · exact absurd (hsome.symm.trans hnone) (by decide)

end AimeeMemory.Recall
