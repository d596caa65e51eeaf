import AimeeMemory.Recall.RelativeDates
import AimeeMemory.Recall.Rerank
import AimeeMemory.Lib.Scan
import AimeeMemory.Lib.ScoreArith

/-!
# The ranker and confidence

`memory_rerank_matches` with the scores themselves: `memory_compute_score_parts` and its
bonuses, pagerank over the candidates and the rows linked to them, the reciprocal ranks, the
contradiction and the negation pass, the sort and the reported ranks.
`AimeeMemory.Recall.Rerank` has the same function with the scores as a parameter.

A row here has its confidence. The ranker gets a `RankerInput` without it; the other passes
get the whole rows.

## What is proved

* **`confidence_free`**: two runs whose candidates differ in nothing but their confidence
  give the same rows in the same order, with the same scores and ranks, but for the
  confidence.

## Honest scope

The numbers are of any type with the operations of the doubles, of which nothing is assumed;
so no rounding is idealised. What the store says of a memory is asked by its id. The bonuses
that the store's entities, speakers, dates and units give an id are functions of the id and
the query; so are the text functions of other files. A row appended for a link comes from the
store as it is, with its own confidence.
-/

namespace AimeeMemory.Recall.Ranker

open AimeeMemory.Core AimeeMemory.Lib

variable {R : Type*} [ScoreArith R]

/-- `memory_t`, what the ranker and its caller read or write of it. -/
structure Row (R : Type*) where
  id : ℤ
  kind : Text
  key : Text
  content : Text
  useCases : Text
  confidence : R
  createdAt : Text
  sourceSession : Text
  retrievalScore : R
  hybridRank : ℕ

/-- `memory_ranker_input_t`. -/
structure RankerInput where
  id : ℤ
  kind : Text
  key : Text
  content : Text
  useCases : Text

/-- `memory_ranker_input_from`. -/
def memoryRankerInputFrom (m : Row R) : RankerInput := ⟨m.id, m.kind, m.key, m.content, m.useCases⟩

/-- `memory_rank_weights_t`. -/
structure RankWeights (R : Type*) where
  lexicalKey : R
  lexicalContent : R
  lexicalLongTokenBonus : R
  coverage : R
  entity : R
  temporal : R
  evidence : R
  semantic : R
  state : R
  workflowIntent : R
  entityIntent : R
  temporalIntent : R
  salience : R
  surprise : R
  speaker : R

/-- `memory_score_parts_t`. -/
structure ScoreParts (R : Type*) where
  lexical : R
  coverage : R
  entity : R
  temporal : R
  evidence : R
  semantic : R
  state : R
  intent : R
  salience : R
  surprise : R
  pagerank : R
  graphScore : R
  total : R
  sourceFusion : R
  hybridTotal : R
  blendedTotal : R
  confidence : R

/-- All parts zero. -/
def ScoreParts.zero : ScoreParts R :=
  ⟨0.0, 0.0, 0.0, 0.0, 0.0, 0.0, 0.0, 0.0, 0.0, 0.0, 0.0, 0.0, 0.0, 0.0, 0.0, 0.0, 0.0⟩

structure PagerankConfig (R : Type*) where
  enabled : Bool
  iterations : ℕ
  weight : R
  relations : Text

/-- An expansion that graph fusion has staged. -/
structure GraphExpansion (R : Type*) where
  memoryId : ℤ
  graphScore : R

/-- The store, the configuration and the text functions. -/
structure RankerEnv (R : Type*) where
  normalizeKey : Text → Text
  queryIntent : Text → Text → Intent
  rankWeights : RankWeights R
  noLexicalMinSupport : R
  noLexicalPenalty : R
  graphWeight : R
  entityBonus : ℤ → List Text → R
  speakerBonus : ℤ → Text → R
  temporalBonus : ℤ → Intent → List Text → R
  unitGraphBonus : ℤ → List Text → R
  /-- The evidence strength and the observations of a memory. -/
  evidenceFields : ℤ → Option (R × ℕ)
  /-- Whether a memory has ended, its observations and its uses. -/
  stateFields : ℤ → Option (Bool × ℤ × ℕ)
  salienceWeight : Option R
  salience : ℤ → R
  surpriseWeight : Option R
  surprise : ℤ → R
  fusionExpansions : List (GraphExpansion R)
  pagerank : PagerankConfig R
  /-- The links of a memory, at most 64. -/
  linkQuery : ℤ → List MemoryLink
  memoryGet : ℤ → Option (Row R)
  scenesEnabled : Bool
  /-- The scenes of a memory, at most 16, with the strength of its membership. -/
  sceneMemberships : ℤ → List (ℤ × R)
  sceneMemberExists : ℤ → ℤ → Bool
  rerankIsSlow : Bool
  isContradiction : Text → Text → Bool
  /-- `memory_negation_enabled` and a negative polarity of the query. -/
  negationApplies : Text → Bool
  /-- `extract_negation_tokens`: the tokens in a buffer of so many bytes, and their number. -/
  extractNegationTokens : Text → ℕ → Text × ℕ

/-- What the candidate lanes and the vector index have found. -/
structure Hits (R : Type*) where
  semantic : List (ℤ × R)
  /-- The lanes that found a memory, one bit each. -/
  sources : List (ℤ × ℕ)

variable (env : RankerEnv R) (hits : Hits R)

/-! ## Score parts -/

/-- `memory_token_in_norm`: the token stands between blanks. Behind an occurrence that does not, the
search goes on. -/
def memoryTokenInNorm (norm token : Text) : Bool :=
  token ≠ [] && go (norm.length + 1) 0
where
  go : ℕ → ℕ → Bool
  | 0, _ => false
  | fuel + 1, i =>
    match firstIndex (fun j => token <+: norm.drop j) (norm.length + 1 - i) i with
    | none => false
    | some p =>
      ((p = 0 ∨ norm[p - 1]? = some 32) ∧ (norm[p + token.length]?).all (· = 32)) || go fuel (p + token.length)

def memoryEvidenceBonus (id : ℤ) : R :=
  match env.evidenceFields id with
  | none => 0.0
  | some (evidence, observations) =>
    if 1 < observations then evidence * 0.8 + ((observations - 1 : ℕ) : R) * 0.05 else evidence * 0.8

def memoryStatePenalty (id : ℤ) : R :=
  match env.stateFields id with
  | none => 0.0
  | some (hasValidUntil, observations, useCount) =>
    let penalty : R := if hasValidUntil then 0.0 - 1.8 else 0.0
    let penalty := if observations ≤ 1 then penalty - 0.15 else penalty
    if useCount = 0 then penalty - 0.05 else penalty

def memorySalienceBonus (id : ℤ) : R :=
  match env.salienceWeight with
  | none => 0.0
  | some weight => (env.salience id - 0.5) * weight

def memorySurpriseBonus (id : ℤ) : R :=
  match env.surpriseWeight with
  | none => 0.0
  | some weight => (env.surprise id - 0.5) * weight

def memorySemanticBonusLookup (id : ℤ) : R :=
  hits.semantic.foldl (fun best hit => if hit.1 = id ∧ best < hit.2 * 1.2 then hit.2 * 1.2 else best) 0.0

def memoryPagerankBonusLookup (scores : List (ℤ × R)) (id : ℤ) : R :=
  if id ≤ 0 then 0.0 else ((scores.find? (·.1 = id)).map (·.2)).getD 0.0

/-- The lexical part, and how many tokens of the query matched. -/
def lexicalPart (m : RankerInput) (qtokens : List Text) : R × ℕ :=
  let normKey := env.normalizeKey m.key
  let normContent := env.normalizeKey m.content
  let normUseCases := env.normalizeKey m.useCases
  qtokens.foldl (fun (lexical, matched) token =>
    let inKey := memoryTokenInNorm normKey token
    if inKey || memoryTokenInNorm normContent token || memoryTokenInNorm normUseCases token then
      let v := if inKey then env.rankWeights.lexicalKey else env.rankWeights.lexicalContent
      (lexical + (if 6 ≤ token.length then v + env.rankWeights.lexicalLongTokenBonus else v), matched + 1)
    else (lexical, matched)) (0.0, 0)

/-- `memory_compute_score_parts`. -/
def memoryComputeScoreParts (rawQuery normQuery : Text) (m : RankerInput) (pagerankScores : List (ℤ × R)) : ScoreParts R :=
  let qtokens := memorySplitTokens normQuery 32
  if qtokens = [] then .zero
  else
    let w := env.rankWeights
    let intent := env.queryIntent rawQuery normQuery
    let (lexical, matched) := lexicalPart env m qtokens
    let entity := env.entityBonus m.id qtokens * w.entity + env.speakerBonus m.id rawQuery * w.speaker
    let temporal := env.temporalBonus m.id intent qtokens * w.temporal
    let evidence := (memoryEvidenceBonus env m.id + env.unitGraphBonus m.id qtokens) * w.evidence
    let semantic := memorySemanticBonusLookup hits m.id * w.semantic
    let state := memoryStatePenalty env m.id * w.state
    let coverage := ((matched : R) / (qtokens.length : R)) * w.coverage
    let salience := memorySalienceBonus env m.id * w.salience
    let surprise := memorySurpriseBonus env m.id * w.surprise
    let pagerank := memoryPagerankBonusLookup pagerankScores m.id
    let intentPart : R :=
      if intent = .procedural ∧ m.kind = text "workflow" then 0.0 + w.workflowIntent
      else if intent = .entity ∧ (m.kind = text "fact" ∨ m.kind = text "preference") then 0.0 + w.entityIntent
      else if intent = .temporal ∧ (m.kind = text "fact" ∨ m.kind = text "episode") then 0.0 + w.temporalIntent
      else 0.0
    if matched = 0 ∧ semantic + entity + temporal + evidence < env.noLexicalMinSupport then .zero
    else
      let state := if matched = 0 then state - env.noLexicalPenalty else state
      let graphScore : R := ((env.fusionExpansions.find? (·.memoryId = m.id)).map (·.graphScore)).getD 0.0
      let total := lexical + coverage + entity + temporal + evidence + semantic + state + intentPart + salience +
        surprise + pagerank + env.graphWeight * graphScore
      -- confidence is not set here
      { lexical, coverage, entity, temporal, evidence, semantic, state, salience, surprise, pagerank, graphScore, total
        intent := intentPart, sourceFusion := 0.0, hybridTotal := 0.0, blendedTotal := 0.0, confidence := 0.0 }

/-! ## Linked rows -/

/-- `memory_find_index_by_id`. -/
def memoryFindIndexById (rows : List (Row R)) (id : ℤ) : Option ℕ :=
  if id ≤ 0 then none else rows.findIdx? (·.id = id)

/-- A link of a candidate: the row at its other end is appended where there is room for it and it is not
there yet. -/
def appendLinkedNeighbor (maxCount : ℕ) (id : ℤ) (rows : List (Row R)) (l : MemoryLink) : List (Row R) :=
  let neighbor := l.neighbor id
  if rows.length < maxCount ∧ 0 < neighbor ∧ memoryRelationAllowed env.pagerank.relations l.relation ∧
      (memoryFindIndexById rows neighbor).isNone then
    rows ++ (env.memoryGet neighbor).toList
  else rows

/-- `memory_append_linked_neighbors`. -/
def memoryAppendLinkedNeighbors (rows : List (Row R)) (maxCount : ℕ) : List (Row R) :=
  (rows.map (·.id)).foldl (fun acc id => (env.linkQuery id).foldl (appendLinkedNeighbor env maxCount id) acc) rows

/-- The weights of the links among the candidates. -/
abbrev Adjacency (R : Type*) := ℕ → ℕ → R

def Adjacency.add (a : Adjacency R) (i j : ℕ) : Adjacency R :=
  fun i' j' => if i' = i ∧ j' = j then a i' j' + 1.0 else a i' j'

def adjacency (rows : List (Row R)) : Adjacency R :=
  rows.zipIdx.foldl (fun a (m, i) =>
    (env.linkQuery m.id).foldl (fun a l =>
      match memoryFindIndexById rows (l.neighbor m.id) with
      | some j =>
        if i = j ∨ !memoryRelationAllowed env.pagerank.relations l.relation then a else (a.add i j).add j i
      | none => a) a) fun _ _ => 0.0

/-- A round of pagerank: each candidate passes its score on along its links, or to all. -/
def pagerankRound (count : ℕ) (a : Adjacency R) (scores : List R) : List R :=
  let start : List R := List.replicate count ((1.0 - 0.85) / (count : R))
  scores.zipIdx.foldl (fun next (score, i) =>
    let outDegree := (List.range count).foldl (fun sum j => sum + a i j) 0.0
    if outDegree ≤ 0.0 then next.map (· + 0.85 * score / (count : R))
    else next.mapIdx fun j x => if a i j ≤ 0.0 then x else x + 0.85 * score * (a i j / outDegree)) start

/-- `memory_compute_pagerank_scores`. -/
def memoryComputePagerankScores (rows : List (Row R)) : List (ℤ × R) :=
  let cfg := env.pagerank
  if rows.length ≤ 1 ∨ !cfg.enabled ∨ cfg.weight ≤ 0.0 ∨ 128 < rows.length then []
  else
    let scores := (pagerankRound rows.length (adjacency env rows))^[cfg.iterations]
      (List.replicate rows.length (1.0 / (rows.length : R)))
    let maxScore := scores.foldl (fun best s => if best < s then s else best) 0.0
    if maxScore ≤ 0.0 then []
    else List.zipWith (fun m s => (m.id, (s / maxScore) * cfg.weight)) rows scores

/-! ## Bonuses over the candidates -/

/-- `memory_session_cluster_bonus`. -/
def memorySessionClusterBonus (rows : List (Row R)) (m : Row R) (idx : ℕ) : R :=
  if rows.length ≤ 1 ∨ m.sourceSession = [] then 0.0
  else
    let others := (rows.eraseIdx idx).filter (·.sourceSession = m.sourceSession)
    let sameSession := others.length
    let bonus : R := if 0 < sameSession then 0.0 + ((min sameSession 3 : ℕ) : R) * 0.12 else 0.0
    let bonus := if others.any (·.kind ≠ m.kind) then bonus + 0.08 else bonus
    let bonus := if others.any (·.kind = text "episode") then bonus + 0.10 else bonus
    if m.kind = text "episode" ∧ 0 < sameSession then bonus + 0.05 else bonus

/-- A scene of the candidate: another candidate in it counts. -/
def sceneStep (env : RankerEnv R) (other : ℤ) (acc : ℕ × R) (scene : ℤ × R) : ℕ × R :=
  if acc.1 < 3 ∧ env.sceneMemberExists other scene.1 then
    (acc.1 + 1, if acc.2 < scene.2 then scene.2 else acc.2)
  else acc

/-- `memory_scene_cluster_bonus`. -/
def memorySceneClusterBonus (rows : List (Row R)) (m : Row R) (idx : ℕ) : R :=
  let memberships := env.sceneMemberships m.id
  if rows.length ≤ 1 ∨ !env.scenesEnabled ∨ memberships = [] then 0.0
  else
    let (coMembers, bestStrength) :=
      (rows.eraseIdx idx).foldl (fun acc other => memberships.foldl (sceneStep env other.id) acc) (0, 0.0)
    (coMembers : R) * 0.10 + bestStrength * 0.05

/-- `memory_source_fusion_bonus`: for the lanes that found a memory. -/
def memorySourceFusionBonus (id : ℤ) : R :=
  match hits.sources.find? (·.1 = id) with
  | none => 0.0
  | some (_, mask) =>
    let sources := (List.range 32).countP (mask.testBit ·)
    let bonus : R := if 1 < sources then 0.0 + ((sources - 1 : ℕ) : R) * 0.10 else 0.0
    -- the lanes by their bits: 0 lexical, 4 event, 7 temporal, 8 semantic, 11 graph
    let bonus := if mask.testBit 8 ∧ mask.testBit 0 then bonus + 0.18 else bonus
    let bonus := if mask.testBit 11 then bonus + 0.14 else bonus
    if mask.testBit 4 ∨ mask.testBit 7 then bonus + 0.08 else bonus

/-- `memory_rank_position`: zero where the value is below the least one. -/
def memoryRankPosition (values : List R) (idx : ℕ) (minValue : R) : ℕ :=
  match values[idx]? with
  | none => 0
  | some value =>
    if value < minValue then 0
    else 1 + (values.eraseIdx idx).countP fun v => ¬ v < minValue ∧ value + 1e-9 < v

/-- A candidate on its way through the passes. -/
structure Scored (R : Type*) where
  row : Row R
  parts : ScoreParts R
  fusionBonus : R
  phraseBonus : R
  score : R

/-- `memory_rrf_bonus`: over six signals, each with the least value that counts. -/
def memoryRrfBonus (es : List (Scored R)) (idx : ℕ) : R :=
  let signals : List ((Scored R → R) × R) :=
    [(fun e => e.parts.lexical + e.parts.coverage + e.phraseBonus, 0.30), (fun e => e.parts.semantic, 0.18),
      (fun e => e.parts.entity, 0.12), (fun e => e.parts.temporal, 0.12), (fun e => e.parts.evidence, 0.12),
      (fun e => e.fusionBonus, 0.10)]
  let sum := signals.foldl (fun sum (signal, minValue) =>
    let rank := memoryRankPosition ((es.take 128).map signal) idx minValue
    if 0 < rank then sum + 1.0 / (20.0 + (rank : R)) else sum) 0.0
  sum * 3.0

/-- `memory_phrase_bonus`. -/
def memoryPhraseBonus (rawQuery normQuery : Text) (m : RankerInput) : R :=
  let bonus : R := if normQuery ≠ [] ∧ normQuery <:+: env.normalizeKey m.key then 0.0 + 1.15 else 0.0
  let bonus := if normQuery ≠ [] ∧ normQuery <:+: env.normalizeKey m.content then bonus + 0.95 else bonus
  if rawQuery ≠ [] ∧ rawQuery <:+: m.content then bonus + 0.35 else bonus

/-- `neg_token_overlap`. -/
def negTokenOverlap (a b : Text) : ℕ :=
  ((a.take 1023).splitOn 32).countP fun token => memoryTokenInNorm b token

/-! ## The passes -/

/-- The first pass: the parts and the bonuses of a candidate. -/
def scoreRow (rawQuery normQuery : Text) (pagerankScores : List (ℤ × R)) (rows : List (Row R)) (m : Row R) (i : ℕ) :
    Scored R :=
  let parts := memoryComputeScoreParts env hits rawQuery normQuery (memoryRankerInputFrom m) pagerankScores
  let fusion := memorySourceFusionBonus hits m.id
  let fusion := if parts.total < 3.5 then fusion * 0.15 else if parts.total < 5.5 then fusion * 0.45 else fusion
  { row := m
    parts := { parts with sourceFusion := fusion }
    fusionBonus := fusion
    phraseBonus := 0.0
    score := parts.total + fusion + memorySessionClusterBonus rows m i + memorySceneClusterBonus env rows m i }

/-- The phrase bonus of the slow mode, for the first sixteen. -/
def addPhraseBonus (rawQuery normQuery : Text) (e : Scored R) (i : ℕ) : Scored R :=
  if env.rerankIsSlow ∧ i < 16 then
    let bonus := memoryPhraseBonus env rawQuery normQuery (memoryRankerInputFrom e.row)
    { e with phraseBonus := bonus, score := e.score + bonus }
  else e

/-- The reciprocal ranks, and the score that is reported. -/
def addRrf (es : List (Scored R)) (e : Scored R) (i : ℕ) : Scored R :=
  let rrf := memoryRrfBonus es i
  let score := e.score + if e.score < 3.5 then rrf * 0.35 else rrf
  { e with
    score
    parts := { e.parts with hybridTotal := score, blendedTotal := score }
    row := { e.row with retrievalScore := score, hybridRank := 0 } }

def Scored.addScore (delta : R) (e : Scored R) : Scored R := { e with score := e.score + delta }
def Scored.subScore (delta : R) (e : Scored R) : Scored R := { e with score := e.score - delta }

/-- A pair of the contradiction pass: the newer row is moved up and the older one down. -/
def contradictionStep (es : List (Scored R)) (pair : ℕ × ℕ) : List (Scored R) :=
  match es[pair.1]?, es[pair.2]? with
  | some a, some b =>
    if a.row.content ≠ [] ∧ b.row.content ≠ [] ∧ env.isContradiction a.row.content b.row.content ∧
        a.row.createdAt ≠ [] ∧ b.row.createdAt ≠ [] ∧ a.row.createdAt ≠ b.row.createdAt then
      let newer := if b.row.createdAt < a.row.createdAt then pair.1 else pair.2
      let older := if b.row.createdAt < a.row.createdAt then pair.2 else pair.1
      let gap := if b.row.createdAt < a.row.createdAt then fabs (a.score - b.score) else fabs (b.score - a.score)
      let shift := 0.18 + gap * 0.22
      es.mapIdx fun k e => if k = newer then e.addScore shift else if k = older then e.subScore shift else e
    else es
  | _, _ => es

/-- The pairs of the first `n` places. -/
def pairsBelow (n : ℕ) : List (ℕ × ℕ) := (List.range n).flatMap fun i => (List.range' (i + 1) (n - (i + 1))).map (i, ·)

/-- The negation pass: rows that negate what the query negates are moved up. -/
def addNegation (rawQuery : Text) (e : Scored R) (i : ℕ) : Scored R :=
  let (qneg, qn) := env.extractNegationTokens rawQuery 1024
  if env.negationApplies rawQuery ∧ 0 < qn ∧ qneg ≠ [] ∧ i < 32 ∧ e.row.content ≠ [] then
    let (cneg, cn) := env.extractNegationTokens ((e.row.key ++ text " " ++ e.row.content).take 3071) 2048
    let shared := negTokenOverlap qneg cneg
    if 0 < cn ∧ 0 < shared then
      let frac := (shared : R) / (qn : R)
      let frac := if 1.0 < frac then 1.0 else frac
      let boost := 3.0 * (shared : R) * (0.5 + 0.5 * frac)
      e.addScore (if 10.0 < boost then 10.0 else boost)
    else e
  else e

/-- The place of the best score from `i` on, the first one of equals. -/
def bestFrom (es : List (Scored R)) (i : ℕ) : ℕ :=
  (List.range' (i + 1) (es.length - (i + 1))).foldl (fun best j =>
    match es[best]?, es[j]? with
    | some b, some e => if b.score < e.score then j else best
    | _, _ => best) i

/-- A round of the sort: the best trades places with the entry at `i`. -/
def sortRound (es : List (Scored R)) (i : ℕ) : List (Scored R) :=
  match es[i]?, es[bestFrom es i]? with
  | some a, some b => (es.set i b).set (bestFrom es i) a
  | _, _ => es

/-- Confidence is attached, for display, once the order is fixed. -/
def attachConfidence (e : Scored R) : Scored R := { e with parts := { e.parts with confidence := e.row.confidence } }

/-- The ranks that are reported: one more than the number of rows with a higher score. -/
def reportRanks (rows : List (Row R)) : List (Row R) :=
  rows.mapIdx fun i m =>
    { m with hybridRank := 1 + (rows.eraseIdx i).countP fun o => m.retrievalScore < o.retrievalScore }

/-- The passes over the candidates, the sort last. -/
def rankedRows (rawQuery normQuery : Text) (rows : List (Row R)) : List (Scored R) :=
  let pagerankScores := memoryComputePagerankScores env rows
  let es := rows.mapIdx fun i m => scoreRow env hits rawQuery normQuery pagerankScores rows m i
  let es := es.mapIdx fun i e => addPhraseBonus env rawQuery normQuery e i
  let es := es.mapIdx fun i e => addRrf es e i
  let es := (pairsBelow (min es.length 16)).foldl (contradictionStep env) es
  let es := es.mapIdx fun i e => addNegation env rawQuery e i
  (List.range (es.length - 1)).foldl sortRound es

/-- The query that the parts are computed for. -/
def normQueryOf (rawQuery : Text) : Text :=
  let norm := (env.normalizeKey rawQuery).take 511
  if norm = [] then rawQuery.take 511 else norm

/-- The first 128 candidates, with the rows linked to them where pagerank is on. -/
def candidatesOf (rows : List (Row R)) : List (Row R) :=
  let rows := rows.take 128
  if env.pagerank.enabled then memoryAppendLinkedNeighbors env rows 128 else rows

/-- What is reported of the sorted candidates: the rows, the parts of their scores, and their number. -/
def reported (es : List (Scored R)) (limit : ℤ) : List (Row R) × List (ScoreParts R) × ℤ :=
  (reportRanks ((es.map attachConfidence).map (·.row)), (es.map attachConfidence).map (·.parts), min es.length limit)

/-- `memory_rerank_matches`. Without a query, and with a single candidate, nothing is ranked. -/
def memoryRerankMatches (rawQuery : Option Text) (rows : List (Row R)) (limit : ℤ) :
    List (Row R) × List (ScoreParts R) × ℤ :=
  match rawQuery with
  | none => (rows, [], min rows.length limit)
  | some rawQuery =>
    if rows.length ≤ 1 then (rows, [], min rows.length limit)
    else reported (rankedRows env hits rawQuery (normQueryOf env rawQuery) (candidatesOf env rows)) limit

/-! ## Without confidence -/

/-- A row but for its confidence. -/
def Row.blind (m : Row R) : Row R := { m with confidence := 0.0 }

def Scored.blind (e : Scored R) : Scored R := { e with row := e.row.blind }

def ScoreParts.blind (p : ScoreParts R) : ScoreParts R := { p with confidence := 0.0 }

/-- The same rows but for their confidence. -/
def SameButConfidence (rows rows' : List (Row R)) : Prop := rows.map Row.blind = rows'.map Row.blind

variable {env hits} {rows rows' : List (Row R)} {es : List (Scored R)}

theorem memoryFindIndexById_blind (rows : List (Row R)) (id : ℤ) :
    memoryFindIndexById (rows.map Row.blind) id = memoryFindIndexById rows id := by
  simp only [memoryFindIndexById, List.findIdx?_map]
  rfl

theorem SameButConfidence.length_eq (h : SameButConfidence rows rows') : rows.length = rows'.length := by
  simpa using congrArg List.length h

theorem SameButConfidence.findIndex_eq (h : SameButConfidence rows rows') (id : ℤ) :
    memoryFindIndexById rows id = memoryFindIndexById rows' id := by
  rw [← memoryFindIndexById_blind rows, h, memoryFindIndexById_blind]

/-- A linked row is appended in both runs or in neither, and it is the store's. -/
theorem SameButConfidence.appendLinkedNeighbor (h : SameButConfidence rows rows') (maxCount : ℕ) (id : ℤ) (l : MemoryLink) :
    SameButConfidence (appendLinkedNeighbor env maxCount id rows l) (appendLinkedNeighbor env maxCount id rows' l) := by
  simp only [Ranker.appendLinkedNeighbor, h.length_eq, h.findIndex_eq]
  split
  · rw [SameButConfidence, List.map_append, List.map_append, h]
  · exact h

theorem SameButConfidence.foldl_links (h : SameButConfidence rows rows') (maxCount : ℕ) (id : ℤ) (ls : List MemoryLink) :
    SameButConfidence (ls.foldl (Ranker.appendLinkedNeighbor env maxCount id) rows)
      (ls.foldl (Ranker.appendLinkedNeighbor env maxCount id) rows') := by
  induction ls generalizing rows rows' with
  | nil => exact h
  | cons l ls ih => exact ih (h.appendLinkedNeighbor maxCount id l)

theorem SameButConfidence.foldl_ids (h : SameButConfidence rows rows') (maxCount : ℕ) (ids : List ℤ) :
    SameButConfidence
      (ids.foldl (fun acc id => (env.linkQuery id).foldl (Ranker.appendLinkedNeighbor env maxCount id) acc) rows)
      (ids.foldl (fun acc id => (env.linkQuery id).foldl (Ranker.appendLinkedNeighbor env maxCount id) acc) rows') := by
  induction ids generalizing rows rows' with
  | nil => exact h
  | cons id ids ih => exact ih (h.foldl_links maxCount id _)

theorem SameButConfidence.ids_eq (h : SameButConfidence rows rows') : rows.map (·.id) = rows'.map (·.id) := by
  have hids := congrArg (List.map Row.id) h
  rwa [List.map_map, List.map_map] at hids

theorem SameButConfidence.memoryAppendLinkedNeighbors (h : SameButConfidence rows rows') (maxCount : ℕ) :
    SameButConfidence (memoryAppendLinkedNeighbors env rows maxCount) (memoryAppendLinkedNeighbors env rows' maxCount) := by
  rw [Ranker.memoryAppendLinkedNeighbors, Ranker.memoryAppendLinkedNeighbors, ← h.ids_eq]
  exact h.foldl_ids maxCount _

/-! ### The passes commute with blinding -/

theorem adjacency_blind (rows : List (Row R)) : adjacency env (rows.map Row.blind) = adjacency env rows := by
  simp only [adjacency, List.zipIdx_map, List.foldl_map, memoryFindIndexById_blind]
  rfl

theorem memoryComputePagerankScores_blind (rows : List (Row R)) :
    memoryComputePagerankScores env (rows.map Row.blind) = memoryComputePagerankScores env rows := by
  simp only [memoryComputePagerankScores, List.length_map, adjacency_blind, List.zipWith_map_left]
  rfl

theorem memorySessionClusterBonus_blind (rows : List (Row R)) (m : Row R) (i : ℕ) :
    memorySessionClusterBonus (rows.map Row.blind) m.blind i = memorySessionClusterBonus rows m i := by
  simp only [memorySessionClusterBonus, List.length_map, List.eraseIdx_map, List.filter_map, List.any_map]
  rfl

theorem memorySceneClusterBonus_blind (rows : List (Row R)) (m : Row R) (i : ℕ) :
    memorySceneClusterBonus env (rows.map Row.blind) m.blind i = memorySceneClusterBonus env rows m i := by
  simp only [memorySceneClusterBonus, List.length_map, List.eraseIdx_map, List.foldl_map]
  rfl

theorem scoreRow_blind (rawQuery normQuery : Text) (ps : List (ℤ × R)) (rows : List (Row R)) (m : Row R) (i : ℕ) :
    scoreRow env hits rawQuery normQuery ps (rows.map Row.blind) m.blind i =
      (scoreRow env hits rawQuery normQuery ps rows m i).blind := by
  simp only [scoreRow, memorySessionClusterBonus_blind, memorySceneClusterBonus_blind]
  rfl

theorem addPhraseBonus_blind (rawQuery normQuery : Text) (e : Scored R) (i : ℕ) :
    addPhraseBonus env rawQuery normQuery e.blind i = (addPhraseBonus env rawQuery normQuery e i).blind := by
  simp only [addPhraseBonus]
  split <;> rfl

theorem memoryRrfBonus_blind (es : List (Scored R)) (i : ℕ) : memoryRrfBonus (es.map Scored.blind) i = memoryRrfBonus es i := by
  simp only [memoryRrfBonus, ← List.map_take, List.map_map]
  rfl

theorem addRrf_blind (es : List (Scored R)) (e : Scored R) (i : ℕ) :
    addRrf (es.map Scored.blind) e.blind i = (addRrf es e i).blind := by
  simp only [addRrf, memoryRrfBonus_blind]
  rfl

theorem addNegation_blind (rawQuery : Text) (e : Scored R) (i : ℕ) :
    addNegation env rawQuery e.blind i = (addNegation env rawQuery e i).blind := by
  simp only [addNegation, apply_ite Scored.blind]
  rfl

/-- A pass over each entry commutes with blinding where it does for each entry. -/
theorem mapIdx_blind {α β : Type*} {f : α → α} {g : β → β} {pass pass' : ℕ → α → β} (xs : List α)
    (h : ∀ i x, pass' i (f x) = g (pass i x)) : (xs.map f).mapIdx pass' = (xs.mapIdx pass).map g := by
  refine List.ext_getElem (by simp) fun i h₁ h₂ => ?_
  simp [h]

theorem contradictionStep_blind (es : List (Scored R)) (pair : ℕ × ℕ) :
    contradictionStep env (es.map Scored.blind) pair = (contradictionStep env es pair).map Scored.blind := by
  simp only [contradictionStep, List.getElem?_map]
  cases es[pair.1]? with
  | none => rfl
  | some a =>
    cases es[pair.2]? with
    | none => rfl
    | some b =>
      simp only [Option.map_some, apply_ite (List.map Scored.blind)]
      -- what a pair is decided on and shifted by is no confidence
      refine ite_congr rfl (fun _ => ?_) fun _ => rfl
      refine mapIdx_blind es fun k e => ?_
      simp only [apply_ite Scored.blind]
      rfl

theorem foldl_contradictionStep_blind (pairs : List (ℕ × ℕ)) (es : List (Scored R)) :
    pairs.foldl (contradictionStep env) (es.map Scored.blind) = (pairs.foldl (contradictionStep env) es).map Scored.blind := by
  induction pairs generalizing es with
  | nil => rfl
  | cons pair pairs ih => rw [List.foldl_cons, List.foldl_cons, contradictionStep_blind, ih]

theorem bestFrom_blind (es : List (Scored R)) (i : ℕ) : bestFrom (es.map Scored.blind) i = bestFrom es i := by
  simp only [bestFrom, List.length_map, List.getElem?_map]
  congr 1
  funext best j
  cases es[best]? <;> cases es[j]? <;> rfl

theorem sortRound_blind (es : List (Scored R)) (i : ℕ) :
    sortRound (es.map Scored.blind) i = (sortRound es i).map Scored.blind := by
  simp only [sortRound, bestFrom_blind, List.getElem?_map]
  cases es[i]? with
  | none => rfl
  | some a =>
    cases es[bestFrom es i]? with
    | none => rfl
    | some b => simp only [Option.map_some, List.map_set]

theorem foldl_sortRound_blind (is : List ℕ) (es : List (Scored R)) :
    is.foldl sortRound (es.map Scored.blind) = (is.foldl sortRound es).map Scored.blind := by
  induction is generalizing es with
  | nil => rfl
  | cons i is ih => rw [List.foldl_cons, List.foldl_cons, sortRound_blind, ih]

theorem reportRanks_blind (rows : List (Row R)) : reportRanks (rows.map Row.blind) = (reportRanks rows).map Row.blind := by
  rw [reportRanks]
  refine mapIdx_blind rows fun i m => ?_
  simp only [List.eraseIdx_map, List.countP_map]
  rfl

theorem rankedRows_blind (rawQuery normQuery : Text) (rows : List (Row R)) :
    rankedRows env hits rawQuery normQuery (rows.map Row.blind) =
      (rankedRows env hits rawQuery normQuery rows).map Scored.blind := by
  have hscored : ∀ ps, (rows.map Row.blind).mapIdx
        (fun i m => scoreRow env hits rawQuery normQuery ps (rows.map Row.blind) m i) =
      (rows.mapIdx fun i m => scoreRow env hits rawQuery normQuery ps rows m i).map Scored.blind :=
    fun ps => mapIdx_blind rows fun i m => scoreRow_blind rawQuery normQuery ps rows m i
  have hphrased : ∀ es : List (Scored R), (es.map Scored.blind).mapIdx
        (fun i e => addPhraseBonus env rawQuery normQuery e i) =
      (es.mapIdx fun i e => addPhraseBonus env rawQuery normQuery e i).map Scored.blind :=
    fun es => mapIdx_blind es fun i e => addPhraseBonus_blind rawQuery normQuery e i
  have hfused : ∀ es : List (Scored R), (es.map Scored.blind).mapIdx (fun i e => addRrf (es.map Scored.blind) e i) =
      (es.mapIdx fun i e => addRrf es e i).map Scored.blind :=
    fun es => mapIdx_blind es fun i e => addRrf_blind es e i
  have hnegated : ∀ es : List (Scored R), (es.map Scored.blind).mapIdx (fun i e => addNegation env rawQuery e i) =
      (es.mapIdx fun i e => addNegation env rawQuery e i).map Scored.blind :=
    fun es => mapIdx_blind es fun i e => addNegation_blind rawQuery e i
  simp only [rankedRows, memoryComputePagerankScores_blind, hscored, hphrased, hfused, List.length_map,
    foldl_contradictionStep_blind, hnegated, foldl_sortRound_blind]

variable (env hits) in
theorem SameButConfidence.rankedRows (h : SameButConfidence rows rows') (rawQuery normQuery : Text) :
    (Ranker.rankedRows env hits rawQuery normQuery rows).map Scored.blind =
      (Ranker.rankedRows env hits rawQuery normQuery rows').map Scored.blind := by
  rw [← rankedRows_blind, h, rankedRows_blind]

variable (env) in
/-- What is ranked is the same but for the confidence, and so is what is appended. -/
theorem SameButConfidence.candidatesOf (h : SameButConfidence rows rows') :
    SameButConfidence (Ranker.candidatesOf env rows) (Ranker.candidatesOf env rows') := by
  have htake : SameButConfidence (rows.take 128) (rows'.take 128) := by
    rw [SameButConfidence, List.map_take, List.map_take, h]
  simp only [Ranker.candidatesOf]
  split
  · exact htake.memoryAppendLinkedNeighbors 128
  · exact htake

/-- The same rows, parts and number but for the confidence. -/
def SameReport (run run' : List (Row R) × List (ScoreParts R) × ℤ) : Prop :=
  SameButConfidence run.1 run'.1 ∧ run.2.1.map ScoreParts.blind = run'.2.1.map ScoreParts.blind ∧ run.2.2 = run'.2.2

theorem reported_blind {es' : List (Scored R)} (h : es.map Scored.blind = es'.map Scored.blind) (limit : ℤ) :
    SameReport (reported es limit) (reported es' limit) := by
  have hrows : SameButConfidence ((es.map attachConfidence).map (·.row)) ((es'.map attachConfidence).map (·.row)) := by
    have hrow := congrArg (List.map Scored.row) h
    simp only [List.map_map] at hrow
    simp only [SameButConfidence, List.map_map]
    exact hrow
  refine ⟨?_, ?_, ?_⟩
  · simp only [reported, SameButConfidence]
    rw [← reportRanks_blind, hrows, reportRanks_blind]
  · have hparts := congrArg (List.map fun e : Scored R => e.parts.blind) h
    simp only [List.map_map] at hparts
    simp only [reported, List.map_map]
    exact hparts
  · have hlength := congrArg List.length h
    rw [List.length_map, List.length_map] at hlength
    simp only [reported, hlength]

/-- The order, the scores and the ranks of a report. -/
theorem SameButConfidence.ranks_eq (h : SameButConfidence rows rows') :
    rows.map (fun m => (m.id, m.retrievalScore, m.hybridRank)) =
      rows'.map (fun m => (m.id, m.retrievalScore, m.hybridRank)) := by
  have hranks := congrArg (List.map fun m : Row R => (m.id, m.retrievalScore, m.hybridRank)) h
  rwa [List.map_map, List.map_map] at hranks

/-- **Two runs whose candidates differ in nothing but their confidence rank alike**: the same rows come out in the
same order, with the same scores and ranks, and everything else in the report is the same but for the confidence. -/
theorem confidence_free (h : SameButConfidence rows rows') (rawQuery : Option Text) (limit : ℤ) :
    (memoryRerankMatches env hits rawQuery rows limit).1.map (fun m => (m.id, m.retrievalScore, m.hybridRank)) =
        (memoryRerankMatches env hits rawQuery rows' limit).1.map (fun m => (m.id, m.retrievalScore, m.hybridRank)) ∧
      SameReport (memoryRerankMatches env hits rawQuery rows limit) (memoryRerankMatches env hits rawQuery rows' limit) := by
  suffices hsame : SameReport (memoryRerankMatches env hits rawQuery rows limit)
      (memoryRerankMatches env hits rawQuery rows' limit) from ⟨hsame.1.ranks_eq, hsame⟩
  cases rawQuery with
  | none => exact ⟨h, rfl, by simp only [memoryRerankMatches, h.length_eq]⟩
  | some rawQuery =>
    by_cases hshort : rows.length ≤ 1
    · have hshort' : rows'.length ≤ 1 := h.length_eq ▸ hshort
      simp only [memoryRerankMatches, if_pos hshort', h.length_eq]
      exact ⟨h, rfl, rfl⟩
    · have hshort' : ¬ rows'.length ≤ 1 := h.length_eq ▸ hshort
      simp only [memoryRerankMatches, if_neg hshort, if_neg hshort']
      exact reported_blind ((h.candidatesOf env).rankedRows env hits rawQuery _) limit

namespace Sample

/-- A store that knows nothing about its rows but their texts. -/
def store : RankerEnv ℚ where
  normalizeKey := id
  queryIntent _ _ := .general
  rankWeights := ⟨2.2, 1.25, 0.55, 1.35, 1.0, 1.0, 1.0, 1.0, 1.0, 0.45, 0.35, 0.6, 1.0, 1.0, 1.0⟩
  noLexicalMinSupport := 0.85
  noLexicalPenalty := 0.4
  graphWeight := 0.30
  entityBonus _ _ := 0
  speakerBonus _ _ := 0
  temporalBonus _ _ _ := 0
  unitGraphBonus _ _ := 0
  evidenceFields _ := none
  stateFields _ := none
  salienceWeight := none
  salience _ := 0
  surpriseWeight := none
  surprise _ := 0
  fusionExpansions := []
  pagerank := ⟨false, 0, 0, []⟩
  linkQuery _ := []
  memoryGet _ := none
  scenesEnabled := false
  sceneMemberships _ := []
  sceneMemberExists _ _ := false
  rerankIsSlow := false
  isContradiction _ _ := false
  negationApplies _ := false
  extractNegationTokens _ _ := ([], 0)

def row (id : ℤ) (content : String) (confidence : ℚ) : Row ℚ where
  id
  kind := text "fact"
  key := text "deploy"
  content := text content
  useCases := []
  confidence
  createdAt := []
  sourceSession := []
  retrievalScore := 0
  hybridRank := 0

/-- Two rows of these confidences. -/
def twoRows (c c' : ℚ) : List (Row ℚ) := [row 1 "the host" c, row 2 "the port" c']

end Sample

/-- Two rows trade their confidences. -/
theorem confidence_free_traded :
    (memoryRerankMatches Sample.store ⟨[], []⟩ (some (text "port")) (Sample.twoRows 0.9 0.1) 10).1.map
        (fun m => (m.id, m.retrievalScore, m.hybridRank)) =
      (memoryRerankMatches Sample.store ⟨[], []⟩ (some (text "port")) (Sample.twoRows 0.1 0.9) 10).1.map
        (fun m => (m.id, m.retrievalScore, m.hybridRank)) := by
  have htraded : SameButConfidence (Sample.twoRows 0.9 0.1) (Sample.twoRows 0.1 0.9) := rfl
  exact (confidence_free htraded (some (text "port")) 10).1

end AimeeMemory.Recall.Ranker
