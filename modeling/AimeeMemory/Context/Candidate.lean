import AimeeMemory.Context.World

/-!
# Candidates of a task

The candidates of a task-aware context: their scores, the two orders, and the confidence in
what was retrieved. The assembly and its explain pass each score the candidates; both scores
are here.
-/

namespace AimeeMemory.Context

open AimeeMemory.Core AimeeMemory.Lib

variable {R : Type*} [ScoreArith R] (b : Build R) (w : World R)

/-- `memory_tier_priority`. -/
def memoryTierPriority (tier : Text) : ℤ :=
  if tier = text "L5" then 5
  else if tier = text "L4" then 4
  else if tier = text "L3" then 3
  else if tier = text "L2" then 2
  else if tier = text "L1" then 1
  else 0

/-- `compute_term_overlap`. -/
def computeTermOverlap (terms : List Text) (t : Text) : R :=
  if terms = [] then 0.0
  else ((terms.countP fun term => term <:+: lowered (t.take 2559) : ℕ) : R) / (terms.length : R)

/-- `compute_graph_score`. -/
def computeGraphScore (boosts : List (Text × R)) (key content : Text) : R :=
  boosts.foldl (fun boost (entity, score) =>
    let boost := if entity <:+: key then boost + score * 0.1 else boost
    if entity <:+: content then boost + score * 0.1 else boost) 0.0

/-- What a candidate has whatever its score. -/
def candidateOf (labels : Text × Text) (row : CandRow R) : Candidate R where
  id := row.id
  tier := row.tier
  key := row.key
  content := row.content
  kind := row.kind
  confidence := row.confidence
  useCount := row.useCount
  scope := w.primaryScope row.id
  scopeRank := w.scopeVisibilityRank row.id labels.1 labels.2
  tierPriority := memoryTierPriority row.tier
  score := 0.0
  scorePerToken := 0.0
  estimatedTokens := (row.key.length + row.content.length) / 4 + 1

def Candidate.scored (c : Candidate R) (score : R) : Candidate R :=
  { c with score, scorePerToken := score / (c.estimatedTokens : R) }

/-- The base of a score. -/
def baseScore (row : CandRow R) : R :=
  let base := row.confidence * 0.3 + ((row.useCount : R) / 10.0) * 0.2
  if 0.5 < base then 0.5 else base

/-- The overlap of the key or of the content, the greater one. -/
def overlapScore (terms : List Text) (row : CandRow R) : R :=
  let keyOverlap : R := computeTermOverlap terms row.key
  let contentOverlap : R := computeTermOverlap terms row.content
  if contentOverlap < keyOverlap then keyOverlap else contentOverlap

/-- The boosts of the graph for the terms of a hint. -/
def boostsFor (terms : List Text) : List (Text × R) := if terms = [] then [] else w.graphBoost terms

/-- The part of a score for the candidate's memory alone. -/
def relevance (terms : List Text) (row : CandRow R) : R :=
  baseScore row + overlapScore terms row * 0.3 + computeGraphScore (boostsFor w terms) row.key row.content * 0.2

/-- The bonus of a memory that speaks of a time, where the hint does. -/
def temporalBonus (temporalQuery : Bool) (row : CandRow R) : Option R :=
  if temporalQuery ∧ hasTemporalMarkers row.content then some 0.15
  else if temporalQuery ∧ hasTemporalMarkers row.key then some 0.10
  else none

/-- The scope and the tier of a candidate, added to its score. -/
def Candidate.placed (c : Candidate R) (score : R) : R := score + (c.scopeRank : R) * 0.05 + (c.tierPriority : R) * 0.03

/-- A primary candidate of the assembly. -/
def primaryCandidate (labels : Text × Text) (terms : List Text) (temporalQuery : Bool) (row : CandRow R) : Candidate R :=
  let c := candidateOf w labels row
  let score := relevance w terms row
  c.scored (c.placed (match temporalBonus temporalQuery row with
    | some bonus => score + bonus
    | none => score))

/-- A candidate of the fallback fetch. -/
def fallbackCandidate (labels : Text × Text) (terms : List Text) (row : CandRow R) : Candidate R :=
  let c := candidateOf w labels row
  c.scored (c.placed (row.confidence * 0.3 + overlapScore terms row * 0.3 + ((row.useCount : R) / 10.0) * 0.2))

/-- A candidate of the explain pass: it has no bonus for a time. -/
def explainCandidate (labels : Text × Text) (terms : List Text) (row : CandRow R) : Candidate R :=
  let c := candidateOf w labels row
  c.scored (c.placed (relevance w terms row))

/-! ## The orders -/

/-- The greater one first. -/
def descending (x y : R) (otherwise : ℤ) : ℤ := if x < y then 1 else if y < x then -1 else otherwise

/-- `cmp_candidates`. -/
def cmpCandidates (a c : Candidate R) : ℤ :=
  if c.scopeRank ≠ a.scopeRank then c.scopeRank - a.scopeRank
  else if c.tierPriority ≠ a.tierPriority then c.tierPriority - a.tierPriority
  else descending a.score c.score (descending a.scorePerToken c.scorePerToken 0)

/-- `cmp_candidates_by_density`. -/
def cmpCandidatesByDensity (a c : Candidate R) : ℤ :=
  if c.scopeRank ≠ a.scopeRank then c.scopeRank - a.scopeRank
  else if c.tierPriority ≠ a.tierPriority then c.tierPriority - a.tierPriority
  else descending a.scorePerToken c.scorePerToken (descending a.score c.score 0)

/-- The candidates in the order of the mode. -/
def sortCandidates (cands : List (Candidate R)) : List (Candidate R) :=
  if 1 < cands.length then
    b.qsort (if w.contextBudgetEnabled then cmpCandidatesByDensity else cmpCandidates) cands
  else cands

/-! ## The confidence in what was retrieved -/

def coverageStopwords : List String :=
  ["a", "an", "the", "is", "in", "on", "at", "to", "for", "of", "and", "or", "but", "it", "its", "was", "are", "be",
    "been", "has", "have", "had", "do", "does", "did", "will", "would", "could", "should", "may", "might", "me", "my",
    "we", "us", "our", "you", "your", "he", "she", "they", "them", "what", "when", "where", "who", "how", "why",
    "which", "that", "this"]

/-- `is_coverage_stopword`. -/
def isCoverageStopword (word : Text) : Bool := coverageStopwords.any fun s => text s = lowered word

/-- `retrieval_confidence_t`. -/
structure RetrievalConfidence (R : Type*) where
  coverage : R
  separation : R
  score : R
  belowThreshold : Bool

/-- Whether one of the first ten candidates has the term. -/
def covers (cands : List (Candidate R)) (term : Text) : Bool :=
  (cands.take 10).any fun c =>
    lowered (term.take 127) <:+: lowered (c.key.take 511) ∨ lowered (term.take 127) <:+: lowered (c.content.take 2047)

/-- The gap between the first score and the third, or the second where there are two. -/
def separationOf (cands : List (Candidate R)) : R :=
  match cands with
  | top :: second :: rest =>
    let ref := (rest.head?.getD second).score
    let gap := top.score - ref
    if 1e-9 < top.score then if gap / top.score < 1.0 then gap / top.score else 1.0 else 0.0
  | _ => 0.5

/-- `memory_retrieval_confidence`. -/
def memoryRetrievalConfidence (terms : List Text) (cands : List (Candidate R)) (threshold : R) : RetrievalConfidence R :=
  if terms = [] ∨ cands = [] then ⟨0.0, 0.0, 0.0, (0.0 : R) < threshold⟩
  else
    let significant := terms.filter fun term => 3 ≤ term.length ∧ !isCoverageStopword term
    let coverage : R :=
      if significant = [] then 0.0
      else ((significant.countP (covers cands) : ℕ) : R) / (significant.length : R)
    let separation := separationOf cands
    let score := 0.6 * coverage + 0.4 * separation
    ⟨coverage, separation, score, score < if 0.0 < threshold then threshold else 0.35⟩

end AimeeMemory.Context
