import AimeeMemory.Context.Markup
import AimeeMemory.Lib.Draft

/-!
# What the assembly reads

The rows that the store answers with, the configuration, and what else the context is made
of: `World` is all that an assembly reads and that can change from one call to the next,
`Build` the constants and the library functions that cannot.
-/

namespace AimeeMemory.Context

open AimeeMemory.Core AimeeMemory.Lib

/-- `db2_memory_kv_row_t`. -/
structure KvRow where
  key : Text
  content : Text
  deriving DecidableEq, Repr

/-- `db2_memory_id_kv_row_t`. -/
structure IdKvRow where
  id : ℤ
  key : Text
  content : Text
  deriving DecidableEq, Repr

/-- `db2_memory_key_fact_row_t`. -/
structure KeyFactRow where
  id : ℤ
  key : Text
  content : Text
  supersedeDate : Text
  provenance : Text
  deriving DecidableEq, Repr

/-- `graph_related_t`. -/
structure GraphRelated where
  key : Text
  content : Text
  deriving DecidableEq, Repr

/-- `db2_memory_cand_row_t`. -/
structure CandRow (R : Type*) where
  id : ℤ
  tier : Text
  key : Text
  content : Text
  kind : Text
  confidence : R
  useCount : ℤ

/-- `db2_memory_supersede_pair_t`. -/
structure SupersedePair (R : Type*) where
  oldId : ℤ
  oldContent : Text
  oldConfidence : R
  validUntil : Text
  newContent : Text
  newConfidence : R

/-- `anti_pattern_t`. -/
structure AntiPattern (R : Type*) where
  pattern : Text
  description : Text
  confidence : R

/-- `edge_t`. -/
structure Edge where
  source : Text
  relation : Text
  target : Text
  deriving DecidableEq, Repr

/-- `memory_relation_t`. -/
structure MemoryRelation where
  srcEntity : Text
  relation : Text
  dstEntity : Text
  factText : Text
  deriving DecidableEq, Repr

/-- `db2_memory_artifact_row_t`. -/
structure ArtifactRow where
  id : ℤ
  artifactType : Text
  artifactRef : Text
  artifactHash : Text
  deriving DecidableEq, Repr

inductive KvSection where
  | activeTasks
  | recentContext
  | constraints
  | procedures
  | failureWarnings
  deriving DecidableEq, Repr

inductive WsSection where
  | keyFacts
  | activeTasks
  | recentContext
  | constraints
  | procedures
  | crossWorkspace
  deriving DecidableEq, Repr

inductive CandSource where
  | primary
  | fallback
  deriving DecidableEq, Repr

/-- `context_candidate_t`. -/
structure Candidate (R : Type*) where
  id : ℤ
  tier : Text
  key : Text
  content : Text
  kind : Text
  confidence : R
  useCount : ℤ
  scope : Text
  scopeRank : ℤ
  tierPriority : ℤ
  score : R
  scorePerToken : R
  estimatedTokens : ℕ

/-- The text of a candidate. -/
def Candidate.shown {R : Type*} (c : Candidate R) : Text := if c.content = [] then c.key else c.content

/-- What the assembly reads: the store, the configuration, and where and when it runs. -/
structure World (R : Type*) where
  globalConstraints : List KvRow
  keyFacts : List KeyFactRow
  kvSection : KvSection → List KvRow
  wsSection : WsSection → List IdKvRow
  dependsOnKeys : ℤ → List Text
  episodeCards : List Text
  candidates : CandSource → List (CandRow R)
  supersedeLookup : ℤ → Option (SupersedePair R)
  antiPatterns : List (AntiPattern R)
  topTriples : List Edge
  relationsSupporting : Text → List MemoryRelation
  graphBoost : List Text → List (Text × R)
  graphRelated : List Text → ℕ → List GraphRelated
  /-- The facts derived for a query from the memories of these ids, as JSON, where there are any. -/
  derivedFacts : Text → List ℤ → Option Text
  scopeVisibilityRank : ℤ → Text → Text → ℤ
  primaryScope : ℤ → Text
  /-- The workspace and the project of the working directory, under a workspace hint. -/
  scopeLabelsForCwd : Text → Text × Text
  /-- The pairs of near vectors among these ids. -/
  vectorNearDuplicates : List ℤ → List (ℤ × ℤ)
  artifacts : List ArtifactRow
  readFile : Text → Option Text
  memoryCountAndMaxUpdated : Option (ℤ × Text)
  rulesSignature : Text
  scopeActive : Bool
  /-- `AIMEE_NO_CACHE` is set. -/
  noCache : Bool
  contextBudgetEnabled : Bool
  contextBudgetTokens : ℤ
  failureDetectionEnabled : Bool
  failureDetectionThreshold : R
  abstainEnabled : Bool
  abstainGate : R
  deriveFactsEnabled : Bool
  directivesEnabled : Bool

/-- The constants of the build, and the library functions. -/
structure Build (R : Type*) where
  maxContextTotal : ℕ
  maxMemContentLen : ℕ
  maxContextMems : ℕ
  maxCandidates : ℕ
  normalizeKey : Text → Text
  tokenizeForSearch : Text → ℕ → List Text
  /-- `%.2f`. -/
  fmt2 : R → Text
  qsort : (Candidate R → Candidate R → ℤ) → List (Candidate R) → List (Candidate R)

/-- A world with nothing in it, and everything off. -/
def bareWorld : World ℚ where
  globalConstraints := []
  keyFacts := []
  kvSection _ := []
  wsSection _ := []
  dependsOnKeys _ := []
  episodeCards := []
  candidates _ := []
  supersedeLookup _ := none
  antiPatterns := []
  topTriples := []
  relationsSupporting _ := []
  graphBoost _ := []
  graphRelated _ _ := []
  derivedFacts _ _ := none
  scopeVisibilityRank _ _ _ := 1
  primaryScope _ := text "global"
  scopeLabelsForCwd workspace := (workspace, [])
  vectorNearDuplicates _ := []
  artifacts := []
  readFile _ := none
  memoryCountAndMaxUpdated := some (0, [])
  rulesSignature := text "0:"
  scopeActive := false
  noCache := false
  contextBudgetEnabled := false
  contextBudgetTokens := 0
  failureDetectionEnabled := false
  failureDetectionThreshold := 0
  abstainEnabled := false
  abstainGate := 0
  deriveFactsEnabled := false
  directivesEnabled := true

/-- A build with constants of the usual size. -/
def sampleBuild : Build ℚ where
  maxContextTotal := 8000
  maxMemContentLen := 500
  maxContextMems := 20
  maxCandidates := 200
  normalizeKey t := t.map tolower
  tokenizeForSearch t n := (((t.map tolower).splitOn 32).filter (· ≠ [])).take n
  fmt2 q :=
    let hundredths := ⌊q * 100 + 1 / 2⌋.toNat
    text (toString (hundredths / 100)) ++ text "." ++ (if hundredths % 100 < 10 then text "0" else []) ++
      text (toString (hundredths % 100))
  qsort cmp cands := cands.mergeSort fun a c => cmp a c ≤ 0

end AimeeMemory.Context
