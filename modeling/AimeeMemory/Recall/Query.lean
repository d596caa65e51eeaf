import AimeeMemory.Core.Store
import Mathlib.Data.List.Infix
import Mathlib.Data.PNat.Basic
import Mathlib.Data.Rat.Floor

/-!
# The query of a recall

What a recall looks up, and how many rows it asks for: the environment of
`memory_core_search*.c`, the query plan and the fetch bounds.

The lookups of the database and of the vector index, the configuration and the text
analysis of a query are the fields of `Env`. Nothing is assumed of what a lookup finds.
All the lookups of one recall run under the scope hint or the scope context that the
recall sets, so they do not take it.

## Honest scope

Counts and limits do not overflow. The factors of the fetch budget are rationals, where
the code has doubles. A row has the fields that the passes over a recall read or write.
-/

namespace AimeeMemory.Recall

open AimeeMemory.Core

/-- A memory as a recall returns it, with its ranking. -/
structure Memory where
  id : ℤ
  key : Text
  content : Text
  sourceSession : Text := []
  retrievalScore : ℚ := 0
  hybridRank : ℕ := 0
  deriving DecidableEq, Repr

inductive Route where
  | lexical
  | semantic
  | graph
  | hybrid
  deriving DecidableEq, Repr

inductive Shape where
  | unknown
  | factoid
  | list
  | quantitative
  | temporalInterval
  | when
  | yesNo
  | how
  | why
  deriving DecidableEq, Repr

inductive Intent where
  | general
  | temporal
  | entity
  | procedural
  deriving DecidableEq, Repr

/-- How a query is retrieved. -/
structure Plan where
  route : Route
  shape : Shape
  semanticEnabled : Bool
  fetchMultiplier : ℤ
  minFetch : ℤ
  maxFetch : ℤ
  deriving DecidableEq, Repr

/-- The rewrite of a query: a hypothetical answer, and the questions it splits into. -/
structure Rewrite where
  hydeAnswer : Option Text := none
  subQuestions : List Text := []
  deriving DecidableEq, Repr

/-- The dynamic fetch budget, where it is enabled with a positive base. -/
structure FetchBudget where
  base : ℕ
  shapeAware : Bool
  deriving DecidableEq, Repr

/-- A coverage query, and the entity it asks about. -/
structure AggregationHint where
  entitySeed : Text
  deriving DecidableEq, Repr

/-- A row of the link graph. -/
structure MemoryLink where
  sourceId : ℤ
  targetId : ℤ
  relation : Text
  deriving DecidableEq, Repr

/-- The scope that a recall is asked for. -/
structure Scope where
  scopeType : Option Text
  scopeValue : Option Text
  deriving DecidableEq, Repr

/-- The scope context of a thread. -/
structure ScopeContext where
  workspace : Option Text
  project : Option Text
  includeAll : Bool
  deriving DecidableEq, Repr

/-- What the text of a query says. -/
structure Analysis where
  normalizeKey : Text → Text
  /-- At most 24 tokens. -/
  splitTokens : Text → List Text
  isSignalToken : Text → Bool
  queryShape : Text → Text → Shape
  queryRoute : Text → Text → Shape → Route
  queryIntent : Text → Text → Intent
  queryRewrite : Text → Rewrite
  queryDecomposition : Text → List Text
  /-- The negated terms of a query of negative polarity, with negation enabled. -/
  negatedTerms : Text → Option Text
  /-- The hint of a coverage query, with aggregation enabled. -/
  aggregationHint : Text → Option AggregationHint
  /-- `agg_extract_fallback_keyword`. -/
  fallbackKeyword : Text → Text
  /-- The hops of the graph expansion of a query, and whether it may enter the code graph. -/
  graphDetectCodeShape : Text → ℕ × Bool

/-- The configuration. -/
structure Config where
  routingEnabled : Bool
  fetchBudget : Option FetchBudget
  aggregationMaxItems : ℤ
  aggregationDefaultMaxItems : ℕ+
  envFetchMultiplier : Option ℤ
  envFetchMin : Option ℤ
  envFetchMax : Option ℤ
  /-- Archived rows are hidden. -/
  hideArchived : Bool
  fusionOn : Bool
  fusionCodeProjection : Bool
  fusionUtilityScoring : Bool
  pagerankEnabled : Bool
  pagerankRelations : Text
  lanesEnabled : Bool
  laneFloorSummary : ℤ
  laneFloorFact : ℤ
  windowRadius : ℤ

/-- What the database and the vector index find. -/
structure Lookups where
  vectorReady : Bool
  graphMatches : Text → Text → ℤ → List Memory
  /-- The rows that the lanes of `memory_collect_variant_candidates` find, one after the other. -/
  variantMatches : Text → Text → Intent → ℤ → Option (List Memory)
  unitSemanticMatches : Text → ℤ → Option (List Memory)
  semanticMatches : Text → ℤ → Option (List Memory)
  negationFtsMatches : Text → ℤ → List Memory
  vectorMatches : Text → ℤ → List Memory
  /-- At most so many rows, for an array of so many. -/
  findFactsLike : Text → ℤ → ℕ → Option (List Memory)
  aggregate : Option Text → Option Text → ℤ → List Memory
  memoryGet : ℤ → Option Memory
  filterArchivedIds : List ℤ → List ℤ
  /-- The entities of a memory, at most 8. -/
  entitiesListWeighted : ℤ → List Text
  graphExpandFromSeeds : List Text → ℕ → Bool → Bool → List ℤ
  /-- The links of a memory, at most 64. -/
  linkQuery : ℤ → List MemoryLink
  sessionNeighborsBefore : Text → ℤ → ℤ → List Memory
  sessionNeighborsAfter : Text → ℤ → ℤ → List Memory
  db2ScopeMatches : ℤ → Text → Text → Bool
  workspaceMatches : ℤ → Text → Bool
  /-- `db2_memory_scope_context_rank`, in a scope context. -/
  scopeContextRank : ScopeContext → ℤ → ℤ

/-- What a recall runs in. -/
structure Env extends Analysis, Config, Lookups

/-- `MEMORY_RERANK_BUFFER`. -/
def rerankBuffer : ℕ := 96

/-- The normalised query, or the query itself where nothing is left of it. -/
def normQuery (env : Env) (query : Text) : Text :=
  let norm := env.normalizeKey query
  if norm = [] then query.take 511 else norm

/-- The limit that a recall works with. -/
def effectiveLimit (limit max : ℤ) : ℤ := min (if limit ≤ 0 then 20 else limit) max

/-! ### The plan -/

/-- The multiplier and the least fetch of a shape. -/
def Shape.fetch : Shape → ℤ × ℤ
  | .when => (5, 32)
  | .list => (6, 36)
  | .yesNo => (3, 16)
  | .how | .why => (4, 20)
  | .factoid => (4, 18)
  | .quantitative | .temporalInterval | .unknown => (4, 24)

/-- `memory_query_plan`, with the rerank buffer as its hard cap. -/
def memoryQueryPlan (env : Env) (query : Text) (limit : ℤ) : Option Plan :=
  if query = [] then none
  else
    let norm := normQuery env query
    let shape := env.queryShape query norm
    let route := if env.routingEnabled then env.queryRoute query norm shape else .hybrid
    let (multiplier, minFetch) := shape.fetch
    let (multiplier, minFetch, maxFetch) : ℤ × ℤ × ℤ :=
      match route with
      | .lexical => (2, min minFetch 12, min rerankBuffer 48)
      | .graph => (multiplier + 1, minFetch + 4, rerankBuffer)
      | .semantic | .hybrid => (multiplier, minFetch, rerankBuffer)
    some
      { route
        shape
        semanticEnabled := route ≠ .lexical && route ≠ .graph
        fetchMultiplier := multiplier
        minFetch
        maxFetch := max maxFetch (if limit ≤ 0 then 10 else limit) }

/-- The plan that stands in for one that could not be made: all its fields are zero. -/
def Plan.zero : Plan where
  route := .lexical
  shape := .unknown
  semanticEnabled := false
  fetchMultiplier := 0
  minFetch := 0
  maxFetch := 0

/-! ### The fetch bounds -/

/-- `memory_env_int`, on the number that the environment variable holds. -/
def memoryEnvInt (value : Option ℤ) (fallback minValue maxValue : ℤ) : ℤ :=
  match value with
  | none => fallback
  | some n => min (max n minValue) maxValue

structure FetchBounds where
  multiplier : ℤ
  least : ℤ
  most : ℤ
  deriving DecidableEq, Repr

/-- The bounds of a plan, with the overrides of the environment. -/
def fetchBounds (env : Env) (plan : Plan) (limit : ℤ) : FetchBounds :=
  let multiplier := if 0 < plan.fetchMultiplier then plan.fetchMultiplier else 4
  let least := if 0 < plan.minFetch then plan.minFetch else 24
  let most : ℤ := if 0 < plan.maxFetch then plan.maxFetch else rerankBuffer
  let least := memoryEnvInt env.envFetchMin least limit rerankBuffer
  let most := memoryEnvInt env.envFetchMax most limit rerankBuffer
  { multiplier := memoryEnvInt env.envFetchMultiplier multiplier 1 16
    least
    most := max most least }

def tokenFactor (tokens : ℕ) : ℚ :=
  if tokens ≤ 2 then 3 / 2 else if tokens ≤ 4 then 1 else if tokens ≤ 7 then 3 / 4 else 1 / 2

def Shape.factor : Shape → ℚ
  | .list | .quantitative | .temporalInterval => 13 / 10
  | .when => 115 / 100
  | .factoid => 9 / 10
  | .yesNo => 3 / 4
  | .how | .why | .unknown => 1

/-- `memory_fetch_budget_factor`. -/
def memoryFetchBudgetFactor (shape : Shape) (tokens : ℕ) : ℚ := tokenFactor tokens * shape.factor

/-- The bounds under the dynamic fetch budget. -/
def FetchBounds.budgeted (b : FetchBounds) (env : Env) (plan : Plan) (norm : Text) : FetchBounds :=
  match env.fetchBudget with
  | none => b
  | some budget =>
    let tokens := (env.splitTokens norm).length
    let spec := if budget.shapeAware then memoryFetchBudgetFactor plan.shape tokens else tokenFactor tokens
    let dynamicMax := min (max ⌊(budget.base : ℚ) * spec⌋ b.least) rerankBuffer
    { b with most := if budget.shapeAware then dynamicMax else min dynamicMax b.most }

/-- The number of rows to fetch for a limit. -/
def FetchBounds.fetchLimit (b : FetchBounds) (limit : ℤ) : ℤ :=
  min (max (max (limit * b.multiplier) limit) b.least) b.most

/-! ### The scope -/

/-- The type and the value of a scope, where both are given. -/
def Scope.asked (scope : Scope) : Option (Text × Text) :=
  match scope.scopeType, scope.scopeValue with
  | some scopeType, some scopeValue => if scopeType = [] ∨ scopeValue = [] then none else some (scopeType, scopeValue)
  | _, _ => none

/-- `memory_scope_matches`. -/
def memoryScopeMatches (env : Env) (id : ℤ) (scope : Scope) : Bool :=
  match scope.asked with
  | none => true
  | some (scopeType, scopeValue) =>
    env.db2ScopeMatches id scopeType scopeValue ||
      (scopeType = text "workspace" && env.workspaceMatches id scopeValue)

/-! ### A bare environment -/

/-- An environment with every feature off, in which lookups find nothing but the rows that
contain a term. -/
def bareEnv (rows : List Memory) : Env where
  normalizeKey t := t
  splitTokens _ := []
  isSignalToken _ := true
  queryShape _ _ := .unknown
  queryRoute _ _ _ := .hybrid
  queryIntent _ _ := .general
  queryRewrite _ := {}
  queryDecomposition _ := []
  negatedTerms _ := none
  aggregationHint _ := none
  fallbackKeyword _ := []
  graphDetectCodeShape _ := (0, false)
  routingEnabled := false
  fetchBudget := none
  aggregationMaxItems := 0
  aggregationDefaultMaxItems := 50
  envFetchMultiplier := none
  envFetchMin := none
  envFetchMax := none
  hideArchived := false
  fusionOn := false
  fusionCodeProjection := false
  fusionUtilityScoring := false
  pagerankEnabled := false
  pagerankRelations := text "depends_on,related_to,co_edited,fixes"
  lanesEnabled := false
  laneFloorSummary := 0
  laneFloorFact := 0
  windowRadius := 0
  vectorReady := true
  graphMatches _ _ _ := []
  variantMatches _ _ _ _ := some []
  unitSemanticMatches _ _ := some []
  semanticMatches _ _ := some []
  negationFtsMatches _ _ := []
  vectorMatches _ _ := []
  findFactsLike term limit cap := some ((rows.filter fun m => term <:+: m.content).take (min limit.toNat cap))
  aggregate _ _ _ := []
  memoryGet id := rows.find? fun m => m.id = id
  filterArchivedIds _ := []
  entitiesListWeighted _ := []
  graphExpandFromSeeds _ _ _ _ := []
  linkQuery _ := []
  sessionNeighborsBefore _ _ _ := []
  sessionNeighborsAfter session id radius :=
    (rows.filter fun m => m.sourceSession = session && id < m.id && m.id ≤ id + radius).take 32
  db2ScopeMatches _ _ _ := true
  workspaceMatches _ _ := false
  scopeContextRank _ _ := 1

/-- A recall that returns an id is not a recall of other rows only. -/
theorem returns_of_ids {found : Option (List Memory)} {ids : List ℤ} {id : ℤ} (good : ℤ → Prop)
    (hids : found.map (List.map Memory.id) = some ids) (hid : id ∈ ids) (hbad : ¬ good id) :
    ∃ rows, found = some rows ∧ ¬ ∀ m ∈ rows, good m.id := by
  obtain ⟨rows, hrows, rfl⟩ := Option.map_eq_some_iff.1 hids
  obtain ⟨m, hm, rfl⟩ := List.mem_map.1 hid
  exact ⟨rows, hrows, fun hall => hbad (hall m hm)⟩

end AimeeMemory.Recall
