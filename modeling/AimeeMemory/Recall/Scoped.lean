import AimeeMemory.Recall.Rerank

/-!
# Scoped recall

`memory_find_facts_scoped` filters the candidates by the requested scope once, before the
graph fusion, the linked rows of the reranker and the session window add theirs; the
aggregation route does not filter at all.

## What is proved

* `allRows_aggregated_iff`, `allRows_vector_iff`: which rows a route returns, as what all of them
  satisfy.
* **`isolated_iff`**: a scoped recall returns only rows of its scope, whatever the limit, the
  array and the ranking, exactly when what is added past the filter is in scope.
* **`window_leak`**: a session neighbour of another project is returned.
-/

namespace AimeeMemory.Recall

open AimeeMemory.Core

/-! ### The routes without candidates -/

/-- The rows of a coverage query, of at most so many items. -/
def aggregated (env : Env) (hint : AggregationHint) (query : Text) (items : ℤ) : List Memory :=
  let seed := if hint.entitySeed = [] then none else some hint.entitySeed
  let keyword := if hint.entitySeed = [] then env.fallbackKeyword query else []
  env.aggregate seed (if keyword = [] then none else some keyword) items

/-- `memory_aggregate`. -/
def memoryAggregate (env : Env) (hint : AggregationHint) (query : Text) (maxItems max : ℤ) : List Memory :=
  if max ≤ 0 then []
  else aggregated env hint query (min (if maxItems ≤ 0 then (env.aggregationDefaultMaxItems : ℤ) else maxItems) max)

/-- The most items that an aggregation may have. -/
def aggregationCap (env : Env) : ℤ :=
  if 0 < env.aggregationMaxItems then env.aggregationMaxItems else env.aggregationDefaultMaxItems

/-- One lookup of the lexical fallback, with its rows in scope. -/
def lexicalLane (env : Env) (scope : Scope) (limit : ℤ) (out : List Memory) (term : Text) : Option (List Memory) :=
  (env.findFactsLike term (min (limit * 4) 64) 64).map fun rows =>
    collect limit.toNat out (memoryFilterScope env scope rows)

/-- `memory_find_facts_lexical_fallback`. -/
def memoryFindFactsLexicalFallback (env : Env) (query : Text) (scope : Scope) (limit max : ℤ) :
    Option (List Memory) :=
  if query = [] ∨ max ≤ 0 then some []
  else
    let limit := effectiveLimit limit max
    (lexicalLane env scope limit [] query).bind fun out =>
    (env.splitTokens (env.normalizeKey query)).foldlM (fun out token =>
      if out.length < limit ∧ env.isSignalToken token then lexicalLane env scope limit out token else some out) out

/-! ### The candidates -/

/-- The candidates of a query, of its hypothetical answer and of its questions. -/
def recallCandidates (env : Env) (query : Text) (limit : ℤ) : Option (List Memory) :=
  let norm := normQuery env query
  let intent := env.queryIntent query norm
  let rewrite := env.queryRewrite query
  let plan := (memoryQueryPlan env query limit).getD .zero
  let fetchLimit := ((fetchBounds env plan limit).budgeted env plan norm).fetchLimit limit
  let primary := match rewrite.hydeAnswer with
    | none => memoryGenerateCandidates env query norm intent plan fetchLimit rerankBuffer
    | some answer =>
      (memoryGenerateCandidates env answer (normQuery env answer) intent plan fetchLimit rerankBuffer).bind fun rows =>
      (memoryGenerateCandidates env query norm intent plan
        (if 0 < fetchLimit.tdiv 2 then fetchLimit.tdiv 2 else 8) rerankBuffer).map fun extra =>
      memoryCandidatesMerge rows extra rerankBuffer
  primary.bind fun rows => rewrite.subQuestions.foldlM (fun rows question =>
    let subNorm := normQuery env question
    (memoryGenerateCandidates env question subNorm (env.queryIntent question subNorm)
      ((memoryQueryPlan env question limit).getD plan)
      (fetchLimit.tdiv (rewrite.subQuestions.length + 1)) (rerankBuffer / 2)).map fun found =>
    memoryCandidatesMerge rows found rerankBuffer) rows

/-- The candidates that the filters keep. -/
def scopedCandidates (env : Env) (query : Text) (scope : Scope) (limit : ℤ) : Option (List Memory) :=
  (recallCandidates env query limit).map fun rows => filterArchived env (memoryFilterScope env scope rows)

/-! ### What is added past the filters -/

def appendSeed (seeds : List Text) (entity : Text) : List Text :=
  if seeds.length < 48 ∧ entity ∉ seeds then seeds ++ [entity] else seeds

/-- The entities of the first 12 candidates, at most 48. -/
def fusionSeeds (env : Env) (rows : List Memory) : List Text :=
  (rows.take 12).foldl (fun seeds m => (env.entitiesListWeighted m.id).foldl appendSeed seeds) []

/-- The ids that the graph expansion reaches from the candidates. -/
def fusionExpansion (env : Env) (query : Text) (rows : List Memory) : List ℤ :=
  let seeds := fusionSeeds env rows
  if seeds = [] then []
  else
    let (hops, allowCode) := env.graphDetectCodeShape query
    env.graphExpandFromSeeds seeds (if 0 < hops then hops else 2) (allowCode && env.fusionCodeProjection)
      env.fusionUtilityScoring

def appendFusionRow (env : Env) (rows : List Memory) (id : ℤ) : List Memory :=
  if rows.length < rerankBuffer ∧ ∀ r ∈ rows, r.id ≠ id then
    rows ++ ((env.memoryGet id).filter fun row => 0 < row.id).toList
  else rows

/-- The candidates and the rows that the graph fusion adds. -/
def fuse (env : Env) (query : Text) (rows : List Memory) : List Memory :=
  if env.fusionOn ∧ rows ≠ [] then (fusionExpansion env query rows).foldl (appendFusionRow env) rows else rows

/-- The rows around a row in its session. -/
def sessionNeighbors (env : Env) (m : Memory) : List Memory :=
  if m.sourceSession = [] then []
  else
    env.sessionNeighborsBefore m.sourceSession m.id env.windowRadius ++
      env.sessionNeighborsAfter m.sourceSession m.id env.windowRadius

/-- `memory_expand_to_session_window`, where the radius is positive. -/
def memoryExpandToSessionWindow (env : Env) (out : List Memory) (max : ℤ) : List Memory :=
  if env.windowRadius ≤ 0 then out
  else out.foldl (fun acc m => collect max.toNat acc (sessionNeighbors env m)) out

/-- The top of the reranked rows. -/
def topRows (env : Env) (ranking : Ranking) (pool : List Memory) (limit max : ℤ) : List Memory :=
  let ranked := memoryRerankMatches env ranking pool limit
  (applyLaneFloors env ranking ranked.1 pool.length (min ranked.2 max)).take (min ranked.2 max).toNat

/-- `memory_find_facts_scoped`, or `none` where it fails. -/
def memoryFindFactsScoped (env : Env) (ranking : Ranking) (query : Text) (scope : Scope) (limit max : ℤ) :
    Option (List Memory) :=
  if query = [] then some []
  else
    match env.aggregationHint query with
    | some hint =>
      let requested := if 0 < limit then limit else 20
      some (memoryAggregate env hint query (min requested (min (aggregationCap env) max)) max)
    | none =>
      if env.vectorReady then
        let limit := effectiveLimit limit max
        (scopedCandidates env query scope limit).map fun rows =>
          memoryExpandToSessionWindow env (topRows env ranking (fuse env query rows) limit max) max
      else memoryFindFactsLexicalFallback env query scope limit max

/-! ### Isolation -/

/-- Every recall of a query in a scope returns rows of that scope. -/
def Isolated (env : Env) (query : Text) (scope : Scope) : Prop :=
  ∀ ranking limit max rows, memoryFindFactsScoped env ranking query scope limit max = some rows →
    ∀ m ∈ rows, memoryScopeMatches env m.id scope

/-- What the passes behind the filters add to the kept candidates is in scope. -/
structure AddsInScope (env : Env) (query : Text) (scope : Scope) (kept : List Memory) : Prop where
  pool : ∀ m ∈ rerankPool env (fuse env query kept), m ∉ kept → memoryScopeMatches env m.id scope
  window : 0 < env.windowRadius → ∀ m ∈ rerankPool env (fuse env query kept), ∀ n ∈ sessionNeighbors env m,
    memoryScopeMatches env n.id scope

/-- Nothing out of scope enters past the filters. A coverage query has no filter, and the
lexical fallback adds nothing behind its own. -/
def NothingLeaks (env : Env) (query : Text) (scope : Scope) : Prop :=
  query ≠ [] →
    match env.aggregationHint query with
    | some hint => ∀ items, 0 < items → items ≤ aggregationCap env → ∀ m ∈ aggregated env hint query items,
      memoryScopeMatches env m.id scope
    | none => env.vectorReady = true → ∀ limit, 0 < limit → ∀ kept, scopedCandidates env query scope limit = some kept →
      AddsInScope env query scope kept

variable {env : Env} {ranking : Ranking} {query : Text} {scope : Scope} {limit max : ℤ} {rows : List Memory}

/-! ### The aggregation and the fallback -/

theorem aggregationCap_pos (env : Env) : 0 < aggregationCap env := by
  unfold aggregationCap
  split_ifs with h
  · exact h
  · exact_mod_cast env.aggregationDefaultMaxItems.pos

/-- The rows of the fallback are in scope. -/
theorem memoryFindFactsLexicalFallback_inScope
    (h : memoryFindFactsLexicalFallback env query scope limit max = some rows) :
    ∀ m ∈ rows, memoryScopeMatches env m.id scope := by
  have hlane : ∀ limit out term out', (∀ m ∈ out, memoryScopeMatches env m.id scope) →
      lexicalLane env scope limit out term = some out' → ∀ m ∈ out', memoryScopeMatches env m.id scope := by
    intro limit out term out' hout hfound m hm
    obtain ⟨found, -, rfl⟩ := Option.map_eq_some_iff.1 hfound
    rcases mem_collect hm with hm | hm
    · exact hout m hm
    · exact (mem_memoryFilterScope.1 hm).2
  unfold memoryFindFactsLexicalFallback at h
  by_cases hempty : query = [] ∨ max ≤ 0
  · rw [if_pos hempty] at h
    obtain rfl := Option.some.inj h
    simp
  · rw [if_neg hempty] at h
    obtain ⟨first, hfirst, hrest⟩ := Option.bind_eq_some_iff.1 h
    refine foldlM_keeps (P := fun out => ∀ m ∈ out, memoryScopeMatches env m.id scope)
      (fun out token out' hout hstep => ?_) _ (hlane _ [] query first (by simp) hfirst) hrest
    split_ifs at hstep
    · exact hlane _ out token out' hout hstep
    · exact Option.some.inj hstep ▸ hout

/-- The candidates that the filters keep are in scope. -/
theorem scopedCandidates_inScope {kept : List Memory} (h : scopedCandidates env query scope limit = some kept) :
    ∀ m ∈ kept, memoryScopeMatches env m.id scope := by
  obtain ⟨found, -, rfl⟩ := Option.map_eq_some_iff.1 h
  exact fun m hm => (mem_memoryFilterScope.1 (mem_filterArchived hm)).2

/-! ### The top and the window -/

theorem sessionNeighbors_unranked (m : Memory) : sessionNeighbors env m.unranked = sessionNeighbors env m := rfl

/-- A row of the top is a row of the pool, with its ranking. -/
theorem mem_topRows {pool : List Memory} {m : Memory} (h : m ∈ topRows env ranking pool limit max) :
    ∃ x ∈ rerankPool env pool, x.unranked = m.unranked := by
  unfold topRows at h
  have hm := (applyLaneFloors_perm ranking _ _ _).mem_iff.1 (List.mem_of_mem_take h)
  unfold memoryRerankMatches at hm
  split_ifs at hm with hsingle
  · exact ⟨m, by rwa [rerankPool, if_pos hsingle], rfl⟩
  · have hin := List.mem_map_of_mem (f := Memory.unranked) hm
    exact List.mem_map.1 ((rerankRows_perm _ _).mem_iff.1 hin)

/-- A larger array does not change the top. -/
theorem topRows_max (pool : List Memory) (hmax : limit ≤ max) :
    topRows env ranking pool limit max = topRows env ranking pool limit limit := by
  have hreported : (memoryRerankMatches env ranking pool limit).2 ≤ limit := by
    unfold memoryRerankMatches
    split_ifs <;> exact min_le_right _ _
  simp only [topRows, min_eq_left (hreported.trans hmax), min_eq_left hreported]

/-- Any row of the pool is in the top of some ranking. -/
theorem exists_mem_topRows {pool : List Memory} {x : Memory} (hx : x ∈ rerankPool env pool) (hlimit : 0 < limit) :
    ∃ ranking, ∃ m ∈ topRows env ranking pool limit limit, m.unranked = x.unranked := by
  refine ⟨favour fun m => m = x.unranked, ?_⟩
  have hlanes : ∀ rows count total,
      applyLaneFloors env (favour fun m => decide (m = x.unranked)) rows count total = rows := by
    intro rows count total
    simp [applyLaneFloors, memoryApplyLaneFloor, favour]
  simp only [topRows, hlanes]
  unfold memoryRerankMatches
  split_ifs with hsingle
  · rw [rerankPool, if_pos hsingle] at hx
    have hpos := List.length_pos_of_mem hx
    rw [show (min (min (pool.length : ℤ) limit) limit).toNat = 1 by omega, List.take_of_length_le hsingle]
    exact ⟨x, hx, rfl⟩
  · have hpos := List.length_pos_of_mem hx
    have hin : 0 < (rerankPool env pool).countP fun m => decide (m.unranked = x.unranked) :=
      List.countP_pos_iff.2 ⟨x, hx, by simp⟩
    have hcount := countP_take_favoured (fun m => decide (m = x.unranked)) (rerankPool env pool)
      (min (min ((rerankPool env pool).length : ℤ) limit) limit).toNat
    have hfound : 0 < ((rerankRows (favour fun m => decide (m = x.unranked)) (rerankPool env pool)).take
        (min (min ((rerankPool env pool).length : ℤ) limit) limit).toNat).countP
          fun m => decide (m.unranked = x.unranked) := by
      rw [hcount]
      omega
    obtain ⟨m, hm, hmx⟩ := List.countP_pos_iff.1 hfound
    exact ⟨m, hm, of_decide_eq_true hmx⟩

theorem mem_memoryExpandToSessionWindow {out : List Memory} {m : Memory}
    (h : m ∈ memoryExpandToSessionWindow env out max) :
    m ∈ out ∨ 0 < env.windowRadius ∧ ∃ x ∈ out, m ∈ sessionNeighbors env x := by
  have hfold : ∀ (ms acc : List Memory),
      m ∈ ms.foldl (fun acc m => collect max.toNat acc (sessionNeighbors env m)) acc →
      m ∈ acc ∨ ∃ x ∈ ms, m ∈ sessionNeighbors env x := by
    intro ms
    induction ms with
    | nil => intro acc hm; exact .inl hm
    | cons y ys ih =>
      intro acc hm
      rcases ih _ hm with hm | ⟨x, hx, hm⟩
      · rcases mem_collect hm with hm | hm
        · exact .inl hm
        · exact .inr ⟨y, by simp, hm⟩
      · exact .inr ⟨x, List.mem_cons_of_mem _ hx, hm⟩
  unfold memoryExpandToSessionWindow at h
  split_ifs at h with hradius
  · exact .inl h
  · exact (hfold out out h).imp_right fun hx => ⟨not_le.1 hradius, hx⟩

theorem prefix_memoryExpandToSessionWindow (out : List Memory) (max : ℤ) :
    out <+: memoryExpandToSessionWindow env out max := by
  unfold memoryExpandToSessionWindow
  split_ifs
  · exact List.prefix_refl _
  · exact prefix_foldl (fun acc m => prefix_collect _ acc _) out out

/-- In an array that is large enough, every neighbour of the top is in the window. -/
theorem exists_max_window (out : List Memory) (hradius : 0 < env.windowRadius) (least : ℤ) :
    ∃ max, least ≤ max ∧ ∀ x ∈ out, ∀ n ∈ sessionNeighbors env x,
      ∃ o ∈ memoryExpandToSessionWindow env out max, o.id = n.id := by
  have hfold : ∀ (max : ℕ) (ms acc : List Memory),
      acc.length + (ms.map fun m => (sessionNeighbors env m).length).sum ≤ max →
      ∀ x ∈ ms, ∀ n ∈ sessionNeighbors env x,
        ∃ o ∈ ms.foldl (fun acc m => collect max acc (sessionNeighbors env m)) acc, o.id = n.id := by
    intro max ms
    induction ms with
    | nil => simp
    | cons y ys ih =>
      intro acc hroom x hx n hn
      simp only [List.map_cons, List.sum_cons] at hroom
      have hlen := collect_length_le max acc (sessionNeighbors env y)
      rcases List.mem_cons.1 hx with rfl | hx
      · have hfits : acc.length + (sessionNeighbors env x).length ≤ max := by omega
        obtain ⟨o, ho, hid⟩ := id_mem_collect hfits hn
        exact ⟨o, (prefix_foldl (fun acc m => prefix_collect max acc _) ys _).subset ho, hid⟩
      · exact ih (collect max acc (sessionNeighbors env y)) (by omega) x hx n hn
  refine ⟨Max.max least (out.length + (out.map fun m => (sessionNeighbors env m).length).sum : ℕ),
    le_max_left _ _, ?_⟩
  unfold memoryExpandToSessionWindow
  rw [if_neg (not_le.2 hradius)]
  exact hfold _ out out (by omega)

/-! ### What all rows satisfy -/

/-- Every row of every recall of a query satisfies a predicate of ids. -/
def AllRows (P : ℤ → Prop) (env : Env) (query : Text) (scope : Scope) : Prop :=
  ∀ ranking limit max rows, memoryFindFactsScoped env ranking query scope limit max = some rows → ∀ m ∈ rows, P m.id

/-- What the passes behind the filters add to the kept candidates satisfies a predicate of ids. -/
structure AddsOnly (P : ℤ → Prop) (env : Env) (query : Text) (kept : List Memory) : Prop where
  pool : ∀ m ∈ rerankPool env (fuse env query kept), m ∉ kept → P m.id
  window : 0 < env.windowRadius → ∀ m ∈ rerankPool env (fuse env query kept), ∀ n ∈ sessionNeighbors env m, P n.id

variable {P : ℤ → Prop}

theorem allRows_of_empty (hquery : query = []) : AllRows P env query scope := by
  intro ranking limit max rows hrows
  simp only [memoryFindFactsScoped, hquery, if_true, Option.some.injEq] at hrows
  simp [← hrows]

/-- On the aggregation route, the rows are those that the lookup finds for the counts up to the
cap. -/
theorem allRows_aggregated_iff {hint : AggregationHint} (hquery : query ≠ []) (hhint : env.aggregationHint query = some hint) :
    AllRows P env query scope ↔
      ∀ items, 0 < items → items ≤ aggregationCap env → ∀ m ∈ aggregated env hint query items, P m.id := by
  constructor
  · intro h items hpos hcap
    refine h (favour fun _ => true) items items _ ?_
    simp only [memoryFindFactsScoped, hquery, if_false, hhint, hpos, if_true, memoryAggregate]
    rw [if_neg (not_le.2 hpos), min_eq_right hcap, min_self, if_neg (not_le.2 hpos), min_self]
  · intro h ranking limit max rows hrows
    simp only [memoryFindFactsScoped, hquery, if_false, hhint, memoryAggregate, Option.some.injEq] at hrows
    have hcap := aggregationCap_pos env
    by_cases hmax : max ≤ 0
    · simp [← hrows, hmax]
    · have hitems : 0 < if 0 < limit then limit else 20 := by split_ifs <;> omega
      rw [if_neg hmax, if_neg (by omega)] at hrows
      exact hrows ▸ h _ (by omega) (by omega)

theorem memoryFindFactsScoped_vector (hquery : query ≠ []) (hhint : env.aggregationHint query = none)
    (hready : env.vectorReady = true) :
    memoryFindFactsScoped env ranking query scope limit max =
      (scopedCandidates env query scope (effectiveLimit limit max)).map fun rows =>
        memoryExpandToSessionWindow env (topRows env ranking (fuse env query rows) (effectiveLimit limit max) max) max := by
  unfold memoryFindFactsScoped
  rw [if_neg hquery, hhint]
  simp only [hready, if_true]

theorem memoryFindFactsScoped_fallback (hquery : query ≠ []) (hhint : env.aggregationHint query = none)
    (hready : env.vectorReady = false) :
    memoryFindFactsScoped env ranking query scope limit max =
      memoryFindFactsLexicalFallback env query scope limit max := by
  unfold memoryFindFactsScoped
  rw [if_neg hquery, hhint]
  simp only [hready, Bool.false_eq_true, if_false]

/-- On the vector route, all rows satisfy what the kept candidates do exactly when the rows that
the passes behind the filters add satisfy it. -/
theorem allRows_vector_iff (hquery : query ≠ []) (hhint : env.aggregationHint query = none)
    (hready : env.vectorReady = true)
    (hkeep : ∀ limit kept, scopedCandidates env query scope limit = some kept → ∀ m ∈ kept, P m.id) :
    AllRows P env query scope ↔
      ∀ limit, 0 < limit → ∀ kept, scopedCandidates env query scope limit = some kept → AddsOnly P env query kept := by
  constructor
  · intro h limit hlimit kept hkept
    have hrun : ∀ ranking max, limit ≤ max → ∀ m ∈ memoryExpandToSessionWindow env
        (topRows env ranking (fuse env query kept) limit limit) max, P m.id := by
      intro ranking max hmax
      have heff : effectiveLimit limit max = limit := by
        rw [effectiveLimit, if_neg (not_le.2 hlimit), min_eq_left hmax]
      refine h ranking limit max _ ?_
      rw [memoryFindFactsScoped_vector hquery hhint hready, heff, hkept, Option.map_some, topRows_max _ hmax]
    refine ⟨fun x hx _ => ?_, fun hradius x hx n hn => ?_⟩
    · obtain ⟨ranking, m, hm, hmx⟩ := exists_mem_topRows hx hlimit
      rw [← x.unranked_id, ← hmx]
      exact hrun ranking limit le_rfl m ((prefix_memoryExpandToSessionWindow _ _).subset hm)
    · obtain ⟨ranking, m, hm, hmx⟩ := exists_mem_topRows hx hlimit
      obtain ⟨max, hmax, hall⟩ := exists_max_window (topRows env ranking (fuse env query kept) limit limit) hradius limit
      rw [← sessionNeighbors_unranked, ← hmx, sessionNeighbors_unranked] at hn
      obtain ⟨o, ho, hid⟩ := hall m hm n hn
      exact hid ▸ hrun ranking max hmax o ho
  · intro h ranking limit max rows hrows m hm
    rw [memoryFindFactsScoped_vector hquery hhint hready] at hrows
    obtain ⟨kept, hkept, rfl⟩ := Option.map_eq_some_iff.1 hrows
    by_cases hlimit : 0 < effectiveLimit limit max
    · obtain ⟨hadded, hwindow⟩ := h _ hlimit kept hkept
      have hpool : ∀ y ∈ rerankPool env (fuse env query kept), P y.id := by
        intro y hy
        by_cases hy' : y ∈ kept
        · exact hkeep _ kept hkept y hy'
        · exact hadded y hy hy'
      rcases mem_memoryExpandToSessionWindow hm with hm | ⟨hradius, x, hx, hm⟩
      · obtain ⟨y, hy, hyx⟩ := mem_topRows hm
        rw [← m.unranked_id, ← hyx]
        exact hpool y hy
      · obtain ⟨y, hy, hyx⟩ := mem_topRows hx
        rw [← sessionNeighbors_unranked, ← hyx, sessionNeighbors_unranked] at hm
        exact hwindow hradius y hy m hm
    · -- an array without room
      have hnone : topRows env ranking (fuse env query kept) (effectiveLimit limit max) max = [] := by
        unfold topRows memoryRerankMatches
        split_ifs <;> rw [List.take_eq_nil_iff] <;> omega
      rw [hnone] at hm
      rcases mem_memoryExpandToSessionWindow hm with hm | ⟨-, x, hx, -⟩
      · simp at hm
      · simp at hx

/-! ### The claim -/

theorem addsOnly_scope_iff {kept : List Memory} :
    AddsOnly (fun id => memoryScopeMatches env id scope) env query kept ↔ AddsInScope env query scope kept :=
  ⟨fun h => ⟨h.pool, h.window⟩, fun h => ⟨h.pool, h.window⟩⟩

/-- **Isolation**: a scoped recall returns only rows of its scope exactly when nothing out of
scope enters past the filters. -/
theorem isolated_iff (env : Env) (query : Text) (scope : Scope) :
    Isolated env query scope ↔ NothingLeaks env query scope := by
  show AllRows (fun id => memoryScopeMatches env id scope) env query scope ↔ NothingLeaks env query scope
  unfold NothingLeaks
  by_cases hquery : query = []
  · simp only [hquery, ne_eq, not_true_eq_false, false_implies, iff_true]
    exact allRows_of_empty rfl
  · simp only [ne_eq, hquery, not_false_eq_true, true_implies]
    cases hhint : env.aggregationHint query with
    | some hint => exact allRows_aggregated_iff hquery hhint
    | none =>
      cases hready : env.vectorReady with
      | true =>
        rw [allRows_vector_iff hquery hhint hready fun _ _ hkept => scopedCandidates_inScope hkept]
        simp only [addsOnly_scope_iff, true_implies]
      | false =>
        simp only [Bool.false_eq_true, false_implies, iff_true]
        intro ranking limit max rows hrows
        rw [memoryFindFactsScoped_fallback hquery hhint hready] at hrows
        exact memoryFindFactsLexicalFallback_inScope hrows

/-! ### A session with a row of another project -/

/-- Two rows of one session, of which the first belongs to the project asked for. -/
def sessionRows : List Memory :=
  [{ id := 1, key := text "port", content := text "the port is 80", sourceSession := text "s" },
    { id := 2, key := text "token", content := text "another project", sourceSession := text "s" }]

/-- The session window is open, and row 2 is in no project. -/
def sessionEnv : Env :=
  { bareEnv sessionRows with
    windowRadius := 1
    db2ScopeMatches := fun id _ _ => id = 1 }

def projectScope : Scope := ⟨some (text "project"), some (text "atlas")⟩

/-- A ranking in which all rows score the same. -/
def flatRanking : Ranking where
  hybrid _ _ := 0
  adjusted _ _ := 0

/-- The neighbour in the session is returned. -/
theorem window_leak : ∃ rows,
    memoryFindFactsScoped sessionEnv flatRanking (text "port") projectScope 5 5 = some rows ∧
      ¬ ∀ m ∈ rows, memoryScopeMatches sessionEnv m.id projectScope := by
  have hrun : (memoryFindFactsScoped sessionEnv flatRanking (text "port") projectScope 5 5).map
      (List.map Memory.id) = some [1, 2] := by decide +kernel
  have hout : ¬ memoryScopeMatches sessionEnv 2 projectScope := by decide +kernel
  exact returns_of_ids (fun id => memoryScopeMatches sessionEnv id projectScope) hrun (by simp) hout

end AimeeMemory.Recall
