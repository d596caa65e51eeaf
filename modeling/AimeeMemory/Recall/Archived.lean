import AimeeMemory.Recall.Scoped

/-!
# Archived rows

Where archived rows are to be hidden, `memory_find_facts_scoped` asks once which of its
candidates are archived and drops those. The graph fusion, the linked rows of the reranker and
the session window come after that, and the aggregation route and the lexical fallback do not
ask at all.

## What is proved

* `scopedCandidates_unarchived`: the filter drops every archived candidate.
* **`archivedHidden_iff`**: a recall returns no archived row, whatever the limit, the array and the
  ranking, exactly when no archived row is among what is added past the filter.
* **`archived_leak`**: an archived session neighbour is returned.
-/

namespace AimeeMemory.Recall

open AimeeMemory.Core

/-- A memory that the archive lookup reports when it is asked about that one. -/
def isArchived (env : Env) (id : ℤ) : Bool := id ∈ env.filterArchivedIds [id]

/-- The archive lookup reports the archived ones among the ids of a buffer. -/
def ReportsArchived (env : Env) : Prop :=
  ∀ ids : List ℤ, ids.length ≤ rerankBuffer → ∀ id ∈ ids, isArchived env id → id ∈ env.filterArchivedIds ids

/-- No recall of a query returns an archived row. -/
def ArchivedHidden (env : Env) (query : Text) (scope : Scope) : Prop :=
  ∀ ranking limit max rows, memoryFindFactsScoped env ranking query scope limit max = some rows →
    ∀ m ∈ rows, isArchived env m.id = false

/-- No archived row is among those that the passes behind the filter add. -/
structure AddsNoArchived (env : Env) (query : Text) (kept : List Memory) : Prop where
  pool : ∀ m ∈ rerankPool env (fuse env query kept), m ∉ kept → isArchived env m.id = false
  window : 0 < env.windowRadius → ∀ m ∈ rerankPool env (fuse env query kept), ∀ n ∈ sessionNeighbors env m,
    isArchived env n.id = false

/-- No archived row enters past the filter. The aggregation route and the lexical fallback have
none. -/
def NoArchivedEnters (env : Env) (query : Text) (scope : Scope) : Prop :=
  query ≠ [] →
    match env.aggregationHint query with
    | some hint => ∀ items, 0 < items → items ≤ aggregationCap env → ∀ m ∈ aggregated env hint query items,
      isArchived env m.id = false
    | none =>
      if env.vectorReady then
        ∀ limit, 0 < limit → ∀ kept, scopedCandidates env query scope limit = some kept → AddsNoArchived env query kept
      else
        ∀ limit, 0 < limit → ∀ found, memoryFindFactsLexicalFallback env query scope limit limit = some found →
          ∀ m ∈ found, isArchived env m.id = false

variable {env : Env} {query : Text} {scope : Scope} {limit max : ℤ} {rows kept : List Memory}

/-! ### The filter -/

theorem recallCandidates_pool (h : recallCandidates env query limit = some rows) : Pool rerankBuffer rows := by
  unfold recallCandidates at h
  obtain ⟨primary, hprimary, hquestions⟩ := Option.bind_eq_some_iff.1 h
  have hfirst : Pool rerankBuffer primary := by
    split at hprimary
    · exact memoryGenerateCandidates_pool hprimary
    · obtain ⟨found, hfound, hextra⟩ := Option.bind_eq_some_iff.1 hprimary
      obtain ⟨extra, -, rfl⟩ := Option.map_eq_some_iff.1 hextra
      exact (memoryGenerateCandidates_pool hfound).collect extra
  refine foldlM_keeps (fun out question out' hout hstep => ?_) _ hfirst hquestions
  obtain ⟨found, -, rfl⟩ := Option.map_eq_some_iff.1 hstep
  exact hout.collect found

/-- The filter asks about every row of a buffer. -/
theorem filterArchived_unarchived (hhide : env.hideArchived = true) (hreports : ReportsArchived env)
    (hrows : rows.length ≤ rerankBuffer) : ∀ m ∈ filterArchived env rows, isArchived env m.id = false := by
  intro m hm
  rw [filterArchived, if_pos hhide, List.take_of_length_le hrows] at hm
  obtain ⟨hin, hnot⟩ := List.mem_filter.1 hm
  by_contra harchived
  have hreported := hreports (rows.map Memory.id) (by simpa using hrows) m.id (List.mem_map_of_mem hin) (by simpa using harchived)
  simp [hreported] at hnot

/-- The candidates that the filters keep are not archived. -/
theorem scopedCandidates_unarchived (hhide : env.hideArchived = true) (hreports : ReportsArchived env)
    (h : scopedCandidates env query scope limit = some kept) : ∀ m ∈ kept, isArchived env m.id = false := by
  obtain ⟨found, hfound, rfl⟩ := Option.map_eq_some_iff.1 h
  exact filterArchived_unarchived hhide hreports ((recallCandidates_pool hfound).memoryFilterScope env scope).fits

/-! ### The claim -/

theorem effectiveLimit_pos (limit : ℤ) (h : 0 < max) : 0 < effectiveLimit limit max := by
  unfold effectiveLimit
  split_ifs <;> omega

/-- The fallback for a limit and an array is the fallback for the limit that it works with. -/
theorem memoryFindFactsLexicalFallback_effective (h : 0 < max) :
    memoryFindFactsLexicalFallback env query scope limit max =
      memoryFindFactsLexicalFallback env query scope (effectiveLimit limit max) (effectiveLimit limit max) := by
  have hpos := effectiveLimit_pos limit h
  have heff : effectiveLimit (effectiveLimit limit max) (effectiveLimit limit max) = effectiveLimit limit max := by
    rw [effectiveLimit.eq_1 (effectiveLimit limit max), if_neg (not_le.2 hpos), min_self]
  unfold memoryFindFactsLexicalFallback
  simp only [heff, not_le.2 h, not_le.2 hpos]

theorem allRows_fallback_iff {P : ℤ → Prop} (hquery : query ≠ []) (hhint : env.aggregationHint query = none)
    (hready : env.vectorReady = false) :
    AllRows P env query scope ↔
      ∀ limit, 0 < limit → ∀ found, memoryFindFactsLexicalFallback env query scope limit limit = some found →
        ∀ m ∈ found, P m.id := by
  constructor
  · intro h limit _ found hfound
    refine h (favour fun _ => true) limit limit found ?_
    rw [memoryFindFactsScoped_fallback hquery hhint hready, hfound]
  · intro h ranking limit max rows hrows
    rw [memoryFindFactsScoped_fallback hquery hhint hready] at hrows
    by_cases hmax : 0 < max
    · rw [memoryFindFactsLexicalFallback_effective hmax] at hrows
      exact h _ (effectiveLimit_pos limit hmax) rows hrows
    · rw [memoryFindFactsLexicalFallback, if_pos (.inr (not_lt.1 hmax))] at hrows
      obtain rfl := Option.some.inj hrows
      simp

theorem addsOnly_unarchived_iff :
    AddsOnly (fun id => isArchived env id = false) env query kept ↔ AddsNoArchived env query kept :=
  ⟨fun h => ⟨h.pool, h.window⟩, fun h => ⟨h.pool, h.window⟩⟩

/-- **Archived rows stay hidden** exactly when none of them enters past the filter. -/
theorem archivedHidden_iff (env : Env) (hhide : env.hideArchived = true) (hreports : ReportsArchived env)
    (query : Text) (scope : Scope) : ArchivedHidden env query scope ↔ NoArchivedEnters env query scope := by
  show AllRows (fun id => isArchived env id = false) env query scope ↔ NoArchivedEnters env query scope
  unfold NoArchivedEnters
  by_cases hquery : query = []
  · simp only [hquery, ne_eq, not_true_eq_false, false_implies, iff_true]
    exact allRows_of_empty rfl
  · simp only [ne_eq, hquery, not_false_eq_true, true_implies]
    cases hhint : env.aggregationHint query with
    | some hint => exact allRows_aggregated_iff hquery hhint
    | none =>
      cases hready : env.vectorReady with
      | true =>
        rw [allRows_vector_iff hquery hhint hready fun _ _ hkept => scopedCandidates_unarchived hhide hreports hkept]
        simp only [addsOnly_unarchived_iff, if_true]
      | false =>
        simp only [Bool.false_eq_true, if_false]
        exact allRows_fallback_iff hquery hhint hready

/-! ### A session with an archived row -/

/-- The session window is open, and row 2 is archived. -/
def archivedEnv (windowRadius : ℤ) : Env :=
  { bareEnv sessionRows with
    windowRadius
    hideArchived := true
    filterArchivedIds := fun ids => ids.filter (· = 2) }

theorem archivedEnv_reports (radius : ℤ) : ReportsArchived (archivedEnv radius) := by
  intro ids _ id hid harchived
  simp only [isArchived, archivedEnv, List.mem_filter, decide_eq_true_eq] at harchived ⊢
  exact ⟨hid, harchived.2⟩

/-- With the window closed the archived row stays hidden. -/
theorem closedWindow_archivedHidden : ArchivedHidden (archivedEnv 0) (text "port") ⟨none, none⟩ := by
  refine (archivedHidden_iff (archivedEnv 0) rfl (archivedEnv_reports 0) (text "port") ⟨none, none⟩).2 fun _ => ?_
  show ∀ limit, 0 < limit → ∀ kept, scopedCandidates (archivedEnv 0) (text "port") ⟨none, none⟩ limit = some kept →
    AddsNoArchived (archivedEnv 0) (text "port") kept
  intro limit _ kept _
  refine ⟨fun m hm hnot => absurd ?_ hnot, fun hradius => absurd hradius (by decide)⟩
  have hm' : m ∈ if kept.length ≤ 1 then kept else kept.take scoreCap := hm
  split at hm'
  · exact hm'
  · exact List.mem_of_mem_take hm'

/-- With it open the archived neighbour is returned. -/
theorem archived_leak : ∃ rows,
    memoryFindFactsScoped (archivedEnv 1) flatRanking (text "port") ⟨none, none⟩ 5 5 = some rows ∧
      ¬ ∀ m ∈ rows, isArchived (archivedEnv 1) m.id = false := by
  have hrun : (memoryFindFactsScoped (archivedEnv 1) flatRanking (text "port") ⟨none, none⟩ 5 5).map
      (List.map Memory.id) = some [1, 2] := by decide +kernel
  have harchived : ¬ isArchived (archivedEnv 1) 2 = false := by decide +kernel
  exact returns_of_ids (fun id => isArchived (archivedEnv 1) id = false) hrun (by simp) harchived

end AimeeMemory.Recall
