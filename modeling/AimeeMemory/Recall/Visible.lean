import AimeeMemory.Recall.Rerank

/-!
# Visible recall

`memory_find_facts_visible_ex` drops the candidates that the scope context does not show,
lets the reranker append the linked rows, and sorts what is left by visibility. The sort
moves the hidden rows to the end of the reported ones, it does not drop them.

## What is proved

* **`allVisible_iff`**: a recall returns only visible rows, whatever the ranking, exactly when
  no linked row is hidden, or so few that the limit leaves them out.
* **`linked_leak`**: a hidden row that is linked to a candidate is returned.
-/

namespace AimeeMemory.Recall

open AimeeMemory.Core AimeeMemory.Lib

/-- The scope context of a recall. An enclosing one decides on `include_all`. -/
def enteredContext (previous : Option ScopeContext) (workspace project : Option Text) (includeAll : Bool) :
    ScopeContext where
  workspace
  project
  includeAll := (previous.map ScopeContext.includeAll).getD includeAll

variable (env : Env) (ctx : ScopeContext)

/-- Whether the scope context shows a row. -/
def isVisible (m : Memory) : Bool := 0 < env.scopeContextRank ctx m.id

/-- The visibility filter. -/
def filterVisible (rows : List Memory) : List Memory := rows.filter fun m => isVisible env ctx m || ctx.includeAll

/-- One lookup of the visible lexical fallback. -/
def visibleLexicalLane (limit : ℤ) (out : List Memory) (term : Text) : Option (List Memory) :=
  (env.findFactsLike term (min (limit * 4) 64) 64).map (collect 64 out)

/-- `memory_find_facts_visible_lexical_fallback`, in an active scope context. -/
def memoryFindFactsVisibleLexicalFallback (query : Text) (limit max : ℤ) : Option (List Memory) :=
  if query = [] ∨ max ≤ 0 then some []
  else
    let limit := effectiveLimit limit max
    ((visibleLexicalLane env limit [] query).bind fun out =>
    (env.splitTokens (env.normalizeKey query)).foldlM (fun out token =>
      if out.length < 64 ∧ env.isSignalToken token then visibleLexicalLane env limit out token else some out)
      out).map fun rows =>
    (selectionSort (fun m => env.scopeContextRank ctx m.id) (filterVisible env ctx rows)).take limit.toNat

/-- The candidates that the visibility filter keeps. -/
def visibleCandidates (query : Text) (limit : ℤ) : Option (List Memory) :=
  let norm := normQuery env query
  let plan := (memoryQueryPlan env query limit).getD .zero
  (memoryGenerateCandidates env query norm (env.queryIntent query norm) plan
    ((fetchBounds env plan limit).fetchLimit limit) rerankBuffer).map (filterVisible env ctx)

/-- `memory_sort_scope_buckets`. -/
def memorySortScopeBuckets (rows : List Memory) : List Memory :=
  insertionSort (fun m => env.scopeContextRank ctx m.id) rows

/-- The rows that the rerank of the kept candidates reports. -/
def rerankedTop (ranking : Ranking) (kept : List Memory) : List Memory :=
  let ranked := memoryRerankMatches env ranking kept kept.length
  ranked.1.take ranked.2.toNat

/-- The passes behind the visibility filter. -/
def visibleTop (ranking : Ranking) (kept : List Memory) (limit max : ℤ) : List Memory :=
  let top := rerankedTop env ranking kept
  let reported := min (min (top.length : ℤ) limit) max
  let placed := applyLaneFloors env ranking (memorySortScopeBuckets env ctx top) top.length reported
  (memorySortScopeBuckets env ctx placed).take reported.toNat

/-- `memory_find_facts_visible_ex`, or `none` where it fails. -/
def memoryFindFactsVisibleEx (ranking : Ranking) (previous : Option ScopeContext) (query : Text)
    (workspace project : Option Text) (includeAll : Bool) (limit max : ℤ) : Option (List Memory) :=
  if query = [] then some []
  else
    let ctx := enteredContext previous workspace project includeAll
    if env.vectorReady then
      let limit := effectiveLimit limit max
      (visibleCandidates env ctx query limit).map fun kept => visibleTop env ctx ranking kept limit max
    else memoryFindFactsVisibleLexicalFallback env ctx query limit max

/-! ### Visibility -/

/-- A recall that is not asked for everything returns only rows that its context shows. -/
def AllVisible (previous : Option ScopeContext) (query : Text) (workspace project : Option Text) (limit max : ℤ) :
    Prop :=
  ∀ ranking rows,
    memoryFindFactsVisibleEx env ranking previous query workspace project false limit max = some rows →
      ∀ m ∈ rows, 0 < env.scopeContextRank (enteredContext previous workspace project false) m.id

/-- The number of hidden rows that the reranker appends to the kept candidates. -/
def hiddenLinked (kept : List Memory) : ℕ := (rerankPool env kept).countP fun m => !isVisible env ctx m

/-- No linked row is hidden, or the limit leaves as many of the kept candidates out. -/
def HiddenLeftOut (query : Text) (limit max : ℤ) : Prop :=
  query ≠ [] → env.vectorReady = true → ∀ kept, visibleCandidates env ctx query (effectiveLimit limit max) = some kept →
    hiddenLinked env ctx kept = 0 ∨ (effectiveLimit limit max).toNat ≤ kept.length - hiddenLinked env ctx kept

variable {env ctx} {ranking : Ranking} {kept : List Memory} {query : Text} {limit max : ℤ} {rows : List Memory}

theorem mem_filterVisible (hall : ctx.includeAll = false) {m : Memory} (h : m ∈ filterVisible env ctx rows) :
    isVisible env ctx m := by
  simpa [filterVisible, hall] using (List.mem_filter.1 h).2

theorem visibleCandidates_length (h : visibleCandidates env ctx query limit = some kept) :
    kept.length ≤ scoreCap := by
  obtain ⟨rows, hrows, rfl⟩ := Option.map_eq_some_iff.1 h
  calc (filterVisible env ctx rows).length ≤ rows.length := List.length_filter_le _ _
    _ ≤ rerankBuffer := (memoryGenerateCandidates_pool hrows).fits
    _ ≤ scoreCap := by decide

theorem visibleCandidates_visible (hall : ctx.includeAll = false)
    (h : visibleCandidates env ctx query limit = some kept) : ∀ m ∈ kept, isVisible env ctx m := by
  obtain ⟨rows, -, rfl⟩ := Option.map_eq_some_iff.1 h
  exact fun m hm => mem_filterVisible hall hm

theorem memoryFindFactsVisibleLexicalFallback_visible (hall : ctx.includeAll = false)
    (h : memoryFindFactsVisibleLexicalFallback env ctx query limit max = some rows) :
    ∀ m ∈ rows, isVisible env ctx m := by
  unfold memoryFindFactsVisibleLexicalFallback at h
  by_cases hempty : query = [] ∨ max ≤ 0
  · rw [if_pos hempty] at h
    obtain rfl := Option.some.inj h
    simp
  · rw [if_neg hempty] at h
    obtain ⟨found, -, rfl⟩ := Option.map_eq_some_iff.1 h
    exact fun m hm => mem_filterVisible hall ((selectionSort_perm _ _).mem_iff.1 (List.mem_of_mem_take hm))

/-! ### The sort -/

theorem memorySortScopeBuckets_perm (rows : List Memory) : (memorySortScopeBuckets env ctx rows).Perm rows :=
  insertionSort_perm _ rows

/-- Visible rows come before hidden ones. -/
theorem memorySortScopeBuckets_sorted (rows : List Memory) :
    (memorySortScopeBuckets env ctx rows).Pairwise fun a b => isVisible env ctx b → isVisible env ctx a := by
  have hsorted := insertionSort_sorted (fun m : Memory => env.scopeContextRank ctx m.id) rows
  refine hsorted.imp ?_
  intro a b hab hb
  simp only [isVisible, decide_eq_true_eq] at hb ⊢
  omega

/-- The reported rows are visible exactly when the top has as many visible rows. -/
theorem visibleTop_visible_iff :
    (∀ m ∈ visibleTop env ctx ranking kept limit max, isVisible env ctx m) ↔
      (min (min ((rerankedTop env ranking kept).length : ℤ) limit) max).toNat ≤
        (rerankedTop env ranking kept).countP (isVisible env ctx) := by
  have hperm : ∀ count total, (memorySortScopeBuckets env ctx (applyLaneFloors env ranking
      (memorySortScopeBuckets env ctx (rerankedTop env ranking kept)) count total)).Perm
      (rerankedTop env ranking kept) := fun count total =>
    (memorySortScopeBuckets_perm _).trans ((applyLaneFloors_perm ranking _ _ _).trans (memorySortScopeBuckets_perm _))
  simp only [visibleTop]
  rw [forall_mem_take_iff (memorySortScopeBuckets_sorted _), (hperm _ _).countP_eq]
  rw [(hperm _ _).length_eq]
  omega

/-! ### The reranked rows -/

theorem memoryRerankMatches_countP (p : Memory → Bool) (rows : List Memory) (limit : ℤ) :
    (memoryRerankMatches env ranking rows limit).1.countP (p ·.unranked) =
      (rerankPool env rows).countP (p ·.unranked) := by
  have hmap : ∀ xs : List Memory, xs.countP (p ·.unranked) = (xs.map Memory.unranked).countP p := by
    intro xs
    rw [List.countP_map]
    rfl
  unfold memoryRerankMatches
  split_ifs with hsingle
  · rw [rerankPool, if_pos hsingle]
  · rw [hmap, hmap, (rerankRows_perm _ _).countP_eq]

theorem rerankedTop_length (env : Env) (ranking : Ranking) (hkept : kept.length ≤ scoreCap) :
    (rerankedTop env ranking kept).length = kept.length := by
  have hle := (prefix_rerankPool env hkept).length_le
  simp only [rerankedTop, memoryRerankMatches]
  split_ifs
  · simp
  · have hlen := (rerankRows_perm ranking (rerankPool env kept)).length_eq
    simp only [List.length_map] at hlen
    rw [List.length_take, hlen]
    omega

theorem rerankedTop_eq (hkept : kept.length ≤ scoreCap) :
    rerankedTop env ranking kept = (memoryRerankMatches env ranking kept kept.length).1.take kept.length := by
  have hle := (prefix_rerankPool env hkept).length_le
  simp only [rerankedTop, memoryRerankMatches]
  split_ifs
  · simp
  · congr 1
    omega

/-- The visible and the hidden rows of the top. -/
theorem rerankedTop_countP (env : Env) (ctx : ScopeContext) (ranking : Ranking) (hkept : kept.length ≤ scoreCap) :
    (rerankedTop env ranking kept).countP (isVisible env ctx) +
      (rerankedTop env ranking kept).countP (fun m => !isVisible env ctx m) = kept.length := by
  rw [← rerankedTop_length env ranking hkept]
  have hsum := List.length_eq_countP_add_countP (isVisible env ctx) (l := rerankedTop env ranking kept)
  simpa using hsum.symm

/-- The top has no more hidden rows than there are. -/
theorem rerankedTop_hidden_le (env : Env) (ctx : ScopeContext) (ranking : Ranking) (hkept : kept.length ≤ scoreCap) :
    (rerankedTop env ranking kept).countP (fun m => !isVisible env ctx m) ≤ hiddenLinked env ctx kept := by
  rw [rerankedTop_eq hkept]
  calc ((memoryRerankMatches env ranking kept kept.length).1.take kept.length).countP (fun m => !isVisible env ctx m)
      ≤ (memoryRerankMatches env ranking kept kept.length).1.countP (fun m => !isVisible env ctx m) :=
        (List.take_sublist _ _).countP_le
    _ = hiddenLinked env ctx kept := memoryRerankMatches_countP (fun m => !isVisible env ctx m) kept _

/-- Some ranking puts as many hidden rows into the top as fit. -/
theorem exists_rerankedTop_hidden (hkept : kept.length ≤ scoreCap) (hvisible : ∀ m ∈ kept, isVisible env ctx m) :
    ∃ ranking, (rerankedTop env ranking kept).countP (fun m => !isVisible env ctx m) =
      min kept.length (hiddenLinked env ctx kept) := by
  refine ⟨favour fun m => !isVisible env ctx m, ?_⟩
  rw [rerankedTop_eq hkept]
  unfold memoryRerankMatches
  split_ifs with hsingle
  · have hnone : kept.countP (fun m => !isVisible env ctx m) = 0 :=
      List.countP_eq_zero.2 fun m hm => by simp [hvisible m hm]
    rw [hiddenLinked, rerankPool, if_pos hsingle, List.take_length, hnone, Nat.min_zero]
  · exact countP_take_favoured (fun m => !isVisible env ctx m) (rerankPool env kept) kept.length

/-- The reported rows are visible under every ranking exactly when the hidden ones do not reach
them. -/
theorem forall_visibleTop_iff (hkept : kept.length ≤ scoreCap) (hvisible : ∀ m ∈ kept, isVisible env ctx m)
    (hlimit : limit ≤ max) :
    (∀ ranking, ∀ m ∈ visibleTop env ctx ranking kept limit max, isVisible env ctx m) ↔
      hiddenLinked env ctx kept = 0 ∨ limit.toNat ≤ kept.length - hiddenLinked env ctx kept := by
  have hempty : kept.length = 0 → hiddenLinked env ctx kept = 0 := by
    intro hnil
    rw [List.eq_nil_of_length_eq_zero hnil]
    rfl
  simp only [visibleTop_visible_iff, rerankedTop_length _ _ hkept]
  constructor
  · intro h
    obtain ⟨ranking, hhidden⟩ := exists_rerankedTop_hidden hkept hvisible
    have hcount := rerankedTop_countP env ctx ranking hkept
    have := h ranking
    omega
  · intro h ranking
    have hcount := rerankedTop_countP env ctx ranking hkept
    have hhidden := rerankedTop_hidden_le env ctx ranking hkept
    omega

/-- **Visibility**: a recall that is not asked for everything, also not by an enclosing one,
returns only visible rows exactly when the hidden linked rows are left out. -/
theorem allVisible_iff {previous : Option ScopeContext} (hprevious : ∀ p ∈ previous, p.includeAll = false)
    (query : Text) (workspace project : Option Text) (limit max : ℤ) :
    AllVisible env previous query workspace project limit max ↔
      HiddenLeftOut env (enteredContext previous workspace project false) query limit max := by
  have hall : (enteredContext previous workspace project false).includeAll = false := by
    cases previous with
    | none => rfl
    | some p => exact hprevious p rfl
  unfold AllVisible HiddenLeftOut memoryFindFactsVisibleEx
  by_cases hquery : query = []
  · simp [hquery]
  · cases hready : env.vectorReady with
    | false =>
      simp only [hquery, if_false, Bool.false_eq_true, false_implies, implies_true, iff_true]
      intro _ rows hrows m hm
      simpa [isVisible] using memoryFindFactsVisibleLexicalFallback_visible hall hrows m hm
    | true =>
      have hvisible : ∀ m, isVisible env (enteredContext previous workspace project false) m ↔
          0 < env.scopeContextRank (enteredContext previous workspace project false) m.id := by
        simp [isVisible]
      simp only [hquery, if_false, if_true, ne_eq, not_false_eq_true, true_implies, Option.map_eq_some_iff]
      have hmax : effectiveLimit limit max ≤ max := min_le_right _ _
      constructor
      · intro h kept hkept
        refine (forall_visibleTop_iff (visibleCandidates_length hkept) (visibleCandidates_visible hall hkept) hmax).1 ?_
        intro ranking m hm
        exact (hvisible m).2 (h ranking _ ⟨kept, hkept, rfl⟩ m hm)
      · rintro h ranking _ ⟨kept, hkept, rfl⟩ m hm
        exact (hvisible m).1 ((forall_visibleTop_iff (visibleCandidates_length hkept)
          (visibleCandidates_visible hall hkept) hmax).2 (h kept hkept) ranking m hm)

/-! ### A link to a hidden row -/

/-- Three rows, of which the first and the last speak of a port. -/
def linkedRows : List Memory :=
  [{ id := 1, key := text "a", content := text "port 80" }, { id := 2, key := text "b", content := text "hidden" },
    { id := 3, key := text "c", content := text "port 443" }]

/-- Row 2 is hidden, and linked to row 1. -/
def linkedEnv (pagerankEnabled : Bool) : Env :=
  { bareEnv linkedRows with
    pagerankEnabled
    linkQuery := fun id => if id = 1 then [⟨1, 2, text "related_to"⟩] else []
    scopeContextRank := fun _ id => if id = 2 then 0 else 1 }

/-- Without pagerank all rows are visible. -/
theorem unlinked_allVisible : AllVisible (linkedEnv false) none (text "port") none (some (text "atlas")) 5 5 := by
  refine (allVisible_iff (by simp) (text "port") none (some (text "atlas")) 5 5).2 fun _ _ kept hkept => .inl ?_
  have hrows : visibleCandidates (linkedEnv false) (enteredContext none none (some (text "atlas")) false) (text "port")
      (effectiveLimit 5 5) = some [linkedRows.get ⟨0, by decide⟩, linkedRows.get ⟨2, by decide⟩] := by
    decide +kernel
  obtain rfl := Option.some.inj (hrows.symm.trans hkept)
  decide +kernel

/-- With it the hidden row is returned where it ranks high enough. -/
theorem linked_leak : ∃ rows, memoryFindFactsVisibleEx (linkedEnv true) (favour fun m => m.id = 2) none (text "port")
    none (some (text "atlas")) false 5 5 = some rows ∧
      ¬ ∀ m ∈ rows, 0 < (linkedEnv true).scopeContextRank (enteredContext none none (some (text "atlas")) false) m.id := by
  have hrun : (memoryFindFactsVisibleEx (linkedEnv true) (favour fun m => m.id = 2) none (text "port") none
      (some (text "atlas")) false 5 5).map (List.map Memory.id) = some [3, 2] := by decide +kernel
  have hhidden : ¬ 0 < (linkedEnv true).scopeContextRank (enteredContext none none (some (text "atlas")) false) 2 := by
    decide +kernel
  exact returns_of_ids (fun id => 0 < (linkedEnv true).scopeContextRank (enteredContext none none (some (text "atlas")) false) id)
    hrun (by simp) hhidden

end AimeeMemory.Recall
