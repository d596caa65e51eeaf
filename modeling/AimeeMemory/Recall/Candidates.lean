import AimeeMemory.Recall.Query

/-!
# Candidates

How `memory_generate_candidates` fills the candidate buffer: one lane after the other
appends the rows it finds, unless a row of that id is there or the buffer is full. The
buffer of a recall then goes through the scope filter and the archive filter.

## What is proved

* **`memoryGenerateCandidates_pool`**: the candidates fit in the buffer and have different ids.
* **`mem_memoryFilterScope`**: what the scope filter keeps.
-/

namespace AimeeMemory.Recall

open AimeeMemory.Core

/-- `memory_append_unique`. -/
def memoryAppendUnique (max : ℕ) (out : List Memory) (m : Memory) : List Memory :=
  if out.length < max ∧ ∀ o ∈ out, o.id ≠ m.id then out ++ [m] else out

/-- The rows that a lane found, appended. -/
def collect (max : ℕ) (out rows : List Memory) : List Memory := rows.foldl (memoryAppendUnique max) out

/-- `memory_candidates_merge`. -/
def memoryCandidatesMerge (primary extra : List Memory) (cap : ℕ) : List Memory := collect cap primary extra

/-! ### The lanes -/

/-- The fetch limits of the variant lanes and of the semantic lanes. -/
def laneLimits (plan : Plan) (intent : Intent) (fetchLimit : ℤ) : ℤ × ℤ :=
  let variant := match plan.route with
    | .hybrid => (fetchLimit * 2).tdiv 3
    | .graph => fetchLimit.tdiv 2
    | .lexical | .semantic => fetchLimit
  let semantic := match plan.route with
    | .hybrid => (fetchLimit * 3).tdiv 4
    | .graph => if intent = .temporal then (fetchLimit * 3).tdiv 4 else 0
    | .semantic => fetchLimit
    | .lexical => if intent = .temporal then (fetchLimit * 3).tdiv 4 else fetchLimit
  let variant := if variant < 6 then min fetchLimit 6 else variant
  let semantic := if semantic < 8 then min fetchLimit 8 else semantic
  (variant, if intent = .temporal ∧ semantic < 12 then min fetchLimit 12 else semantic)

/-- `memory_collect_variant_candidates`. -/
def memoryCollectVariantCandidates (env : Env) (query variant : Text) (intent : Intent) (limit : ℤ) (max : ℕ)
    (out : List Memory) : Option (List Memory) :=
  if variant = [] then some out else (env.variantMatches query variant intent limit).map (collect max out)

/-- A semantic lane, which fails where the vector index does. -/
def collectSemantic (max : ℕ) (out : List Memory) (found : Option (List Memory)) : Option (List Memory) :=
  if out.length < max then found.map (collect max out) else some out

/-- The lanes for a query of negative polarity. -/
def collectNegated (env : Env) (query : Text) (limit : ℤ) (max : ℕ) (out : List Memory) : List Memory :=
  match env.negatedTerms query with
  | none => out
  | some terms => collect max (collect max out (env.negationFtsMatches terms limit)) (env.vectorMatches terms limit)

/-- `memory_generate_candidates`. -/
def memoryGenerateCandidates (env : Env) (query norm : Text) (intent : Intent) (plan : Plan) (fetchLimit : ℤ)
    (max : ℕ) : Option (List Memory) :=
  if query = [] ∨ norm = [] then some []
  else
    let limits := laneLimits plan intent fetchLimit
    let graph := if plan.route = .graph then collect max [] (env.graphMatches query norm fetchLimit) else []
    (memoryCollectVariantCandidates env query norm intent limits.1 max graph).bind fun out =>
    ((env.queryDecomposition norm).foldlM (fun out sub =>
      if out.length < max then
        memoryCollectVariantCandidates env query sub intent
          (if 0 < limits.1.tdiv 2 then limits.1.tdiv 2 else 1) max out
      else some out) out).bind fun out =>
    (if plan.semanticEnabled then
      (collectSemantic max out (env.unitSemanticMatches query limits.2)).bind fun out =>
        collectSemantic max out (env.semanticMatches query limits.2)
      else some out).bind fun out =>
    some (collect max (collectNegated env query fetchLimit max out) ((env.findFactsLike norm fetchLimit 128).getD []))

/-! ### The filters -/

/-- `memory_filter_scope`. -/
def memoryFilterScope (env : Env) (scope : Scope) (rows : List Memory) : List Memory :=
  match scope.asked with
  | none => rows
  | some _ => rows.filter fun m => memoryScopeMatches env m.id scope

/-- The archive filter. -/
def filterArchived (env : Env) (rows : List Memory) : List Memory :=
  if env.hideArchived then
    let archived := env.filterArchivedIds ((rows.take rerankBuffer).map Memory.id)
    rows.filter fun m => m.id ∉ archived
  else rows

variable {env : Env} {max : ℕ} {out rows : List Memory} {m : Memory}

theorem mem_memoryFilterScope {scope : Scope} :
    m ∈ memoryFilterScope env scope rows ↔ m ∈ rows ∧ memoryScopeMatches env m.id scope := by
  unfold memoryFilterScope
  cases hasked : scope.asked with
  | none => simp [memoryScopeMatches, hasked]
  | some asked => simp

theorem mem_filterArchived (h : m ∈ filterArchived env rows) : m ∈ rows := by
  unfold filterArchived at h
  split_ifs at h
  · exact (List.mem_filter.1 h).1
  · exact h

/-! ### What a lane appends -/

theorem prefix_memoryAppendUnique (max : ℕ) (out : List Memory) (m : Memory) : out <+: memoryAppendUnique max out m := by
  unfold memoryAppendUnique
  split_ifs
  · exact List.prefix_append _ _
  · exact List.prefix_refl _

theorem prefix_collect (max : ℕ) (out rows : List Memory) : out <+: collect max out rows := by
  unfold collect
  induction rows generalizing out with
  | nil => exact List.prefix_refl _
  | cons m ms ih => exact (prefix_memoryAppendUnique max out m).trans (ih _)

theorem mem_collect (h : m ∈ collect max out rows) : m ∈ out ∨ m ∈ rows := by
  unfold collect at h
  induction rows generalizing out with
  | nil => exact .inl h
  | cons r rs ih =>
    rcases ih h with h | h
    · unfold memoryAppendUnique at h
      split_ifs at h
      · rcases List.mem_append.1 h with h | h
        · exact .inl h
        · exact .inr (List.mem_cons.2 (.inl (List.mem_singleton.1 h)))
      · exact .inl h
    · exact .inr (List.mem_cons_of_mem _ h)

theorem memoryAppendUnique_length_le (max : ℕ) (out : List Memory) (m : Memory) :
    (memoryAppendUnique max out m).length ≤ out.length + 1 := by
  unfold memoryAppendUnique
  split_ifs <;> simp

theorem collect_length_le (max : ℕ) (out rows : List Memory) :
    (collect max out rows).length ≤ out.length + rows.length := by
  unfold collect
  induction rows generalizing out with
  | nil => exact le_rfl
  | cons m ms ih =>
    have hstep := memoryAppendUnique_length_le max out m
    have hrest := ih (memoryAppendUnique max out m)
    simp only [List.foldl_cons, List.length_cons]
    omega

/-- A row is in the buffer afterwards, itself or another of its id, if there is room for all. -/
theorem id_mem_collect (hroom : out.length + rows.length ≤ max) (h : m ∈ rows) :
    ∃ o ∈ collect max out rows, o.id = m.id := by
  induction rows generalizing out with
  | nil => simp at h
  | cons r rs ih =>
    have hlen := memoryAppendUnique_length_le max out r
    simp only [List.length_cons] at hroom
    rcases List.mem_cons.1 h with rfl | h
    · have hin : ∃ o ∈ memoryAppendUnique max out m, o.id = m.id := by
        unfold memoryAppendUnique
        split_ifs with hnew
        · exact ⟨m, by simp, rfl⟩
        · simpa [show out.length < max by omega] using hnew
      obtain ⟨o, ho, hid⟩ := hin
      exact ⟨o, (prefix_collect max _ rs).subset ho, hid⟩
    · exact ih (by omega) h

/-! ### The invariant of the buffer -/

/-- The rows fit in a buffer and have different ids. -/
structure Pool (max : ℕ) (out : List Memory) : Prop where
  fits : out.length ≤ max
  distinct : (out.map Memory.id).Nodup

theorem Pool.nil : Pool max [] := ⟨Nat.zero_le _, List.nodup_nil⟩

theorem Pool.memoryAppendUnique (h : Pool max out) (m : Memory) : Pool max (memoryAppendUnique max out m) := by
  unfold Recall.memoryAppendUnique
  split_ifs with hnew
  · obtain ⟨hroom, hfresh⟩ := hnew
    refine ⟨by simp; omega, ?_⟩
    rw [List.map_append, List.nodup_append]
    refine ⟨h.distinct, by simp, ?_⟩
    simpa using hfresh
  · exact h

theorem Pool.collect (h : Pool max out) (rows : List Memory) : Pool max (collect max out rows) := by
  unfold Recall.collect
  induction rows generalizing out with
  | nil => exact h
  | cons m ms ih => exact ih (h.memoryAppendUnique m)

theorem Pool.sublist (h : Pool max out) (hs : rows.Sublist out) : Pool max rows :=
  ⟨hs.length_le.trans h.fits, h.distinct.sublist (hs.map _)⟩

theorem Pool.memoryFilterScope (h : Pool max rows) (env : Env) (scope : Scope) :
    Pool max (memoryFilterScope env scope rows) := by
  unfold Recall.memoryFilterScope
  split
  · exact h
  · exact h.sublist List.filter_sublist

theorem Pool.filterArchived (h : Pool max rows) (env : Env) : Pool max (filterArchived env rows) := by
  unfold Recall.filterArchived
  split_ifs
  · exact h.sublist List.filter_sublist
  · exact h

/-- A fallible lane keeps what holds of the buffer. -/
theorem pool_of_map_collect {found : Option (List Memory)} (h : Pool max out)
    (hfound : found.map (collect max out) = some rows) : Pool max rows := by
  obtain ⟨_, -, rfl⟩ := Option.map_eq_some_iff.1 hfound
  exact h.collect _

theorem pool_of_variant {query variant : Text} {intent : Intent} {limit : ℤ} (h : Pool max out)
    (hrows : memoryCollectVariantCandidates env query variant intent limit max out = some rows) : Pool max rows := by
  unfold memoryCollectVariantCandidates at hrows
  split_ifs at hrows
  · obtain rfl := Option.some.inj hrows
    exact h
  · exact pool_of_map_collect h hrows

theorem pool_of_semantic {found : Option (List Memory)} (h : Pool max out)
    (hrows : collectSemantic max out found = some rows) : Pool max rows := by
  unfold collectSemantic at hrows
  split_ifs at hrows
  · exact pool_of_map_collect h hrows
  · obtain rfl := Option.some.inj hrows
    exact h

theorem Pool.collectNegated (h : Pool max out) (env : Env) (query : Text) (limit : ℤ) :
    Pool max (collectNegated env query limit max out) := by
  unfold Recall.collectNegated
  split
  · exact h
  · exact (h.collect _).collect _

/-- What every step of a fallible fold keeps, the fold keeps. -/
theorem foldlM_keeps {α β : Type*} {P : β → Prop} {f : β → α → Option β}
    (hstep : ∀ b a b', P b → f b a = some b' → P b') (as : List α) {b b' : β} (hb : P b)
    (h : as.foldlM f b = some b') : P b' := by
  induction as generalizing b with
  | nil =>
    obtain rfl := Option.some.inj h
    exact hb
  | cons a as ih =>
    obtain ⟨c, hc, hrest⟩ := Option.bind_eq_some_iff.1 (by simpa using h)
    exact ih (hstep b a c hb hc) hrest

theorem memoryGenerateCandidates_pool {query norm : Text} {intent : Intent} {plan : Plan} {fetchLimit : ℤ}
    (h : memoryGenerateCandidates env query norm intent plan fetchLimit max = some rows) : Pool max rows := by
  unfold memoryGenerateCandidates at h
  by_cases hempty : query = [] ∨ norm = []
  · rw [if_pos hempty] at h
    obtain rfl := Option.some.inj h
    exact .nil
  · rw [if_neg hempty] at h
    simp only [Option.bind_eq_some_iff] at h
    obtain ⟨first, hfirst, decomposed, hdecomposed, semantic, hsemantic, hlast⟩ := h
    obtain rfl := Option.some.inj hlast
    have hgraph : Pool max (if plan.route = .graph then collect max [] (env.graphMatches query norm fetchLimit) else []) := by
      split_ifs
      · exact Pool.nil.collect _
      · exact .nil
    have hfirst' : Pool max first := pool_of_variant hgraph hfirst
    have hdecomposed' : Pool max decomposed := by
      refine foldlM_keeps (fun out sub out' hout hstep => ?_) _ hfirst' hdecomposed
      by_cases hroom : out.length < max
      · rw [if_pos hroom] at hstep
        exact pool_of_variant hout hstep
      · rw [if_neg hroom] at hstep
        exact Option.some.inj hstep ▸ hout
    have hsemantic' : Pool max semantic := by
      split_ifs at hsemantic
      · obtain ⟨units, hunits, hmemories⟩ := Option.bind_eq_some_iff.1 hsemantic
        exact pool_of_semantic (pool_of_semantic hdecomposed' hunits) hmemories
      · obtain rfl := Option.some.inj hsemantic
        exact hdecomposed'
    exact (hsemantic'.collectNegated env query fetchLimit).collect _

end AimeeMemory.Recall
