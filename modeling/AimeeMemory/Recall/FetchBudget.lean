import AimeeMemory.Recall.ThreadState

/-!
# The fetch budget

How many rows `memory_find_facts_scoped` fetches for a limit: the plan, the overrides of the
environment, which are kept between the limit and the buffer, and the dynamic budget.

## What is proved

* **`scopedFetchLimit_within_iff`**: the fetch limit lies between the limit, as far as the buffer
  goes, and the buffer exactly when something other than the plan bounds a limit above the
  buffer, and the dynamic budget does not stay below the limit.

## Honest scope

What the multiplier makes of the limit plays no part in either bound (`clamped_within_iff`), so
neither does its overflow.
-/

namespace AimeeMemory.Recall

open AimeeMemory.Core

variable {env : Env} {plan : Plan} {query norm : Text} {limit : ℤ}

/-! ### The plan and the overrides -/

/-- What a plan fetches at least and at most. Only a limit above the buffer lifts it above the buffer. -/
structure Plan.Bounded (plan : Plan) (limit : ℤ) : Prop where
  minFetch_pos : 0 < plan.minFetch
  minFetch_le : plan.minFetch ≤ rerankBuffer
  limit_le : limit ≤ plan.maxFetch
  maxFetch_pos : 0 < plan.maxFetch
  maxFetch_le : limit ≤ rerankBuffer → plan.maxFetch ≤ rerankBuffer

theorem Shape.fetch_bounds (shape : Shape) : 0 < shape.fetch.2 ∧ shape.fetch.2 ≤ 36 := by
  cases shape <;> decide

theorem memoryQueryPlan_bounded (h : memoryQueryPlan env query limit = some plan) : plan.Bounded limit := by
  unfold memoryQueryPlan at h
  by_cases hquery : query = []
  · simp [hquery] at h
  · obtain ⟨hpos, hle⟩ := (env.queryShape query (normQuery env query)).fetch_bounds
    obtain ⟨asked, hasked, hlimit, hone, hcap⟩ : ∃ asked : ℤ, (if limit ≤ 0 then 10 else limit) = asked ∧
        limit ≤ asked ∧ 0 < asked ∧ (limit ≤ 96 → asked ≤ 96) :=
      ⟨_, rfl, by split_ifs <;> omega⟩
    simp only [if_neg hquery, hasked] at h
    generalize (env.queryShape query (normQuery env query)).fetch = fetch at h hpos hle
    generalize (if env.routingEnabled then _ else _ : Route) = route at h
    obtain ⟨multiplier, minFetch⟩ := fetch
    simp only at hpos hle
    cases route <;> obtain rfl := Option.some.inj h <;> constructor <;> simp only [rerankBuffer] <;> omega

theorem memoryEnvInt_le (n : ℤ) (fallback least most : ℤ) : memoryEnvInt (some n) fallback least most ≤ most :=
  min_le_right _ _

theorem le_memoryEnvInt (n : ℤ) (fallback least most : ℤ) :
    min least most ≤ memoryEnvInt (some n) fallback least most :=
  min_le_min_right _ (le_max_right _ _)

/-! ### The bounds of a fetch -/

theorem fetchBounds_least_le (h : plan.Bounded limit) : (fetchBounds env plan limit).least ≤ rerankBuffer := by
  simp only [fetchBounds, if_pos h.minFetch_pos]
  cases env.envFetchMin with
  | none => exact h.minFetch_le
  | some n => exact memoryEnvInt_le n _ _ _

/-- The least fetch reaches the limit where the environment sets it, or the plan does. -/
theorem le_fetchBounds_least_iff (h : plan.Bounded limit) :
    min limit rerankBuffer ≤ (fetchBounds env plan limit).least ↔
      env.envFetchMin.isSome ∨ min limit rerankBuffer ≤ plan.minFetch := by
  simp only [fetchBounds, if_pos h.minFetch_pos]
  cases env.envFetchMin with
  | none => simp [memoryEnvInt]
  | some n => simp [le_memoryEnvInt n]

theorem le_fetchBounds_most (h : plan.Bounded limit) :
    min limit rerankBuffer ≤ (fetchBounds env plan limit).most := by
  simp only [fetchBounds, if_pos h.maxFetch_pos]
  refine le_max_of_le_left ?_
  cases env.envFetchMax with
  | none => exact (min_le_left _ _).trans h.limit_le
  | some n => exact le_memoryEnvInt n _ _ _

theorem fetchBounds_most_le_iff (h : plan.Bounded limit) :
    (fetchBounds env plan limit).most ≤ rerankBuffer ↔ limit ≤ rerankBuffer ∨ env.envFetchMax.isSome := by
  have hleast : (fetchBounds env plan limit).least ≤ rerankBuffer := fetchBounds_least_le h
  simp only [fetchBounds, if_pos h.maxFetch_pos] at hleast ⊢
  rw [max_le_iff, and_iff_left hleast]
  cases env.envFetchMax with
  | none =>
    simp only [memoryEnvInt, Option.isSome_none, Bool.false_eq_true, or_false]
    exact ⟨h.limit_le.trans, h.maxFetch_le⟩
  | some n => simp [memoryEnvInt_le n]

/-! ### The dynamic budget -/

/-- The factor of the dynamic budget for a query. -/
def FetchBudget.factor (budget : FetchBudget) (env : Env) (plan : Plan) (norm : Text) : ℚ :=
  if budget.shapeAware then memoryFetchBudgetFactor plan.shape (env.splitTokens norm).length
  else tokenFactor (env.splitTokens norm).length

/-- The budget does not stay below the limit: the environment or the plan keeps the fetch up to it, or the
budget itself reaches it. -/
def BudgetReaches (env : Env) (plan : Plan) (norm : Text) (limit : ℤ) : Prop :=
  ∀ budget ∈ env.fetchBudget, env.envFetchMin.isSome ∨ min limit rerankBuffer ≤ plan.minFetch ∨
    ((min limit rerankBuffer : ℤ) : ℚ) ≤ budget.base * budget.factor env plan norm

/-- A limit above the buffer is bounded by the environment or by the budget. -/
def LimitBounded (env : Env) (limit : ℤ) : Prop :=
  limit ≤ rerankBuffer ∨ env.envFetchMax.isSome ∨ env.fetchBudget.isSome

theorem budgeted_most_le_iff (h : plan.Bounded limit) :
    ((fetchBounds env plan limit).budgeted env plan norm).most ≤ rerankBuffer ↔ LimitBounded env limit := by
  have hmost : (fetchBounds env plan limit).most ≤ rerankBuffer ↔ limit ≤ rerankBuffer ∨ env.envFetchMax.isSome :=
    fetchBounds_most_le_iff h
  unfold FetchBounds.budgeted LimitBounded
  cases env.fetchBudget with
  | none => simpa using hmost
  | some budget =>
    have hcap : ∀ x : ℤ, min x rerankBuffer ≤ rerankBuffer := fun x => min_le_right _ _
    cases hshape : budget.shapeAware with
    | false => simp [hshape]
    | true => simp [hshape, hcap]

theorem le_budgeted_most_iff (h : plan.Bounded limit) :
    min limit rerankBuffer ≤ ((fetchBounds env plan limit).budgeted env plan norm).most ↔
      BudgetReaches env plan norm limit := by
  have hmost : min limit rerankBuffer ≤ (fetchBounds env plan limit).most := le_fetchBounds_most h
  have hleast : min limit rerankBuffer ≤ (fetchBounds env plan limit).least ↔
      env.envFetchMin.isSome ∨ min limit rerankBuffer ≤ plan.minFetch := le_fetchBounds_least_iff h
  unfold FetchBounds.budgeted BudgetReaches
  cases env.fetchBudget with
  | none => simpa using hmost
  | some budget =>
    -- what is left of the base reaches the limit, or the least fetch does
    have hdynamic : min limit rerankBuffer ≤
        min (max ⌊(budget.base : ℚ) * budget.factor env plan norm⌋ (fetchBounds env plan limit).least) rerankBuffer ↔
          env.envFetchMin.isSome ∨ min limit rerankBuffer ≤ plan.minFetch ∨
            ((min limit rerankBuffer : ℤ) : ℚ) ≤ budget.base * budget.factor env plan norm := by
      rw [le_min_iff, and_iff_left (min_le_right _ _), le_max_iff, Int.le_floor, hleast, or_comm, or_assoc]
    simp only [Option.mem_some_iff, forall_eq']
    rw [← hdynamic, FetchBudget.factor]
    cases budget.shapeAware with
    | false => exact ⟨fun hle => (le_min_iff.1 hle).1, fun hle => le_min hle hmost⟩
    | true => exact Iff.rfl

/-! ### The fetch limit -/

/-- A number of rows that is at least the limit, clamped from above. -/
theorem clamped_within_iff (product least most cap : ℤ) (hbound : limit ≤ cap → most ≤ cap) :
    (min limit cap ≤ min (max (max product limit) least) most ∧ min (max (max product limit) least) most ≤ cap) ↔
      most ≤ cap ∧ min limit cap ≤ most := by
  constructor
  · rintro ⟨hlower, hupper⟩
    refine ⟨?_, hlower.trans (min_le_right _ _)⟩
    by_contra hmost
    have : ¬ limit ≤ cap := fun h => hmost (hbound h)
    omega
  · rintro ⟨hmost, hreach⟩
    exact ⟨by omega, by omega⟩

/-- **The fetch limit of a scoped recall reaches the limit, as far as the buffer goes, and stays within the
buffer** exactly when the limit is bounded and the budget reaches it. -/
theorem scopedFetchLimit_within_iff (hplan : memoryQueryPlan env query limit = some plan) :
    (min limit rerankBuffer ≤ scopedFetchLimit env query limit ∧ scopedFetchLimit env query limit ≤ rerankBuffer) ↔
      LimitBounded env limit ∧ BudgetReaches env plan (normQuery env query) limit := by
  have hbounded := memoryQueryPlan_bounded hplan
  simp only [scopedFetchLimit, hplan, Option.getD_some, FetchBounds.fetchLimit]
  rw [clamped_within_iff, budgeted_most_le_iff hbounded, le_budgeted_most_iff hbounded]
  exact fun hle => (budgeted_most_le_iff hbounded).2 (.inl hle)

/-- A budget of twenty rows. -/
def budgetEnv : Env := { bareEnv [] with fetchBudget := some ⟨20, true⟩ }

/-- The plan of a hybrid query of no known shape. -/
def hybridPlan : Plan where
  route := .hybrid
  shape := .unknown
  semanticEnabled := true
  fetchMultiplier := 4
  minFetch := 24
  maxFetch := 96

/-- Thirty rows are fetched for a limit of fifty, and two hundred for a limit of two hundred. -/
theorem fetch_limit_leaves_bounds : scopedFetchLimit budgetEnv (text "port") 50 = 30 ∧
    scopedFetchLimit (bareEnv []) (text "port") 200 = 200 ∧
    ¬ ∀ (env : Env) (query : Text) (limit : ℤ), query ≠ [] → 1 ≤ limit →
      min limit rerankBuffer ≤ scopedFetchLimit env query limit ∧ scopedFetchLimit env query limit ≤ rerankBuffer := by
  have hstarved : scopedFetchLimit budgetEnv (text "port") 50 = 30 := by decide +kernel
  refine ⟨hstarved, by decide +kernel, fun hall => ?_⟩
  have hreach := (hall budgetEnv (text "port") 50 (by decide) (by decide)).1
  rw [hstarved] at hreach
  exact absurd hreach (by decide)

/-- A limit of thirty is met. -/
theorem budgeted_limit_within : min 30 (rerankBuffer : ℤ) ≤ scopedFetchLimit budgetEnv (text "port") 30 ∧
    scopedFetchLimit budgetEnv (text "port") 30 ≤ rerankBuffer := by
  have hplan : memoryQueryPlan budgetEnv (text "port") 30 = some hybridPlan := by decide +kernel
  refine (scopedFetchLimit_within_iff hplan).2 ⟨.inl (by decide), fun budget hbudget => .inr (.inr ?_)⟩
  obtain rfl := Option.some.inj hbudget
  decide +kernel

end AimeeMemory.Recall
