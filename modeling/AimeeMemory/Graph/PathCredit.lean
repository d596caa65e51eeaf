import AimeeMemory.Graph.Fusion
import AimeeMemory.Lib.Mass
import Mathlib.Tactic.NormNum
import Mathlib.Tactic.Positivity

/-!
# Credit along a path

`memory_graph_distribute_path_credit` of `memory_graph_fusion.c` and
`memory_apply_feedback_path` of `memory_improve.c`, over the rational numbers: the credit of a
feedback is shared over the edges of a retrieval path, by the gravity of the relation and the
distance from the seed, and the nodes of the path get the shares.

## What is proved

* **`memoryApplyFeedbackPath_sum_iff`**: for a path with a node key that is not empty, the utilities sum up to the credit
  exactly where none of the first 32 keys is empty.
* **`emptyKey_loses`**: a path of two edges whose first key is empty.

## Honest scope

Exact numbers: no rounding. The utility that is stored for an edge is clamped in code that is not in the repository.
-/

namespace AimeeMemory.Graph

open AimeeMemory.Core AimeeMemory.Lib

/-- `memory_graph_path_edge_t`. -/
structure MemoryGraphPathEdge where
  relation : Text
  hop : ℤ
  deriving DecidableEq, Repr

/-- The weight of an edge: its gravity, halved with every hop after the first. -/
def MemoryGraphPathEdge.weight (e : MemoryGraphPathEdge) : ℚ :=
  let hop := if 1 < e.hop then e.hop else 1
  memoryGraphRelationGravity (some e.relation) * 0.5 ^ (hop - 1).toNat

/-- `memory_graph_distribute_path_credit`: the credits, or none where it returns -1. -/
def memoryGraphDistributePathCredit (delta : ℚ) (edges : List MemoryGraphPathEdge) : Option (List ℚ) :=
  if edges = [] then none
  else
    let weights := edges.map MemoryGraphPathEdge.weight
    let denom := weights.foldl (· + ·) 0
    if denom ≤ 0 then none else some (weights.map fun w => delta * w / denom)

/-- A node key that is there and not empty. -/
def namedKey (key : Option Text) : Option Text := key.filter (· ≠ [])

/-- The calls of `db2_entity_edge_bump_utility`: positions without a key are passed over. -/
def bumpUtilities (steps : List (Option Text × ℚ)) : List (Text × ℚ) :=
  steps.filterMap fun step => (namedKey step.1).map fun key => (key, step.2)

/-- The edge at the position `i`. -/
def pathEdge (relations : Option (ℕ → Option Text)) (hops : Option (ℕ → ℤ)) (i : ℕ) : MemoryGraphPathEdge where
  relation := ((relations.bind (· i)).getD []).take 63
  hop :=
    match hops with
    | some hops => if 0 < hops i then hops i else i + 1
    | none => i + 1

/-- The credit of a feedback. -/
def feedbackDelta (success : Bool) : ℚ := if success then 0.1 else -0.1

/-- `memory_apply_feedback_path`: the utilities that are bumped, or none where it returns -1. -/
def memoryApplyFeedbackPath (success : Bool) (pathNodeKeys : Option (List (Option Text)))
    (relations : Option (ℕ → Option Text)) (hops : Option (ℕ → ℤ)) : Option (List (Text × ℚ)) :=
  match pathNodeKeys with
  | none => none
  | some keys =>
    if keys = [] then none
    else
      let keys := keys.take 32
      let edges := (List.range keys.length).map (pathEdge relations hops)
      match memoryGraphDistributePathCredit (feedbackDelta success) edges with
      | none => some (bumpUtilities (keys.map fun key => (key, feedbackDelta success)))
      | some credits => some (bumpUtilities (keys.zip credits))

/-! ## The shares -/

variable {delta : ℚ} {edges : List MemoryGraphPathEdge} {credits : List ℚ} {keys : List (Option Text)}

theorem memoryGraphRelationGravity_pos (relation : Option Text) : (0 : ℚ) < memoryGraphRelationGravity relation := by
  cases relation with
  | none =>
    rw [memoryGraphRelationGravity]
    positivity
  | some relation =>
    rw [memoryGraphRelationGravity]
    positivity

theorem MemoryGraphPathEdge.weight_pos (e : MemoryGraphPathEdge) : 0 < e.weight := by
  have hhalf : (0 : ℚ) < 0.5 := by norm_num
  exact mul_pos (memoryGraphRelationGravity_pos _) (pow_pos hhalf _)

/-- A path is always shared out, as no weight is 0. -/
theorem memoryGraphDistributePathCredit_eq (delta : ℚ) (h : edges ≠ []) :
    memoryGraphDistributePathCredit delta edges =
      some (edges.map fun e => delta * e.weight / (edges.map MemoryGraphPathEdge.weight).sum) := by
  have hpos := sum_weights_pos (fun e _ => MemoryGraphPathEdge.weight_pos e) h
  rw [memoryGraphDistributePathCredit, if_neg h]
  simp only [← List.sum_eq_foldl]
  rw [if_neg (not_le.2 hpos), List.map_map]
  rfl

theorem feedbackDelta_ne_zero (success : Bool) : feedbackDelta success ≠ 0 := by
  cases success <;> norm_num [feedbackDelta]

/-- The credits sum up to what is shared out. -/
theorem sum_memoryGraphDistributePathCredit (hdelta : delta ≠ 0)
    (h : memoryGraphDistributePathCredit delta edges = some credits) : credits.sum = delta := by
  have hne : edges ≠ [] := by
    rintro rfl
    cases h
  rw [memoryGraphDistributePathCredit_eq delta hne] at h
  rw [← Option.some.inj h]
  have hall := (sum_filter_shares_eq_iff hdelta hne (fun e _ => MemoryGraphPathEdge.weight_pos e)).2 fun _ _ => rfl
  rwa [List.filter_eq_self.2 fun _ _ => rfl] at hall

/-! ## What is applied -/

/-- The utilities are the credits of the positions with a key. -/
theorem map_snd_bumpUtilities (steps : List (Option Text × ℚ)) :
    (bumpUtilities steps).map Prod.snd = (steps.filter fun step => (namedKey step.1).isSome).map Prod.snd := by
  induction steps with
  | nil => rfl
  | cons step steps ih =>
    rw [bumpUtilities] at ih ⊢
    cases hkey : namedKey step.1 with
    | none => rw [List.filterMap_cons_none (by rw [hkey]; rfl), ih, List.filter_cons_of_neg (by simp [hkey])]
    | some key =>
      rw [List.filterMap_cons_some (by rw [hkey]; rfl), List.map_cons, ih, List.filter_cons_of_pos (by simp [hkey]),
        List.map_cons]

/-- Of the credits of a path, those of the positions with a key make up the whole only if all positions have one. -/
theorem sum_bumpUtilities_iff (hdelta : delta ≠ 0) (hlength : edges.length = keys.length) (hne : keys ≠ [])
    (h : memoryGraphDistributePathCredit delta edges = some credits) :
    ((bumpUtilities (keys.zip credits)).map Prod.snd).sum = delta ↔ ∀ key ∈ keys, (namedKey key).isSome := by
  have hedges : edges ≠ [] := by
    rintro rfl
    exact hne (List.eq_nil_of_length_eq_zero hlength.symm)
  have hkeys : (keys.zip edges).map Prod.fst = keys := List.map_fst_zip hlength.ge
  have hweights : ((keys.zip edges).map fun step => step.2.weight) = edges.map MemoryGraphPathEdge.weight := by
    change (keys.zip edges).map (MemoryGraphPathEdge.weight ∘ Prod.snd) = _
    rw [← List.map_map, List.map_snd_zip hlength.le]
  have hzip : keys.zip edges ≠ [] := fun hnil => hne (by rw [← hkeys, hnil, List.map_nil])
  have hshares := sum_filter_shares_eq_iff (p := fun step => (namedKey step.1).isSome) hdelta hzip
    fun step _ => MemoryGraphPathEdge.weight_pos step.2
  rw [hweights] at hshares
  rw [memoryGraphDistributePathCredit_eq delta hedges] at h
  rw [map_snd_bumpUtilities, ← Option.some.inj h, List.zip_map_right, List.filter_map, List.map_map]
  refine hshares.trans ?_
  conv_rhs => rw [← hkeys]
  rw [List.forall_mem_map]

/-- **The utilities sum up to the credit** exactly where none of the first 32 keys is empty. -/
theorem memoryApplyFeedbackPath_sum_iff (success : Bool) (relations : Option (ℕ → Option Text)) (hops : Option (ℕ → ℤ))
    (h : ∃ key ∈ keys, (namedKey key).isSome) :
    (∃ bumps, memoryApplyFeedbackPath success (some keys) relations hops = some bumps ∧
        (bumps.map Prod.snd).sum = feedbackDelta success) ↔
      ∀ key ∈ keys.take 32, (namedKey key).isSome := by
  have hne : keys ≠ [] := by
    obtain ⟨key, hkey, -⟩ := h
    exact List.ne_nil_of_mem hkey
  have htake : keys.take 32 ≠ [] := by simpa using hne
  have hlength : ((List.range (keys.take 32).length).map (pathEdge relations hops)).length = (keys.take 32).length := by simp
  have hedges : (List.range (keys.take 32).length).map (pathEdge relations hops) ≠ [] := by simpa using hne
  have hdistribute := memoryGraphDistributePathCredit_eq (feedbackDelta success) hedges
  simp only [memoryApplyFeedbackPath]
  rw [if_neg hne, hdistribute, ← sum_bumpUtilities_iff (feedbackDelta_ne_zero success) hlength htake hdistribute]
  constructor
  · rintro ⟨bumps, hbumps, hsum⟩
    rw [← Option.some.inj hbumps] at hsum
    exact hsum
  · exact fun hsum => ⟨_, rfl, hsum⟩

/-- Two calls on a path, of which the second node has a key. -/
def twoCalls (first : Text) : List (Option Text) := [some first, some (text "file:b.c")]

def calls : ℕ → Option Text := fun _ => some (text "calls")

/-- With both keys the whole credit is applied. -/
theorem twoCalls_share :
    (twoCalls (text "file:a.c")).take 32 = twoCalls (text "file:a.c") ∧
      ∃ bumps, memoryApplyFeedbackPath true (some (twoCalls (text "file:a.c"))) (some calls) none = some bumps ∧
        (bumps.map Prod.snd).sum = feedbackDelta true :=
  ⟨rfl, (memoryApplyFeedbackPath_sum_iff true (some calls) none ⟨some (text "file:b.c"), by decide +kernel, by decide +kernel⟩).2
    (by decide +kernel)⟩

/-- **An empty first key** takes two thirds of the credit with it. -/
theorem emptyKey_loses :
    (∃ key ∈ twoCalls [], (namedKey key).isSome) ∧
      memoryApplyFeedbackPath true (some (twoCalls [])) (some calls) none = some [(text "file:b.c", 1 / 30)] ∧
      ¬ ∃ bumps, memoryApplyFeedbackPath true (some (twoCalls [])) (some calls) none = some bumps ∧
        (bumps.map Prod.snd).sum = feedbackDelta true := by
  have hbumps : memoryApplyFeedbackPath true (some (twoCalls [])) (some calls) none = some [(text "file:b.c", 1 / 30)] := by
    decide +kernel
  refine ⟨by decide +kernel, hbumps, ?_⟩
  rintro ⟨bumps, hsome, hsum⟩
  rw [hbumps] at hsome
  rw [← Option.some.inj hsome] at hsum
  exact absurd hsum (by decide +kernel)

end AimeeMemory.Graph
