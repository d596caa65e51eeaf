import AimeeMemory.Lib.Sorting
import AimeeMemory.Recall.Candidates
import Mathlib.Data.List.DropRight

/-!
# Reranking

`memory_rerank_matches` appends the rows linked to a candidate where pagerank is enabled,
scores all the rows and sorts them; `memory_apply_lane_floor` then swaps rows of a lane into
the top.

What a row scores depends on floating-point sums over the text of the query and of the
rows, and which rows belong to a lane on what the vector index finds. Both are the fields of
`Ranking`, and a result of this development holds for every ranking.

## What is proved

* **`rerankRows_perm`**, **`memoryApplyLaneFloor_perm`**: the passes permute the rows.
* **`countP_take_favoured`**: some ranking puts any chosen rows first.

## Honest scope

The buffers are lists, which grow: the code appends up to 128 rows to a buffer of 96. A swap
with the entry in front of the array, which the code does not rule out, changes nothing here.
-/

namespace AimeeMemory.Recall

open AimeeMemory.Core AimeeMemory.Lib

/-! ### Linked rows -/

/-- `isspace`. -/
def isSpace (c : UInt8) : Bool := c = 32 || (9 ≤ c && c ≤ 13)

/-- `memory_relation_allowed`: the relation is in a comma-separated list. -/
def memoryRelationAllowed (allowed relation : Text) : Bool :=
  if relation = [] then false
  else if allowed = [] then true
  else ((allowed.take 255).splitOnP (· = 44)).any fun token => (token.dropWhile isSpace).rdropWhile isSpace = relation

/-- The other end of a link. -/
def MemoryLink.neighbor (l : MemoryLink) (id : ℤ) : ℤ := if l.sourceId = id then l.targetId else l.sourceId

/-- The row at the other end of a link, where its relation is allowed and it is not there yet. -/
def appendLinkedNeighbor (env : Env) (maxCount : ℕ) (id : ℤ) (rows : List Memory) (l : MemoryLink) : List Memory :=
  if rows.length < maxCount ∧ 0 < l.neighbor id ∧ memoryRelationAllowed env.pagerankRelations l.relation ∧
      ∀ r ∈ rows, r.id ≠ l.neighbor id then
    rows ++ (env.memoryGet (l.neighbor id)).toList
  else rows

/-- `memory_append_linked_neighbors`. -/
def memoryAppendLinkedNeighbors (env : Env) (rows : List Memory) (maxCount : ℕ) : List Memory :=
  rows.foldl (fun acc m => (env.linkQuery m.id).foldl (appendLinkedNeighbor env maxCount m.id) acc) rows

/-- The room for scores in `memory_rerank_matches`. -/
def scoreCap : ℕ := 128

/-- The rows that a rerank scores. A single row is not reranked. -/
def rerankPool (env : Env) (rows : List Memory) : List Memory :=
  if rows.length ≤ 1 then rows
  else if env.pagerankEnabled then memoryAppendLinkedNeighbors env (rows.take scoreCap) scoreCap
  else rows.take scoreCap

/-! ### Scores -/

/-- How rows rank: the hybrid score of each place, the score after the contradiction pass and
the negation pass, and the ids that the vector index found for the two lanes. -/
structure Ranking where
  hybrid : List Memory → ℕ → ℚ
  adjusted : List Memory → ℕ → ℚ
  laneSummary : List ℤ := []
  laneFact : List ℤ := []

/-- The rows with their reported score, and the score that they are sorted by. -/
def scoreRows (ranking : Ranking) (rows : List Memory) : List (Memory × ℚ) :=
  rows.mapIdx fun i m => ({ m with retrievalScore := ranking.hybrid rows i, hybridRank := 0 }, ranking.adjusted rows i)

/-- One more than the number of rows with a higher reported score. -/
def reportRanks (rows : List Memory) : List Memory :=
  rows.map fun m => { m with hybridRank := 1 + rows.countP fun o => m.retrievalScore < o.retrievalScore }

def rerankRows (ranking : Ranking) (rows : List Memory) : List Memory :=
  reportRanks ((selectionSort Prod.snd (scoreRows ranking rows)).map Prod.fst)

/-- `memory_rerank_matches`: the rows, and how many of them it reports. -/
def memoryRerankMatches (env : Env) (ranking : Ranking) (rows : List Memory) (limit : ℤ) : List Memory × ℤ :=
  if rows.length ≤ 1 then (rows, min rows.length limit)
  else (rerankRows ranking (rerankPool env rows), min (rerankPool env rows).length limit)

/-! ### Lanes -/

/-- A swap of two entries of an array. -/
def swapEntries (rows : List Memory) (i j : ℕ) : List Memory :=
  match rows[i]?, rows[j]? with
  | some a, some b => (rows.set i b).set j a
  | _, _ => rows

structure LaneState where
  rows : List Memory
  total : ℤ
  needed : ℤ

/-- A lane member of the tail trades places with the last entry of the top. -/
def promoteTail (lane : List ℤ) (s : LaneState) (tail : ℕ) : LaneState :=
  if 0 < s.needed ∧ (s.rows[tail]?).any fun m => m.id ∈ lane then
    { rows := if 0 < s.total then swapEntries s.rows (s.total - 1).toNat tail else s.rows
      total := s.total - 1
      needed := s.needed - 1 }
  else s

/-- `memory_apply_lane_floor`: the rows, and the top that is left for the next lane. -/
def memoryApplyLaneFloor (rows : List Memory) (count : ℕ) (lane : List ℤ) (floorN total : ℤ) : List Memory × ℤ :=
  if floorN ≤ 0 ∨ count = 0 ∨ lane = [] ∨ total ≤ 0 then (rows, total)
  else
    let total := min total count
    let inTop := (rows.take total.toNat).countP fun m => m.id ∈ lane
    if floorN ≤ inTop then (rows, total)
    else
      let s := (List.range' total.toNat (count - total.toNat)).foldl (promoteTail lane)
        { rows, total, needed := floorN - inTop }
      (s.rows, s.total)

/-- The floors of the two lanes. -/
def applyLaneFloors (env : Env) (ranking : Ranking) (rows : List Memory) (count : ℕ) (total : ℤ) : List Memory :=
  if env.lanesEnabled then
    let (rows, total) := memoryApplyLaneFloor rows count ranking.laneSummary env.laneFloorSummary total
    (memoryApplyLaneFloor rows count ranking.laneFact env.laneFloorFact total).1
  else rows

variable {env : Env} {ranking : Ranking} {rows : List Memory} {m : Memory}

/-! ### What the passes keep -/

theorem prefix_appendLinkedNeighbor (maxCount : ℕ) (id : ℤ) (rows : List Memory) (l : MemoryLink) :
    rows <+: appendLinkedNeighbor env maxCount id rows l := by
  unfold appendLinkedNeighbor
  split_ifs
  · exact List.prefix_append _ _
  · exact List.prefix_refl _

theorem prefix_foldl {α : Type*} {f : List Memory → α → List Memory} (hstep : ∀ rows a, rows <+: f rows a)
    (as : List α) (rows : List Memory) : rows <+: as.foldl f rows := by
  induction as generalizing rows with
  | nil => exact List.prefix_refl _
  | cons a as ih => exact (hstep rows a).trans (ih _)

theorem prefix_memoryAppendLinkedNeighbors (maxCount : ℕ) (rows : List Memory) :
    rows <+: memoryAppendLinkedNeighbors env rows maxCount := by
  unfold memoryAppendLinkedNeighbors
  exact prefix_foldl (fun acc m => prefix_foldl (prefix_appendLinkedNeighbor maxCount m.id) _ acc) rows rows

theorem prefix_rerankPool (env : Env) (hrows : rows.length ≤ scoreCap) : rows <+: rerankPool env rows := by
  unfold rerankPool
  rw [List.take_of_length_le hrows]
  split_ifs
  · exact List.prefix_refl _
  · exact prefix_memoryAppendLinkedNeighbors _ _
  · exact List.prefix_refl _

/-- The row without its ranking. -/
def Memory.unranked (m : Memory) : Memory := { m with retrievalScore := 0, hybridRank := 0 }

@[simp] theorem Memory.unranked_id (m : Memory) : m.unranked.id = m.id := rfl

theorem reportRanks_unranked (rows : List Memory) :
    (reportRanks rows).map Memory.unranked = rows.map Memory.unranked := by
  unfold reportRanks
  rw [List.map_map]
  rfl

theorem scoreRows_unranked (ranking : Ranking) (rows : List Memory) :
    (scoreRows ranking rows).map (fun e => e.1.unranked) = rows.map Memory.unranked := by
  unfold scoreRows
  refine List.ext_getElem (by simp) fun i hi hi' => ?_
  simp [Memory.unranked]

theorem rerankRows_perm (ranking : Ranking) (rows : List Memory) :
    ((rerankRows ranking rows).map Memory.unranked).Perm (rows.map Memory.unranked) := by
  unfold rerankRows
  rw [reportRanks_unranked, List.map_map, ← scoreRows_unranked ranking]
  exact (selectionSort_perm _ _).map _

theorem swapEntries_perm (rows : List Memory) (i j : ℕ) : (swapEntries rows i j).Perm rows := by
  unfold swapEntries
  split
  · next a b ha hb =>
    obtain ⟨hi, rfl⟩ := List.getElem?_eq_some_iff.1 ha
    obtain ⟨hj, rfl⟩ := List.getElem?_eq_some_iff.1 hb
    exact List.set_set_perm hi hj
  · exact .refl _

theorem promoteTail_perm (lane : List ℤ) (s : LaneState) (tail : ℕ) : (promoteTail lane s tail).rows.Perm s.rows := by
  unfold promoteTail
  split_ifs
  · exact swapEntries_perm _ _ _
  · exact .refl _
  · exact .refl _

theorem foldl_promoteTail_perm (lane : List ℤ) (tails : List ℕ) (s : LaneState) :
    (tails.foldl (promoteTail lane) s).rows.Perm s.rows := by
  induction tails generalizing s with
  | nil => exact .refl _
  | cons tail tails ih => exact (ih _).trans (promoteTail_perm lane s tail)

theorem memoryApplyLaneFloor_perm (rows : List Memory) (count : ℕ) (lane : List ℤ) (floorN total : ℤ) :
    (memoryApplyLaneFloor rows count lane floorN total).1.Perm rows := by
  unfold memoryApplyLaneFloor
  dsimp only
  split_ifs
  · exact .refl _
  · exact .refl _
  · exact foldl_promoteTail_perm _ _ _

theorem applyLaneFloors_perm (ranking : Ranking) (rows : List Memory) (count : ℕ) (total : ℤ) :
    (applyLaneFloors env ranking rows count total).Perm rows := by
  unfold applyLaneFloors
  split_ifs
  · exact (memoryApplyLaneFloor_perm _ _ _ _ _).trans (memoryApplyLaneFloor_perm _ _ _ _ _)
  · exact .refl _

/-! ### A ranking that favours some rows -/

/-- The ranking that puts the rows of a kind first and leaves the lanes empty. -/
def favour (q : Memory → Bool) : Ranking where
  hybrid rows i := if (rows[i]?).any (q ·.unranked) then 1 else 0
  adjusted rows i := if (rows[i]?).any (q ·.unranked) then 1 else 0

theorem favour_score (q : Memory → Bool) {e : Memory × ℚ} (he : e ∈ scoreRows (favour q) rows) :
    e.2 = if q e.1.unranked then 1 else 0 := by
  unfold scoreRows at he
  obtain ⟨i, hi, rfl⟩ := List.mem_mapIdx.1 he
  show (if (rows[i]?).any (q ·.unranked) then (1 : ℚ) else 0) = if q rows[i].unranked then 1 else 0
  rw [List.getElem?_eq_getElem hi, Option.any_some]

/-- As many of the first rows as can be are of the favoured kind. -/
theorem countP_take_favoured (q : Memory → Bool) (rows : List Memory) (n : ℕ) :
    ((rerankRows (favour q) rows).take n).countP (q ·.unranked) = min n (rows.countP (q ·.unranked)) := by
  have hsorted : (selectionSort Prod.snd (scoreRows (favour q) rows)).Pairwise
      fun a b => q b.1.unranked → q a.1.unranked := by
    refine (selectionSort_sorted (Prod.snd : Memory × ℚ → ℚ) (scoreRows (favour q) rows)).imp_of_mem ?_
    intro a b ha hb hab hq
    rw [favour_score q ((selectionSort_perm _ _).mem_iff.1 ha), favour_score q ((selectionSort_perm _ _).mem_iff.1 hb), hq,
      if_pos rfl] at hab
    by_contra hnot
    rw [if_neg hnot] at hab
    exact absurd hab (by decide +kernel)
  have hcount := countP_take (p := fun e : Memory × ℚ => q e.1.unranked) hsorted n
  rw [(selectionSort_perm _ _).countP_eq] at hcount
  have hrows : ∀ xs : List Memory, xs.countP (q ·.unranked) = (xs.map Memory.unranked).countP q := by
    intro xs
    rw [List.countP_map]
    rfl
  have hscored : ∀ es : List (Memory × ℚ),
      es.countP (fun e => q e.1.unranked) = (es.map fun e => e.1.unranked).countP q := by
    intro es
    rw [List.countP_map]
    rfl
  rw [hscored, hscored, scoreRows_unranked] at hcount
  rw [hrows, hrows, ← hcount, List.map_take, rerankRows, reportRanks_unranked, List.map_map, List.map_take]
  rfl

end AimeeMemory.Recall
