import AimeeMemory.Recall.Ranker
import AimeeMemory.Lib.Mass

/-!
# The mass of pagerank

`memory_compute_pagerank_scores` of `memory_core_helpers.c` over the rational numbers. A round
gives each candidate the same small amount, and pours the rest of each score along the links
of the candidate, by their weights, or over all where it has none.

## What is proved

* **`pagerank_mass`**: after every number of rounds the scores are positive and sum up to 1;
  the cells of the adjacency matrix that are written are within the candidates, of which
  there are at most 128; and each candidate gets a positive score, at most the weight, which
  one of them reaches.

## Honest scope

Exact numbers: no rounding.
-/

namespace AimeeMemory.Recall.Ranker

open AimeeMemory.Core AimeeMemory.Lib

variable {env : RankerEnv ℚ} {rows : List (Row ℚ)}

/-- The cells of the adjacency matrix that a link adds to, from the candidate `i`. -/
def linkCells (env : RankerEnv ℚ) (rows : List (Row ℚ)) (id : ℤ) (i : ℕ) (l : MemoryLink) : List (ℕ × ℕ) :=
  match memoryFindIndexById rows (l.neighbor id) with
  | some j => if i = j ∨ !memoryRelationAllowed env.pagerank.relations l.relation then [] else [(i, j), (j, i)]
  | none => []

/-- The cells that the links of the candidates add to. -/
def adjacencyCells (env : RankerEnv ℚ) (rows : List (Row ℚ)) : List (ℕ × ℕ) :=
  rows.zipIdx.flatMap fun (m, i) => (env.linkQuery m.id).flatMap (linkCells env rows m.id i)

/-- The scores after so many rounds. -/
def pagerankScores (env : RankerEnv ℚ) (rows : List (Row ℚ)) (rounds : ℕ) : List ℚ :=
  (pagerankRound rows.length (adjacency env rows))^[rounds] (List.replicate rows.length (1.0 / (rows.length : ℚ)))

/-! ## The adjacency matrix -/

/-- The matrix counts how often its cells are added to. -/
theorem adjacency_eq (env : RankerEnv ℚ) (rows : List (Row ℚ)) :
    adjacency env rows = (adjacencyCells env rows).foldl (fun (a : Adjacency ℚ) cell => a.add cell.1 cell.2) fun _ _ => 0.0 := by
  have hlink : ∀ (id : ℤ) (i : ℕ) (a : Adjacency ℚ) (l : MemoryLink),
      (match memoryFindIndexById rows (l.neighbor id) with
        | some j => if i = j ∨ !memoryRelationAllowed env.pagerank.relations l.relation then a else (a.add i j).add j i
        | none => a) = (linkCells env rows id i l).foldl (fun (a : Adjacency ℚ) cell => a.add cell.1 cell.2) a := by
    intro id i a l
    rw [linkCells]
    cases memoryFindIndexById rows (l.neighbor id) with
    | none => rfl
    | some j =>
      simp only
      split <;> rfl
  rw [adjacency, adjacencyCells, List.foldl_flatMap]
  refine List.foldl_ext _ _ _ fun a m _ => ?_
  rw [List.foldl_flatMap]
  exact List.foldl_ext _ _ _ fun a l _ => hlink m.1.id m.2 a l

theorem adjacencyCells_lt (env : RankerEnv ℚ) (rows : List (Row ℚ)) :
    ∀ cell ∈ adjacencyCells env rows, cell.1 < rows.length ∧ cell.2 < rows.length := by
  intro cell hcell
  obtain ⟨⟨m, i⟩, hm, hcell⟩ := List.mem_flatMap.1 hcell
  obtain ⟨l, -, hcell⟩ := List.mem_flatMap.1 hcell
  have hi : i < rows.length := (List.mem_zipIdx' hm).1
  rw [linkCells] at hcell
  cases hfind : memoryFindIndexById rows (l.neighbor m.id) with
  | none =>
    rw [hfind] at hcell
    cases hcell
  | some j =>
    have hj : j < rows.length := by
      rw [memoryFindIndexById] at hfind
      split at hfind
      · cases hfind
      · exact (List.findIdx?_eq_some_iff_getElem.1 hfind).1
    rw [hfind] at hcell
    simp only at hcell
    split at hcell
    · cases hcell
    · rcases List.mem_pair.1 hcell with rfl | rfl
      · exact ⟨hi, hj⟩
      · exact ⟨hj, hi⟩

theorem adjacency_nonneg (env : RankerEnv ℚ) (rows : List (Row ℚ)) (i j : ℕ) : 0 ≤ adjacency env rows i j := by
  have hfold : ∀ (cells : List (ℕ × ℕ)) (a : Adjacency ℚ), (∀ i j, 0 ≤ a i j) →
      ∀ i j, 0 ≤ cells.foldl (fun (a : Adjacency ℚ) cell => a.add cell.1 cell.2) a i j := by
    intro cells
    induction cells with
    | nil => exact fun a ha => ha
    | cons cell cells ih =>
      intro a ha
      refine ih _ fun i j => ?_
      simp only [Adjacency.add]
      split
      · have := ha i j
        have hone : (0 : ℚ) ≤ 1.0 := by norm_num
        exact add_nonneg this hone
      · exact ha i j
  rw [adjacency_eq]
  refine hfold _ _ (fun _ _ => ?_) i j
  norm_num

/-! ## A round -/

/-- What a candidate passes on to each: along its links by their weights, or to all alike. -/
def share (n : ℕ) (a : Adjacency ℚ) (s : ℚ × ℕ) (j : ℕ) : ℚ :=
  let outDegree := ((List.range n).map (a s.2)).sum
  if outDegree ≤ 0 then 17 / 20 * s.1 / n else if a s.2 j ≤ 0 then 0 else 17 / 20 * s.1 * (a s.2 j / outDegree)

/-- A round pours the shares over equal small amounts. -/
theorem pagerankRound_eq (n : ℕ) (a : Adjacency ℚ) (scores : List ℚ) :
    pagerankRound n a scores =
      scores.zipIdx.foldl (fun next s => pour (share n a s) next) (List.replicate n (3 / 20 / n)) := by
  have hdegree : ∀ i, (List.range n).foldl (fun sum j => sum + a i j) 0.0 = ((List.range n).map (a i)).sum := by
    intro i
    rw [List.sum_eq_foldl, List.foldl_map]
    congr 1
    norm_num
  have hstart : ((1.0 : ℚ) - 0.85) / (n : ℚ) = 3 / 20 / n := by norm_num
  have hdamping : (0.85 : ℚ) = 17 / 20 := by norm_num
  have hzero : (0.0 : ℚ) = 0 := by norm_num
  rw [pagerankRound]
  simp only
  have hstep : ∀ (next : List ℚ) (s : ℚ × ℕ),
      (if (List.range n).foldl (fun sum j => sum + a s.2 j) 0.0 ≤ 0.0 then next.map (· + 0.85 * s.1 / (n : ℚ))
        else next.mapIdx fun j x => if a s.2 j ≤ 0.0 then x
          else x + 0.85 * s.1 * (a s.2 j / (List.range n).foldl (fun sum j => sum + a s.2 j) 0.0)) =
        pour (share n a s) next := by
    intro next s
    rw [hdegree, hdamping, hzero, pour]
    by_cases hdangling : ((List.range n).map (a s.2)).sum ≤ 0
    · rw [if_pos hdangling]
      simp only [share, if_pos hdangling]
      exact List.ext_getElem (by simp) (by simp)
    · rw [if_neg hdangling]
      simp only [share, if_neg hdangling]
      congr 1
      funext j x
      split
      · rw [add_zero]
      · rfl
  rw [hstart]
  exact List.foldl_ext _ _ _ fun next s _ => hstep next s

variable {n : ℕ} {a : Adjacency ℚ}

theorem share_nonneg (ha : ∀ i j, 0 ≤ a i j) {s : ℚ × ℕ} (hs : 0 ≤ s.1) (j : ℕ) : 0 ≤ share n a s j := by
  have hdamped : 0 ≤ 17 / 20 * s.1 := mul_nonneg (by norm_num) hs
  rw [share]
  split
  · exact div_nonneg hdamped (Nat.cast_nonneg n)
  · rename_i hdegree
    split
    · exact le_refl 0
    · exact mul_nonneg hdamped (div_nonneg (ha s.2 j) (le_of_lt (not_le.1 hdegree)))

/-- What a candidate passes on is the damped part of its score, with links and without. -/
theorem poured_share (hn : 0 < n) (ha : ∀ i j, 0 ≤ a i j) (s : ℚ × ℕ) : poured (share n a s) n = 17 / 20 * s.1 := by
  have hn' : (n : ℚ) ≠ 0 := Nat.cast_ne_zero.2 (Nat.ne_of_gt hn)
  rw [poured]
  by_cases hdangling : ((List.range n).map (a s.2)).sum ≤ 0
  · have hcell : ∀ j, share n a s j = 17 / 20 * s.1 / n := by
      intro j
      rw [share, if_pos hdangling]
    rw [List.map_congr_left fun j _ => hcell j, List.map_const', List.sum_replicate, List.length_range, nsmul_eq_mul,
      mul_div_cancel₀ _ hn']
  · -- a cell that counts nothing has no share, and none is due to it
    have hcell : ∀ j, share n a s j = 17 / 20 * s.1 / ((List.range n).map (a s.2)).sum * a s.2 j := by
      intro j
      rw [share, if_neg hdangling]
      split
      · rename_i hzero
        rw [le_antisymm hzero (ha s.2 j), mul_zero]
      · ring
    have hpos : ((List.range n).map (a s.2)).sum ≠ 0 := ne_of_gt (not_le.1 hdangling)
    rw [List.map_congr_left fun j _ => hcell j, List.sum_map_mul_left, div_mul_cancel₀ _ hpos]

/-- A round keeps the mass. -/
theorem spread_pagerankRound (hn : 0 < n) (ha : ∀ i j, 0 ≤ a i j) {scores : List ℚ} (h : Spread n 1 scores) :
    Spread n 1 (pagerankRound n a scores) := by
  have hn' : (0 : ℚ) < n := Nat.cast_pos.2 hn
  have hstart : Spread n (n * (3 / 20 / n : ℚ)) (List.replicate n (3 / 20 / n : ℚ)) :=
    Spread.replicate n (div_pos (by norm_num) hn')
  have hshares : ∀ s ∈ scores.zipIdx, ∀ j < n, 0 ≤ share n a s j := by
    intro s hs j _
    exact share_nonneg ha (le_of_lt (h.pos s.1 (List.fst_mem_of_mem_zipIdx hs))) j
  have hpoured := hstart.foldl_pour hshares
  have hmass : (n * (3 / 20 / n : ℚ)) + (scores.zipIdx.map fun s => poured (share n a s) n).sum = 1 := by
    rw [List.map_congr_left fun s _ => poured_share hn ha s, List.sum_map_mul_left, List.zipIdx_map_fst, h.sum_eq,
      mul_div_cancel₀ _ (ne_of_gt hn')]
    norm_num
  rwa [hmass, ← pagerankRound_eq] at hpoured

/-- The scores have the mass 1 after every number of rounds. -/
theorem spread_pagerankScores (hrows : 0 < rows.length) (rounds : ℕ) : Spread rows.length 1 (pagerankScores env rows rounds) := by
  have hn' : (0 : ℚ) < rows.length := Nat.cast_pos.2 hrows
  induction rounds with
  | zero =>
    have hone : (1.0 : ℚ) / rows.length = 1 / rows.length := by norm_num
    have hstart := Spread.replicate rows.length (one_div_pos.2 hn')
    rw [mul_one_div_cancel (ne_of_gt hn')] at hstart
    rw [pagerankScores, Function.iterate_zero_apply, hone]
    exact hstart
  | succ rounds ih =>
    rw [pagerankScores, Function.iterate_succ_apply']
    exact spread_pagerankRound hrows (adjacency_nonneg env rows) ih

/-! ## What comes out -/

/-- The scores come out in proportion to the greatest, which gets the weight. -/
theorem memoryComputePagerankScores_eq (hcount : 1 < rows.length ∧ rows.length ≤ 128) (henabled : env.pagerank.enabled)
    (hweight : 0 < env.pagerank.weight) :
    ∃ greatest ∈ pagerankScores env rows env.pagerank.iterations, 0 < greatest ∧
      (∀ s ∈ pagerankScores env rows env.pagerank.iterations, s ≤ greatest) ∧
      memoryComputePagerankScores env rows =
        List.zipWith (fun m s => (m.id, (s / greatest) * env.pagerank.weight)) rows
          (pagerankScores env rows env.pagerank.iterations) := by
  have hspread : Spread rows.length 1 (pagerankScores env rows env.pagerank.iterations) :=
    spread_pagerankScores (by omega) env.pagerank.iterations
  obtain ⟨hle, hall, hfrom⟩ := foldl_greatest (pagerankScores env rows env.pagerank.iterations) 0
  generalize hgreatest : (pagerankScores env rows env.pagerank.iterations).foldl
    (fun best s => if best < s then s else best) 0 = greatest at hle hall hfrom
  have hne : pagerankScores env rows env.pagerank.iterations ≠ [] := by
    refine List.ne_nil_of_length_pos ?_
    rw [hspread.length_eq]
    omega
  obtain ⟨s, hs⟩ := List.exists_mem_of_ne_nil _ hne
  have hpos : 0 < greatest := lt_of_lt_of_le (hspread.pos s hs) (hall s hs)
  refine ⟨greatest, hfrom.resolve_left (ne_of_gt hpos), hpos, hall, ?_⟩
  have hzero : (0.0 : ℚ) = 0 := by norm_num
  have hruns : ¬ (rows.length ≤ 1 ∨ !env.pagerank.enabled ∨ env.pagerank.weight ≤ 0.0 ∨ 128 < rows.length) := by
    rw [henabled, hzero]
    simp only [Bool.not_true, Bool.false_eq_true, false_or, not_or, not_le, not_lt]
    exact ⟨hcount.1, hweight, hcount.2⟩
  rw [memoryComputePagerankScores, if_neg hruns]
  simp only [hzero]
  rw [← pagerankScores, hgreatest, if_neg (not_le.2 hpos)]

/-- **Pagerank keeps its mass**, for every graph of links among 2 to 128 candidates: after every number of rounds there is
a positive score for each, of the sum 1; the cells of the matrix that are written are within it; and each candidate gets
a positive score up to the weight, which one of them reaches. -/
theorem pagerank_mass (env : RankerEnv ℚ) (rows : List (Row ℚ)) (hcount : 1 < rows.length ∧ rows.length ≤ 128)
    (henabled : env.pagerank.enabled) (hweight : 0 < env.pagerank.weight) :
    (∀ rounds, Spread rows.length 1 (pagerankScores env rows rounds)) ∧
      (∀ cell ∈ adjacencyCells env rows, cell.1 < 128 ∧ cell.2 < 128) ∧
      (memoryComputePagerankScores env rows).map Prod.fst = rows.map (·.id) ∧
      (∀ out ∈ memoryComputePagerankScores env rows, 0 < out.2 ∧ out.2 ≤ env.pagerank.weight) ∧
      ∃ out ∈ memoryComputePagerankScores env rows, out.2 = env.pagerank.weight := by
  have hspread : ∀ rounds, Spread rows.length 1 (pagerankScores env rows rounds) := spread_pagerankScores (by omega)
  obtain ⟨greatest, hmem, hpos, hall, hout⟩ := memoryComputePagerankScores_eq hcount henabled hweight
  refine ⟨hspread, fun cell hcell => ?_, ?_, ?_, ?_⟩
  · have := adjacencyCells_lt env rows cell hcell
    omega
  · rw [hout]
    refine List.ext_getElem ?_ fun i hi hi' => ?_
    · simp [(hspread _).length_eq]
    · simp
  · intro out hmem
    rw [hout] at hmem
    obtain ⟨i, hi, rfl⟩ := List.mem_iff_getElem.1 hmem
    rw [List.getElem_zipWith]
    simp only
    have hs := List.getElem_mem (l := pagerankScores env rows env.pagerank.iterations) (n := i) (by simp at hi; omega)
    refine ⟨mul_pos (div_pos ((hspread _).pos _ hs) hpos) hweight, ?_⟩
    have hle := div_le_one_of_le₀ (hall _ hs) (le_of_lt hpos)
    exact mul_le_of_le_one_left (le_of_lt hweight) hle
  · obtain ⟨i, hi, hgreatest⟩ := List.mem_iff_getElem.1 hmem
    have hlength := (hspread env.pagerank.iterations).length_eq
    have hi' : i < (memoryComputePagerankScores env rows).length := by
      rw [hout, List.length_zipWith]
      omega
    refine ⟨_, List.getElem_mem hi', ?_⟩
    simp only [hout, List.getElem_zipWith, hgreatest]
    rw [div_self (ne_of_gt hpos), one_mul]

/-- A store with a link from the first row to the second. -/
def linkedStore : RankerEnv ℚ :=
  { Sample.store with
    pagerank := ⟨true, 8, 1 / 2, text "related_to"⟩
    linkQuery := fun _ => [⟨1, 2, text "related_to"⟩] }

/-- Two linked rows. -/
theorem pagerank_mass_linked :
    (∀ rounds, Spread 2 1 (pagerankScores linkedStore (Sample.twoRows 1 1) rounds)) ∧
      (∀ cell ∈ adjacencyCells linkedStore (Sample.twoRows 1 1), cell.1 < 128 ∧ cell.2 < 128) ∧
      (memoryComputePagerankScores linkedStore (Sample.twoRows 1 1)).map Prod.fst = [1, 2] ∧
      (∀ out ∈ memoryComputePagerankScores linkedStore (Sample.twoRows 1 1), 0 < out.2 ∧ out.2 ≤ 1 / 2) ∧
      ∃ out ∈ memoryComputePagerankScores linkedStore (Sample.twoRows 1 1), out.2 = 1 / 2 :=
  pagerank_mass linkedStore (Sample.twoRows 1 1) (by decide) rfl (show (0 : ℚ) < 1 / 2 by norm_num)

end AimeeMemory.Recall.Ranker
