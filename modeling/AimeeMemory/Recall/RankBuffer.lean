import AimeeMemory.Recall.RankOrder
import Mathlib.Data.Finset.Card

/-!
# The buffer of the ranked rows

`memory_rerank_matches` gets the number of the candidates and not the room of their array,
which its callers allocate for `MEMORY_RERANK_BUFFER` rows. It appends linked rows up to the
128 that it has scores for. Here is the same function with the places that it writes to.

## What is proved

* **`rerankWrites_within_iff`**: all the places lie in the buffer exactly when no linked rows
  are appended or there is room for all of them.

## Honest scope

`memory_get` fills the row it is given when it finds one. A candidate that is read is not a
place that is written.
-/

namespace AimeeMemory.Recall.Ranker

open AimeeMemory.Core AimeeMemory.Lib

variable {R : Type*} [ScoreArith R]

/-! ### The places -/

section Places

variable (env : RankerEnv R) (hits : Hits R)

/-- The rows of the array and the places that were written to. -/
structure Written (R : Type*) where
  rows : List (Row R)
  places : List ℕ

/-- A link of a candidate: a row that is appended is written behind the last one. -/
def appendLinkedWrite (maxCount : ℕ) (id : ℤ) (w : Written R) (l : MemoryLink) : Written R :=
  let rows := appendLinkedNeighbor env maxCount id w.rows l
  ⟨rows, w.places ++ List.range' w.rows.length (rows.length - w.rows.length)⟩

/-- `memory_append_linked_neighbors`, with its places. -/
def appendLinkedWrites (rows : List (Row R)) (maxCount : ℕ) : Written R :=
  (rows.map (·.id)).foldl (fun w id => (env.linkQuery id).foldl (appendLinkedWrite env maxCount id) w) ⟨rows, []⟩

/-- The sort, with its places: both ends of every trade. -/
def sortWrites (es : List (Scored R)) : List (Scored R) × List ℕ :=
  (List.range (es.length - 1)).foldl (fun s i =>
    let best := bestPlace Scored.score s.1 i
    (selectionRound Scored.score s.1 i, if best ≠ i then s.2 ++ [i, best] else s.2)) (es, [])

/-- The places of the candidate array that `memory_rerank_matches` writes to: the appended rows, the scores, the
trades of the sort and the ranks. -/
def rerankWrites (rawQuery : Option Text) (rows : List (Row R)) : List ℕ :=
  match rawQuery with
  | none => []
  | some rawQuery =>
    if rows.length ≤ 1 then []
    else
      let w := if env.pagerank.enabled then appendLinkedWrites env (rows.take 128) 128 else ⟨rows.take 128, []⟩
      let es := finalScored env hits rawQuery (normQueryOf env rawQuery) w.rows
      w.places ++ List.range w.rows.length ++ (sortWrites es).2 ++ List.range w.rows.length

/-- The links of the candidates, each with the candidate it was asked for. -/
def linksOf (rows : List (Row R)) : List (ℤ × MemoryLink) :=
  rows.flatMap fun m => (env.linkQuery m.id).map (m.id, ·)

/-- The rows at the other ends of links that exist, whose relation is allowed, and that are not there yet. -/
def missingEnds (rows : List (Row R)) (ls : List (ℤ × MemoryLink)) : Finset ℤ :=
  ((ls.filter fun l => memoryRelationAllowed env.pagerank.relations l.2.relation).map fun l => l.2.neighbor l.1).toFinset.filter
    fun id => 0 < id ∧ (env.memoryGet id).isSome ∧ ∀ m ∈ rows, m.id ≠ id

/-- The rows linked to the candidates. -/
def linkedRows (rows : List (Row R)) : Finset ℤ := missingEnds env rows (linksOf env rows)

end Places

/-! ### What is appended -/

section Append

variable {R : Type*} {env : RankerEnv R} {rows : List (Row R)} {maxCount : ℕ}

theorem memoryFindIndexById_isNone {id : ℤ} (hid : 0 < id) :
    (memoryFindIndexById rows id).isNone ↔ ∀ m ∈ rows, m.id ≠ id := by
  rw [memoryFindIndexById, if_neg (by omega), Option.isNone_iff_eq_none, List.findIdx?_eq_none_iff]
  simp

theorem memoryAppendLinkedNeighbors_eq (rows : List (Row R)) (maxCount : ℕ) :
    memoryAppendLinkedNeighbors env rows maxCount =
      (linksOf env rows).foldl (fun acc l => appendLinkedNeighbor env maxCount l.1 acc l.2) rows := by
  rw [memoryAppendLinkedNeighbors, linksOf, List.foldl_map, List.foldl_flatMap]
  simp only [List.foldl_map]

theorem mem_missingEnds {ls : List (ℤ × MemoryLink)} {id : ℤ} :
    id ∈ missingEnds env rows ls ↔
      (∃ l ∈ ls, memoryRelationAllowed env.pagerank.relations l.2.relation ∧ l.2.neighbor l.1 = id) ∧
        0 < id ∧ (env.memoryGet id).isSome ∧ ∀ m ∈ rows, m.id ≠ id := by
  simp only [missingEnds, Finset.mem_filter, List.mem_toFinset, List.mem_map, List.mem_filter, and_assoc]

theorem appendLinkedNeighbor_eq (l : ℤ × MemoryLink) :
    appendLinkedNeighbor env maxCount l.1 rows l.2 =
      if rows.length < maxCount ∧ l.2.neighbor l.1 ∈ missingEnds env rows [l] then
        rows ++ (env.memoryGet (l.2.neighbor l.1)).toList
      else rows := by
  simp only [appendLinkedNeighbor, mem_missingEnds, List.mem_singleton, exists_eq_left]
  by_cases hpos : 0 < l.2.neighbor l.1
  · simp only [memoryFindIndexById_isNone hpos]
    cases hget : env.memoryGet (l.2.neighbor l.1) with
    | none => simp
    | some m => simp [hpos]
  · simp [hpos]

/-- A row that is appended is no longer missing. -/
theorem missingEnds_append {m : Row R} {l : ℤ × MemoryLink} {ls : List (ℤ × MemoryLink)}
    (hm : m.id ∈ missingEnds env rows [l]) :
    (missingEnds env rows (l :: ls)).card = (missingEnds env (rows ++ [m]) ls).card + 1 := by
  have hinsert : missingEnds env rows (l :: ls) = insert m.id (missingEnds env (rows ++ [m]) ls) := by
    ext id
    by_cases hid : id = m.id
    · subst hid
      obtain ⟨⟨l', hl', hrel⟩, hmissing⟩ := mem_missingEnds.1 hm
      obtain rfl := List.mem_singleton.1 hl'
      simp only [Finset.mem_insert_self, iff_true]
      exact mem_missingEnds.2 ⟨⟨l', List.mem_cons_self, hrel⟩, hmissing⟩
    · obtain ⟨⟨l', hl', -, hend⟩, -⟩ := mem_missingEnds.1 hm
      obtain rfl := List.mem_singleton.1 hl'
      simp only [Finset.mem_insert, hid, false_or, mem_missingEnds, List.forall_mem_append, List.forall_mem_singleton,
        List.exists_mem_cons_iff, hend, Ne.symm hid, and_false, false_or, ne_eq, not_false_eq_true, and_true]
  rw [hinsert, Finset.card_insert_of_notMem]
  exact fun hmem => (mem_missingEnds.1 hmem).2.2.2 m (by simp) rfl

/-- **Linked rows are appended until none is missing or the room is used up.** -/
theorem foldl_appendLinkedNeighbor_length (hget : ∀ id m, env.memoryGet id = some m → m.id = id)
    (ls : List (ℤ × MemoryLink)) (rows : List (Row R)) (hroom : rows.length ≤ maxCount) :
    (ls.foldl (fun acc l => appendLinkedNeighbor env maxCount l.1 acc l.2) rows).length =
      min (rows.length + (missingEnds env rows ls).card) maxCount := by
  induction ls generalizing rows with
  | nil => simp [missingEnds, hroom]
  | cons l ls ih =>
    rw [List.foldl_cons, appendLinkedNeighbor_eq]
    split
    · next happend =>
      obtain ⟨hlt, hmissing⟩ := happend
      obtain ⟨m, hm⟩ := Option.isSome_iff_exists.1 (mem_missingEnds.1 hmissing).2.2.1
      have hid := hget _ m hm
      rw [← hid] at hmissing
      rw [hm, Option.toList_some, ih _ (by simpa using hlt), missingEnds_append hmissing, List.length_append,
        List.length_singleton]
      congr 1
      omega
    · next hstay =>
      rw [ih rows hroom]
      by_cases hlt : rows.length < maxCount
      · -- the end of the link is there, or never was
        have hsame : missingEnds env rows (l :: ls) = missingEnds env rows ls := by
          ext id
          simp only [mem_missingEnds, List.exists_mem_cons_iff]
          refine and_congr_left fun hid => ⟨fun h => h.resolve_left fun hl => ?_, .inr⟩
          exact hstay ⟨hlt, mem_missingEnds.2 ⟨⟨l, List.mem_singleton.2 rfl, hl.1, rfl⟩, hl.2 ▸ hid⟩⟩
        rw [hsame]
      · omega

/-- The number of candidates that are ranked. -/
theorem candidatesOf_length (hget : ∀ id m, env.memoryGet id = some m → m.id = id) (hcount : rows.length ≤ 128) :
    (candidatesOf env rows).length =
      if env.pagerank.enabled then min (rows.length + (linkedRows env rows).card) 128 else rows.length := by
  rw [candidatesOf, List.take_of_length_le hcount]
  split
  · rw [memoryAppendLinkedNeighbors_eq]
    exact foldl_appendLinkedNeighbor_length hget _ rows hcount
  · rfl

/-- What was written lies among the rows. -/
def Written.Inside (w : Written R) : Prop := ∀ p ∈ w.places, p < w.rows.length

theorem Written.Inside.appendLinkedWrite {w : Written R} (h : w.Inside) (maxCount : ℕ) (id : ℤ) (l : MemoryLink) :
    (appendLinkedWrite env maxCount id w l).Inside := by
  have hgrows : w.rows.length ≤ (appendLinkedNeighbor env maxCount id w.rows l).length := by
    simp only [appendLinkedNeighbor]
    split
    · simp
    · exact le_rfl
  intro p hp
  simp only [Ranker.appendLinkedWrite] at hp ⊢
  rcases List.mem_append.1 hp with hp | hp
  · exact (h p hp).trans_le hgrows
  · have := (List.mem_range'_1.1 hp).2
    omega

/-- The append writes its rows, and only among them. -/
theorem appendLinkedWrites_spec (rows : List (Row R)) (maxCount : ℕ) :
    (appendLinkedWrites env rows maxCount).rows = memoryAppendLinkedNeighbors env rows maxCount ∧
      (appendLinkedWrites env rows maxCount).Inside := by
  have hlinks : appendLinkedWrites env rows maxCount =
      (linksOf env rows).foldl (fun w l => appendLinkedWrite env maxCount l.1 w l.2) ⟨rows, []⟩ := by
    rw [appendLinkedWrites, linksOf, List.foldl_map, List.foldl_flatMap]
    simp only [List.foldl_map]
  have hrun : ∀ (ls : List (ℤ × MemoryLink)) (w : Written R), w.Inside →
      (ls.foldl (fun w l => appendLinkedWrite env maxCount l.1 w l.2) w).rows =
          ls.foldl (fun acc l => appendLinkedNeighbor env maxCount l.1 acc l.2) w.rows ∧
        (ls.foldl (fun w l => appendLinkedWrite env maxCount l.1 w l.2) w).Inside := by
    intro ls
    induction ls with
    | nil => exact fun w hw => ⟨rfl, hw⟩
    | cons l ls ih => exact fun w hw => ih _ (hw.appendLinkedWrite maxCount l.1 l.2)
  rw [hlinks, memoryAppendLinkedNeighbors_eq]
  exact hrun _ ⟨rows, []⟩ fun p hp => absurd hp List.not_mem_nil

end Append

/-! ### What is written -/

variable {env : RankerEnv R} {hits : Hits R} {rows : List (Row R)}

/-- The sort trades rows that are there. -/
theorem sortWrites_inside (es : List (Scored R)) : ∀ p ∈ (sortWrites es).2, p < es.length := by
  have hrun : ∀ (is : List ℕ) (s : List (Scored R) × List ℕ), s.1.length = es.length → (∀ i ∈ is, i < es.length) →
      (∀ p ∈ s.2, p < es.length) →
      ∀ p ∈ (is.foldl (fun s i =>
        (selectionRound Scored.score s.1 i,
          if bestPlace Scored.score s.1 i ≠ i then s.2 ++ [i, bestPlace Scored.score s.1 i] else s.2)) s).2,
        p < es.length := by
    intro is
    induction is with
    | nil => exact fun s _ _ hs => hs
    | cons i is ih =>
      intro s hlength his hs
      have hi : i < s.1.length := hlength ▸ his i List.mem_cons_self
      obtain ⟨-, hbest⟩ : i ≤ bestPlace Scored.score s.1 i ∧ bestPlace Scored.score s.1 i < s.1.length :=
        bestPlace_bounds hi
      refine ih _ ((selectionRound_perm _ _ _).length_eq.trans hlength) (fun j hj => his j (List.mem_cons_of_mem _ hj)) ?_
      intro p hp
      simp only at hp
      split_ifs at hp
      · rcases List.mem_append.1 hp with hp | hp
        · exact hs p hp
        · simp only [List.mem_cons, List.not_mem_nil, or_false] at hp
          omega
      · exact hs p hp
  refine hrun _ (es, []) rfl (fun i hi => ?_) fun p hp => absurd hp List.not_mem_nil
  have := List.mem_range.1 hi
  omega

/-- A rerank writes to all its candidates and nowhere else. -/
theorem rerankWrites_lt_iff {rawQuery : Text} (hmany : ¬ rows.length ≤ 1) (n : ℕ) :
    (∀ p ∈ rerankWrites env hits (some rawQuery) rows, p < n) ↔ (candidatesOf env rows).length ≤ n := by
  obtain ⟨w, hwrites, hrows, hinside⟩ : ∃ w : Written R,
      rerankWrites env hits (some rawQuery) rows = w.places ++ List.range w.rows.length ++
        (sortWrites (finalScored env hits rawQuery (normQueryOf env rawQuery) w.rows)).2 ++ List.range w.rows.length ∧
      w.rows = candidatesOf env rows ∧ w.Inside := by
    refine ⟨_, if_neg hmany, ?_⟩
    unfold candidatesOf
    split
    · exact appendLinkedWrites_spec _ 128
    · exact ⟨rfl, fun p hp => absurd hp List.not_mem_nil⟩
  have hscored : (finalScored env hits rawQuery (normQueryOf env rawQuery) w.rows).length = w.rows.length := by
    simpa using congrArg List.length (finalScored_rows env hits rawQuery (normQueryOf env rawQuery) w.rows)
  rw [hwrites, ← hrows]
  constructor
  · intro h
    rcases Nat.eq_zero_or_pos w.rows.length with hnone | hsome
    · omega
    · have hlast := h (w.rows.length - 1) (List.mem_append_right _ (List.mem_range.2 (by omega)))
      omega
  · intro hle p hp
    refine lt_of_lt_of_le ?_ hle
    simp only [List.mem_append, List.mem_range] at hp
    rcases hp with ((hp | hp) | hp) | hp
    · exact hinside p hp
    · exact hp
    · exact hscored ▸ sortWrites_inside _ p hp
    · exact hp

/-- **Everything that a rerank writes lies in the buffer of its caller** exactly when it returns at once, when
pagerank is off, or when there is room for all the linked rows. -/
theorem rerankWrites_within_iff (hget : ∀ id m, env.memoryGet id = some m → m.id = id)
    (hcount : rows.length ≤ rerankBuffer) (rawQuery : Option Text) :
    (∀ p ∈ rerankWrites env hits rawQuery rows, p < rerankBuffer) ↔
      rawQuery = none ∨ rows.length ≤ 1 ∨ env.pagerank.enabled = false ∨
        rows.length + (linkedRows env rows).card ≤ rerankBuffer := by
  have hscores : rows.length ≤ 128 := hcount.trans (by decide)
  cases rawQuery with
  | none => simp [rerankWrites]
  | some rawQuery =>
    by_cases hsingle : rows.length ≤ 1
    · simp [rerankWrites, hsingle]
    · rw [rerankWrites_lt_iff hsingle, candidatesOf_length hget hscores]
      cases hpagerank : env.pagerank.enabled with
      | false => simpa [hsingle] using hcount
      | true =>
        simp only [if_true, hsingle, Bool.true_eq_false, reduceCtorEq, false_or, rerankBuffer]
        omega

namespace Sample

/-- So many rows about ports. -/
def portRows (n : ℕ) : List (Row ℚ) := (List.range n).map fun i : ℕ => row ((i : ℤ) + 1) "the port" 0.9

/-- Row 1 is linked to row 97. -/
def linkedStore : RankerEnv ℚ :=
  { store with
    pagerank := ⟨true, 8, 1, text "related_to"⟩
    linkQuery := fun id => if id = 1 then [⟨1, 97, text "related_to"⟩] else []
    memoryGet := fun id => if id = 97 then some (row 97 "the host" 0.9) else none }

theorem linkedStore_memoryGet (id : ℤ) (m : Row ℚ) (h : linkedStore.memoryGet id = some m) : m.id = id := by
  simp only [linkedStore] at h
  split_ifs at h with hid
  rw [← Option.some.inj h, hid]
  rfl

theorem linkedRows_portRows (n : ℕ) (hn : 0 < n) (hlt : n < 97) : linkedRows linkedStore (portRows n) = {97} := by
  ext id
  rw [linkedRows, mem_missingEnds, Finset.mem_singleton]
  constructor
  · rintro ⟨⟨l, hl, -, rfl⟩, -⟩
    obtain ⟨m, -, hl⟩ := List.mem_flatMap.1 hl
    obtain ⟨link, hlink, rfl⟩ := List.mem_map.1 hl
    simp only [linkedStore] at hlink
    split_ifs at hlink with hid
    · obtain rfl := List.mem_singleton.1 hlink
      rw [hid]
      rfl
    · exact absurd hlink List.not_mem_nil
  · rintro rfl
    refine ⟨⟨(1, ⟨1, 97, text "related_to"⟩), List.mem_flatMap.2 ⟨row 1 "the port" 0.9, ?_, ?_⟩, by decide, rfl⟩, by decide,
      rfl, fun m hm => ?_⟩
    · exact List.mem_map.2 ⟨0, List.mem_range.2 hn, by norm_num⟩
    · exact List.mem_map.2 ⟨_, List.mem_singleton.2 rfl, rfl⟩
    · obtain ⟨i, hi, rfl⟩ := List.mem_map.1 hm
      have := List.mem_range.1 hi
      simp only [row]
      omega

end Sample

/-- The row linked to one of 96 candidates is written behind the buffer. -/
theorem linked_row_overruns :
    ¬ ∀ p ∈ rerankWrites Sample.linkedStore ⟨[], []⟩ (some (text "port")) (Sample.portRows 96), p < rerankBuffer := by
  have hlength : (Sample.portRows 96).length = 96 := by simp [Sample.portRows]
  rw [rerankWrites_lt_iff (by omega), candidatesOf_length Sample.linkedStore_memoryGet (by omega), hlength,
    Sample.linkedRows_portRows 96 (by decide) (by decide)]
  decide

/-- Behind 95 candidates there is room for it. -/
theorem rerankWrites_within_room : (Sample.portRows 95).length = 95 ∧
    ∀ p ∈ rerankWrites Sample.linkedStore ⟨[], []⟩ (some (text "port")) (Sample.portRows 95), p < rerankBuffer := by
  have hlength : (Sample.portRows 95).length = 95 := by simp [Sample.portRows]
  refine ⟨hlength, (rerankWrites_within_iff Sample.linkedStore_memoryGet (by rw [hlength]; decide) _).2
    (.inr (.inr (.inr ?_)))⟩
  rw [hlength, Sample.linkedRows_portRows 95 (by decide) (by decide)]
  decide

end AimeeMemory.Recall.Ranker
