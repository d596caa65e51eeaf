import AimeeMemory.Core.Store
import AimeeMemory.Lib.Upsert
import Mathlib.Data.List.Induction
import Mathlib.Order.Bounds.Basic

/-!
# Expanding from seeds

`memory_graph_fusion.c`: the gravity of a relation, the score of an edge, and the expansion of
seeds to the memories that are linked to them or to their neighbours.

## What is proved

* **`expansion_consistent_iff`**: the score of a memory is the best of all occurrences that are visited, and `via` names a
  node with that score, exactly where the node that a memory is first visited at has its best score.
* **`neighbour_outscores`**: a memory at a seed and, with a better score, at a code node next to it.

## Honest scope

The scores are of any linear order with the operations of the doubles, so there is no NaN. The length of `via` is in
a header that is not in the repository.
-/

namespace AimeeMemory.Graph

open AimeeMemory.Core AimeeMemory.Lib

/-- The functions of `math.h`. -/
structure Libm (R : Type*) where
  log1p : R → R
  pow : R → R → R

/-- `db2_entity_edge_weighted_neighbor_t`. -/
structure WeightedNeighbor (R : Type*) where
  node : Text
  weight : ℤ
  effectiveUtility : R

/-- What the expansion uses: `db2_memory_collect_entity_matches`, `db2_entity_edge_neighbors_weighted`, `GRAPH_ENDPOINT_MAX`. -/
structure FusionEnv (R : Type*) extends Libm R where
  collectEntityMatches : Text → ℕ → ℕ → List ℤ
  neighborsWeighted : Text → ℤ → ℤ → Bool → List (WeightedNeighbor R)
  graphEndpointMax : ℕ

/-- `memory_graph_expansion_t`. -/
structure MemoryGraphExpansion (R : Type*) where
  memoryId : ℤ
  graphScore : R
  hops : ℕ
  via : Text
  deriving DecidableEq

/-- The parts of `memory_score_parts_t` that come from the graph. -/
structure MemoryScoreParts (R : Type*) where
  graphScore : R
  codeProximity : R

variable {R : Type*} [LinearOrder R]

/-! ## The score of an edge -/

section

variable [Add R] [Mul R] [Div R] [Neg R] [IntCast R] [OfScientific R]

/-- `memory_graph_relation_gravity`. -/
def memoryGraphRelationGravity (relation : Option Text) : R :=
  match relation with
  | none => 0.45
  | some relation =>
    if relation = [] then 0.45
    else if relation = text "defines" then 1.00
    else if relation = text "contains" then 0.85
    else if relation = text "depends_on" then 0.75
    else if relation = text "routes" then 0.70
    else if relation = text "exports" then 0.60
    else if relation = text "co_edited" then 0.60
    else if relation = text "calls" then 0.55
    else if relation = text "co_discussed" then 0.45
    else if relation = text "imports" then 0.30
    else 0.45

def clampd (v lo hi : R) : R := if v < lo then lo else if hi < v then hi else v

/-- `memory_graph_edge_score`. -/
def memoryGraphEdgeScore (libm : Libm R) (relation : Option Text) (isCodeEdge : Bool) (structuralWeight weight : ℤ)
    (effectiveUtility : R) (hop : ℤ) : R :=
  let structuralFactor : R := if isCodeEdge then 1.0 + clampd (structuralWeight : R) 0.0 3.0 / 3.0 else 1.0
  let observedFactor : R := 1.0 + clampd (libm.log1p ((if 0 < weight then weight else 0 : ℤ) : R)) 0.0 3.0 / 3.0
  let utilityFactor : R := 1.0 + clampd effectiveUtility (-0.5) 2.0
  let hopDist : ℤ := if 1 < hop then hop else 1
  let hopDecay : R := libm.pow 0.5 ((hopDist - 1 : ℤ) : R)
  memoryGraphRelationGravity relation * structuralFactor * observedFactor * utilityFactor * hopDecay

end

/-- `node_key_is_code`. -/
def nodeKeyIsCode (key : Text) : Bool :=
  ["file:", "symbol:", "import:", "export:", "route:", "project:"].any fun kind => (text kind).isPrefixOf key

/-! ## The expansion -/

section

variable [Add R] [Mul R] [Div R] [Neg R] [IntCast R] [OfScientific R]
  (env : FusionEnv R) (maxNeighbors : ℤ) (allowCodeGraph utilityScoringEnabled : Bool) (max : ℕ)

/-- A node's key in `via`. -/
def FusionEnv.viaOf (node : Text) : Text := node.take (env.graphEndpointMax - 1)

/-- The entry of a memory keeps the better score. -/
def MemoryGraphExpansion.raise (score : R) (e : MemoryGraphExpansion R) : MemoryGraphExpansion R :=
  if e.graphScore < score then { e with graphScore := score } else e

/-- A memory at a node, while `out` has room. -/
def expandHit (node : Text) (score : R) (out : List (MemoryGraphExpansion R)) (id : ℤ) : List (MemoryGraphExpansion R) :=
  -- Each loop ends where `out` is full.
  if max ≤ out.length then out
  else upsert MemoryGraphExpansion.memoryId id (·.raise score) ⟨id, score, 1, env.viaOf node⟩ out

/-- The memories at a node. -/
def expandNode (node : Text) (score : R) (out : List (MemoryGraphExpansion R)) : List (MemoryGraphExpansion R) :=
  (env.collectEntityMatches node 4 8).foldl (expandHit env max node score) out

/-- A neighbour: the relation is not known here. -/
def expandNeighbor (out : List (MemoryGraphExpansion R)) (n : WeightedNeighbor R) : List (MemoryGraphExpansion R) :=
  if !allowCodeGraph && nodeKeyIsCode n.node then out
  else
    expandNode env max n.node
      (memoryGraphEdgeScore env.toLibm none (nodeKeyIsCode n.node) 0 n.weight n.effectiveUtility 1) out

/-- The neighbours of a seed that are asked for. -/
def seedNeighbors (seed : Text) : List (WeightedNeighbor R) :=
  let maxNeighbors := if maxNeighbors ≤ 0 then 16 else maxNeighbors
  let cap := min maxNeighbors 64
  env.neighborsWeighted seed cap cap utilityScoringEnabled

/-- A seed: the memories at it, and those at its neighbours. -/
def expandSeed (out : List (MemoryGraphExpansion R)) (seed : Option Text) : List (MemoryGraphExpansion R) :=
  match seed with
  | none => out
  | some seed =>
    if seed = [] then out
    else if !allowCodeGraph && nodeKeyIsCode seed then out
    else
      let seedScore := memoryGraphEdgeScore env.toLibm none (nodeKeyIsCode seed) 0 1 0.0 1
      (seedNeighbors env maxNeighbors utilityScoringEnabled seed).foldl (expandNeighbor env allowCodeGraph max)
        (expandNode env max seed seedScore out)

/-- `memory_graph_expand_from_seeds`. The limit of the hops is not used. -/
def memoryGraphExpandFromSeeds (nodeKeys : List (Option Text)) (_maxHops maxNeighbors : ℤ)
    (allowCodeGraph utilityScoringEnabled : Bool) (max : ℤ) : List (MemoryGraphExpansion R) :=
  if max ≤ 0 then []
  else nodeKeys.foldl (expandSeed env maxNeighbors allowCodeGraph utilityScoringEnabled max.toNat) []

end

/-- `memory_graph_populate_score_parts`. -/
def memoryGraphPopulateScoreParts (parts : MemoryScoreParts R) (memoryId : ℤ) (expansions : List (MemoryGraphExpansion R)) :
    MemoryScoreParts R :=
  match expansions.find? (·.memoryId = memoryId) with
  | none => parts
  | some e =>
    let parts := { parts with graphScore := e.graphScore }
    if nodeKeyIsCode e.via then { parts with codeProximity := e.graphScore } else parts

/-! ## What is visited -/

/-- A memory is come to at a node, with the score of the node. -/
structure Occurrence (R : Type*) where
  memoryId : ℤ
  node : Text
  score : R

/-- The occurrences up to the one that brings the number of memories to `max`, after those of `seen`. -/
def upToRoom (max : ℕ) : List ℤ → List (Occurrence R) → List (Occurrence R)
  | _, [] => []
  | seen, o :: os =>
    if max ≤ seen.length then []
    else o :: upToRoom max (if o.memoryId ∈ seen then seen else seen ++ [o.memoryId]) os

section

variable [Add R] [Mul R] [Div R] [Neg R] [IntCast R] [OfScientific R]
  (env : FusionEnv R) (maxNeighbors : ℤ) (allowCodeGraph utilityScoringEnabled : Bool)

def nodeOccurrences (node : Text) (score : R) : List (Occurrence R) :=
  (env.collectEntityMatches node 4 8).map fun id => ⟨id, node, score⟩

def neighborOccurrences (n : WeightedNeighbor R) : List (Occurrence R) :=
  if !allowCodeGraph && nodeKeyIsCode n.node then []
  else
    nodeOccurrences env n.node
      (memoryGraphEdgeScore env.toLibm none (nodeKeyIsCode n.node) 0 n.weight n.effectiveUtility 1)

def seedOccurrences (seed : Option Text) : List (Occurrence R) :=
  match seed with
  | none => []
  | some seed =>
    if seed = [] then []
    else if !allowCodeGraph && nodeKeyIsCode seed then []
    else
      nodeOccurrences env seed (memoryGraphEdgeScore env.toLibm none (nodeKeyIsCode seed) 0 1 0.0 1) ++
        (seedNeighbors env maxNeighbors utilityScoringEnabled seed).flatMap (neighborOccurrences env allowCodeGraph)

/-- All occurrences, in their order. -/
def occurrences (nodeKeys : List (Option Text)) : List (Occurrence R) :=
  nodeKeys.flatMap (seedOccurrences env maxNeighbors allowCodeGraph utilityScoringEnabled)

/-- The occurrences that an expansion visits. -/
def visited (nodeKeys : List (Option Text)) (max : ℤ) : List (Occurrence R) :=
  upToRoom max.toNat [] (occurrences env maxNeighbors allowCodeGraph utilityScoringEnabled nodeKeys)

end

/-- The scores that a memory is visited with. -/
def scoresOf (visited : List (Occurrence R)) (id : ℤ) : Set R := {s | ∃ o ∈ visited, o.memoryId = id ∧ o.score = s}

/-- What the entries of an expansion say is what was visited. -/
structure Consistent (env : FusionEnv R) (allowCodeGraph : Bool) (visited : List (Occurrence R))
    (out : List (MemoryGraphExpansion R)) : Prop where
  nodup : (out.map MemoryGraphExpansion.memoryId).Nodup
  score : ∀ e ∈ out, IsGreatest (scoresOf visited e.memoryId) e.graphScore
  via : ∀ e ∈ out, ∃ o ∈ visited, o.memoryId = e.memoryId ∧ o.score = e.graphScore ∧ e.via = env.viaOf o.node
  gate : allowCodeGraph = false → ∀ e ∈ out, nodeKeyIsCode e.via = false
  parts : ∀ e ∈ out, ∀ parts : MemoryScoreParts R, memoryGraphPopulateScoreParts parts e.memoryId out =
    { graphScore := e.graphScore
      codeProximity := if nodeKeyIsCode e.via then e.graphScore else parts.codeProximity }

/-- The node that a memory is first visited at has the best score that it is visited with. -/
def BestAtFirst (env : FusionEnv R) (visited : List (Occurrence R)) : Prop :=
  ∀ o ∈ visited, ∀ first ∈ visited.find? (·.memoryId = o.memoryId),
    ∃ best ∈ visited, best.memoryId = o.memoryId ∧ env.viaOf best.node = env.viaOf first.node ∧
      ∀ other ∈ visited, other.memoryId = o.memoryId → other.score ≤ best.score

/-! ## The expansion visits the occurrences -/

variable {env : FusionEnv R} {max : ℕ} {o : Occurrence R} {os : List (Occurrence R)} {out : List (MemoryGraphExpansion R)}
  {e : MemoryGraphExpansion R} {score : R} {allowCodeGraph : Bool}

/-- An occurrence, where `out` has room. -/
def expandVisit (env : FusionEnv R) (out : List (MemoryGraphExpansion R)) (o : Occurrence R) : List (MemoryGraphExpansion R) :=
  upsert MemoryGraphExpansion.memoryId o.memoryId (·.raise o.score) ⟨o.memoryId, o.score, 1, env.viaOf o.node⟩ out

theorem expandNode_eq (node : Text) (score : R) (out : List (MemoryGraphExpansion R)) :
    expandNode env max node score out =
      (nodeOccurrences env node score).foldl (fun out o => expandHit env max o.node o.score out o.memoryId) out := by
  rw [expandNode, nodeOccurrences, List.foldl_map]

theorem memoryId_raise (score : R) (e : MemoryGraphExpansion R) : (e.raise score).memoryId = e.memoryId := by
  rw [MemoryGraphExpansion.raise]
  split_ifs <;> rfl

theorem memoryIds_expandVisit (env : FusionEnv R) (out : List (MemoryGraphExpansion R)) (o : Occurrence R) :
    (expandVisit env out o).map MemoryGraphExpansion.memoryId =
      if o.memoryId ∈ out.map MemoryGraphExpansion.memoryId then out.map MemoryGraphExpansion.memoryId
      else out.map MemoryGraphExpansion.memoryId ++ [o.memoryId] :=
  map_upsert (memoryId_raise o.score) rfl

/-- The occurrences after those that bring the number of memories to `max` are left out. -/
theorem foldl_expandHit_eq (os : List (Occurrence R)) (out : List (MemoryGraphExpansion R)) :
    os.foldl (fun out o => expandHit env max o.node o.score out o.memoryId) out =
      (upToRoom max (out.map MemoryGraphExpansion.memoryId) os).foldl (expandVisit env) out := by
  induction os generalizing out with
  | nil => rfl
  | cons o os ih =>
    by_cases hfull : max ≤ out.length
    · rw [upToRoom, List.length_map, if_pos hfull]
      refine List.foldl_fixed' (fun o => ?_) _
      rw [expandHit, if_pos hfull]
    · rw [upToRoom, List.length_map, if_neg hfull, List.foldl_cons, List.foldl_cons, expandHit, if_neg hfull,
        ← memoryIds_expandVisit env]
      exact ih _

/-! ## What an entry says -/

/-- The entries are of the memories that are visited, with the best scores, and the nodes that they are first visited at. -/
structure Summarises (env : FusionEnv R) (os : List (Occurrence R)) (out : List (MemoryGraphExpansion R)) : Prop where
  nodup : (out.map MemoryGraphExpansion.memoryId).Nodup
  mem_iff : ∀ id, id ∈ out.map MemoryGraphExpansion.memoryId ↔ ∃ o ∈ os, o.memoryId = id
  score : ∀ e ∈ out, IsGreatest (scoresOf os e.memoryId) e.graphScore
  first : ∀ e ∈ out, ∃ first ∈ os.find? (·.memoryId = e.memoryId), e.via = env.viaOf first.node

omit [LinearOrder R] in
theorem scoresOf_append_of_eq {id : ℤ} (h : o.memoryId = id) :
    scoresOf (os ++ [o]) id = insert o.score (scoresOf os id) := by
  ext s
  simp only [scoresOf, List.mem_append, List.mem_singleton, Set.mem_insert_iff, Set.mem_ofPred_eq]
  constructor
  · rintro ⟨o', ho' | rfl, hid, rfl⟩
    · exact .inr ⟨o', ho', hid, rfl⟩
    · exact .inl rfl
  · rintro (rfl | ⟨o', ho', hid, rfl⟩)
    · exact ⟨o, .inr rfl, h, rfl⟩
    · exact ⟨o', .inl ho', hid, rfl⟩

omit [LinearOrder R] in
theorem scoresOf_append_of_ne {id : ℤ} (h : o.memoryId ≠ id) : scoresOf (os ++ [o]) id = scoresOf os id := by
  ext s
  simp only [scoresOf, List.mem_append, List.mem_singleton, Set.mem_ofPred_eq]
  constructor
  · rintro ⟨o', ho' | rfl, hid, rfl⟩
    · exact ⟨o', ho', hid, rfl⟩
    · exact absurd hid h
  · rintro ⟨o', ho', hid, rfl⟩
    exact ⟨o', .inl ho', hid, rfl⟩

theorem graphScore_raise (score : R) (e : MemoryGraphExpansion R) : (e.raise score).graphScore = score ⊔ e.graphScore := by
  rw [MemoryGraphExpansion.raise]
  split_ifs with h
  · exact (max_eq_left h.le).symm
  · exact (max_eq_right (not_lt.1 h)).symm

theorem via_raise (score : R) (e : MemoryGraphExpansion R) : (e.raise score).via = e.via := by
  rw [MemoryGraphExpansion.raise]
  split_ifs <;> rfl

omit [LinearOrder R] in
/-- Where a memory was visited before, it is first visited at the same node. -/
theorem find?_append_of_mem {id : ℤ} {first : Occurrence R} (h : first ∈ os.find? (·.memoryId = id)) (o : Occurrence R) :
    first ∈ (os ++ [o]).find? (·.memoryId = id) := by
  rw [List.find?_append, Option.mem_def.1 h]
  rfl

/-- **An occurrence** is added to what the entries say. -/
theorem Summarises.visit (h : Summarises env os out) (o : Occurrence R) :
    Summarises env (os ++ [o]) (expandVisit env out o) where
  nodup := nodup_map_upsert (memoryId_raise o.score) rfl h.nodup
  mem_iff := by
    intro id
    rw [memoryIds_expandVisit]
    simp only [List.mem_append, List.mem_singleton, or_and_right, exists_or, exists_eq_left, ← h.mem_iff]
    split_ifs with hold
    · refine ⟨.inl, ?_⟩
      rintro (hid | rfl)
      · exact hid
      · exact hold
    · rw [List.mem_append, List.mem_singleton, eq_comm]
  score := by
    intro e he
    rcases mem_upsert h.nodup he with ⟨hold, hne⟩ | ⟨c, hc, hid, rfl⟩ | ⟨hnew, rfl⟩
    · rw [scoresOf_append_of_ne (Ne.symm hne)]
      exact h.score e hold
    · rw [memoryId_raise, graphScore_raise, scoresOf_append_of_eq hid.symm]
      exact (h.score c hc).insert o.score
    · have hnone : scoresOf os o.memoryId = ∅ := by
        refine Set.eq_empty_iff_forall_notMem.2 ?_
        rintro s ⟨o', ho', hid, -⟩
        exact hnew ((h.mem_iff _).2 ⟨o', ho', hid⟩)
      rw [scoresOf_append_of_eq rfl, hnone, insert_empty_eq]
      exact isGreatest_singleton
  first := by
    intro e he
    rcases mem_upsert h.nodup he with ⟨hold, -⟩ | ⟨c, hc, -, rfl⟩ | ⟨hnew, rfl⟩
    · obtain ⟨first, hfirst, hvia⟩ := h.first e hold
      exact ⟨first, find?_append_of_mem hfirst o, hvia⟩
    · obtain ⟨first, hfirst, hvia⟩ := h.first c hc
      rw [memoryId_raise, via_raise]
      exact ⟨first, find?_append_of_mem hfirst o, hvia⟩
    · refine ⟨o, ?_, rfl⟩
      rw [List.find?_append, List.find?_eq_none.2, Option.none_or]
      · simp
      · intro o' ho' hid
        exact hnew ((h.mem_iff _).2 ⟨o', ho', of_decide_eq_true hid⟩)

/-- All occurrences are added one after the other. -/
theorem summarises_foldl (env : FusionEnv R) (os : List (Occurrence R)) :
    Summarises env os (os.foldl (expandVisit env) []) := by
  induction os using List.reverseRecOn with
  | nil =>
    refine ⟨List.nodup_nil, fun id => ?_, fun e he => absurd he List.not_mem_nil, fun e he => absurd he List.not_mem_nil⟩
    simp
  | append_singleton os o ih =>
    rw [List.foldl_append]
    exact ih.visit o

/-- An entry's node has the memory's best score, for every entry, exactly where the first nodes do. -/
theorem Summarises.via_iff (h : Summarises env os out) :
    (∀ e ∈ out, ∃ o ∈ os, o.memoryId = e.memoryId ∧ o.score = e.graphScore ∧ e.via = env.viaOf o.node) ↔
      BestAtFirst env os := by
  constructor
  · intro hvia o ho first hfirst
    obtain ⟨e, he, hid⟩ := List.mem_map.1 ((h.mem_iff _).2 ⟨o, ho, rfl⟩)
    obtain ⟨best, hbest, hbestid, hscore, hnode⟩ := hvia e he
    obtain ⟨first', hfirst', hvia'⟩ := h.first e he
    rw [hid, Option.mem_def.1 hfirst, Option.mem_some_iff] at hfirst'
    refine ⟨best, hbest, hbestid.trans hid, ?_, fun other hother hotherid => ?_⟩
    · rw [← hnode, hvia', ← hfirst']
    · rw [hscore]
      exact (h.score e he).2 ⟨other, hother, hotherid.trans hid.symm, rfl⟩
  · intro hbest e he
    obtain ⟨first, hfirst, hvia⟩ := h.first e he
    have hid : first.memoryId = e.memoryId := by simpa using List.find?_some hfirst
    obtain ⟨best, hmem, hbestid, hnode, hgreatest⟩ :=
      hbest first (List.mem_of_find?_eq_some hfirst) first (by rw [hid]; exact hfirst)
    refine ⟨best, hmem, hbestid.trans hid, ?_, hvia.trans hnode.symm⟩
    obtain ⟨⟨o, ho, hoid, hscore⟩, hupper⟩ := h.score e he
    refine le_antisymm (hupper ⟨best, hmem, hbestid.trans hid, rfl⟩) ?_
    rw [← hscore]
    exact hgreatest o ho (hoid.trans hid.symm)

omit [LinearOrder R] in
/-- The parts of a memory are those of its entry. -/
theorem memoryGraphPopulateScoreParts_eq (h : (out.map MemoryGraphExpansion.memoryId).Nodup) (he : e ∈ out)
    (parts : MemoryScoreParts R) :
    memoryGraphPopulateScoreParts parts e.memoryId out =
      { graphScore := e.graphScore
        codeProximity := if nodeKeyIsCode e.via then e.graphScore else parts.codeProximity } := by
  rw [memoryGraphPopulateScoreParts, find?_key h he]
  simp only
  split_ifs <;> rfl

omit [LinearOrder R] in
/-- A key that is cut is of a code node only if the key is. -/
theorem nodeKeyIsCode_viaOf {node : Text} (h : nodeKeyIsCode node = false) : nodeKeyIsCode (env.viaOf node) = false := by
  rw [nodeKeyIsCode, List.any_eq_false] at h ⊢
  intro kind hkind hprefix
  refine h kind hkind (List.isPrefixOf_iff_prefix.2 ?_)
  exact (List.isPrefixOf_iff_prefix.1 hprefix).trans (List.take_prefix _ _)

omit [LinearOrder R] in
theorem mem_of_mem_upToRoom {seen : List ℤ} (h : o ∈ upToRoom max seen os) : o ∈ os := by
  induction os generalizing seen with
  | nil => cases h
  | cons o' os ih =>
    rw [upToRoom] at h
    split_ifs at h
    · cases h
    all_goals
      rcases List.mem_cons.1 h with rfl | h
      · exact List.mem_cons_self
      · exact List.mem_cons_of_mem _ (ih h)

section

variable [Add R] [Mul R] [Div R] [Neg R] [IntCast R] [OfScientific R]

/-- Without the code graph no occurrence is at a code node. -/
theorem nodeKeyIsCode_of_mem_occurrences {maxNeighbors : ℤ} {utilityScoringEnabled : Bool} {nodeKeys : List (Option Text)}
    (h : o ∈ occurrences env maxNeighbors false utilityScoringEnabled nodeKeys) : nodeKeyIsCode o.node = false := by
  have hnode : ∀ (node : Text) (score : R), o ∈ nodeOccurrences env node score → o.node = node := by
    intro node score ho
    obtain ⟨id, -, rfl⟩ := List.mem_map.1 ho
    rfl
  obtain ⟨seed, -, h⟩ := List.mem_flatMap.1 h
  cases seed with
  | none => cases h
  | some seed =>
    simp only [seedOccurrences, Bool.not_false, Bool.true_and] at h
    split_ifs at h with hempty hcode
    · cases h
    · cases h
    rcases List.mem_append.1 h with h | h
    · rw [hnode _ _ h, Bool.eq_false_iff]
      exact hcode
    · obtain ⟨n, -, h⟩ := List.mem_flatMap.1 h
      simp only [neighborOccurrences, Bool.not_false, Bool.true_and] at h
      split_ifs at h with hcode'
      · cases h
      · rw [hnode _ _ h, Bool.eq_false_iff]
        exact hcode'

/-- The expansion goes through the occurrences. -/
theorem foldl_expandSeed_eq (maxNeighbors : ℤ) (utilityScoringEnabled : Bool) (nodeKeys : List (Option Text))
    (out : List (MemoryGraphExpansion R)) :
    nodeKeys.foldl (expandSeed env maxNeighbors allowCodeGraph utilityScoringEnabled max) out =
      (occurrences env maxNeighbors allowCodeGraph utilityScoringEnabled nodeKeys).foldl
        (fun out o => expandHit env max o.node o.score out o.memoryId) out := by
  rw [occurrences, List.foldl_flatMap]
  refine List.foldl_ext _ _ _ fun out seed _ => ?_
  cases seed with
  | none => rfl
  | some seed =>
    simp only [expandSeed, seedOccurrences]
    split_ifs
    · rfl
    · rfl
    · rw [List.foldl_append, ← expandNode_eq, List.foldl_flatMap]
      refine List.foldl_ext _ _ _ fun out n _ => ?_
      rw [expandNeighbor, neighborOccurrences]
      split_ifs
      · rfl
      · exact expandNode_eq _ _ _

theorem memoryGraphExpandFromSeeds_eq (env : FusionEnv R) (nodeKeys : List (Option Text)) (maxHops maxNeighbors : ℤ)
    (allowCodeGraph utilityScoringEnabled : Bool) (max : ℤ) :
    memoryGraphExpandFromSeeds env nodeKeys maxHops maxNeighbors allowCodeGraph utilityScoringEnabled max =
      (visited env maxNeighbors allowCodeGraph utilityScoringEnabled nodeKeys max).foldl (expandVisit env) [] := by
  rw [memoryGraphExpandFromSeeds, visited]
  split_ifs with hmax
  · rw [Int.toNat_of_nonpos hmax]
    cases occurrences env maxNeighbors allowCodeGraph utilityScoringEnabled nodeKeys <;> rfl
  · rw [foldl_expandSeed_eq, foldl_expandHit_eq]
    rfl

/-- **The entries are consistent** exactly where each memory has its best score at the node it is first visited at. -/
theorem expansion_consistent_iff (env : FusionEnv R) (nodeKeys : List (Option Text)) (maxHops maxNeighbors : ℤ)
    (allowCodeGraph utilityScoringEnabled : Bool) (max : ℤ) :
    Consistent env allowCodeGraph (visited env maxNeighbors allowCodeGraph utilityScoringEnabled nodeKeys max)
        (memoryGraphExpandFromSeeds env nodeKeys maxHops maxNeighbors allowCodeGraph utilityScoringEnabled max) ↔
      BestAtFirst env (visited env maxNeighbors allowCodeGraph utilityScoringEnabled nodeKeys max) := by
  rw [memoryGraphExpandFromSeeds_eq]
  have hvisited : ∀ o ∈ visited env maxNeighbors allowCodeGraph utilityScoringEnabled nodeKeys max,
      o ∈ occurrences env maxNeighbors allowCodeGraph utilityScoringEnabled nodeKeys := fun o ho => mem_of_mem_upToRoom ho
  generalize visited env maxNeighbors allowCodeGraph utilityScoringEnabled nodeKeys max = os at hvisited ⊢
  have h := summarises_foldl env os
  generalize os.foldl (expandVisit env) [] = out at h ⊢
  refine ⟨fun hconsistent => h.via_iff.1 hconsistent.via, fun hbest => ?_⟩
  refine ⟨h.nodup, h.score, h.via_iff.2 hbest, ?_, fun e he => memoryGraphPopulateScoreParts_eq h.nodup he⟩
  rintro rfl e he
  obtain ⟨first, hfirst, hvia⟩ := h.first e he
  rw [hvia]
  exact nodeKeyIsCode_viaOf (nodeKeyIsCode_of_mem_occurrences (hvisited first (List.mem_of_find?_eq_some hfirst)))

end

/-! ## A code node and a better one -/

/-- A note with two neighbours, a file and a topic, of which the topic has proved useful. A memory is linked to both. -/
def noteEnv : FusionEnv ℚ where
  log1p x := if x = 1 then 6243314768165359 / 9007199254740992 else 0
  pow base exponent := if exponent = 0 then 1 else base
  collectEntityMatches node _ _ := if node = text "file:port.c" ∨ node = text "topic" then [7] else []
  neighborsWeighted _ _ _ _ := [⟨text "file:port.c", 1, 0⟩, ⟨text "topic", 1, 1⟩]
  graphEndpointMax := 256

/-- **The memory** has the score of the topic, and the file in `via`: the score counts as its proximity to code. -/
theorem neighbour_outscores :
    ¬ Consistent noteEnv true (visited noteEnv 16 true true [some (text "note")] 8)
        (memoryGraphExpandFromSeeds noteEnv [some (text "note")] 2 16 true true 8) ∧
      (memoryGraphExpandFromSeeds noteEnv [some (text "note")] 2 16 true true 8).map (·.via) = [text "file:port.c"] := by
  refine ⟨fun h => ?_, by decide +kernel⟩
  have hvia : ∃ e ∈ memoryGraphExpandFromSeeds noteEnv [some (text "note")] 2 16 true true 8,
      ∀ o ∈ visited noteEnv 16 true true [some (text "note")] 8,
        ¬ (o.memoryId = e.memoryId ∧ o.score = e.graphScore ∧ e.via = noteEnv.viaOf o.node) := by decide +kernel
  obtain ⟨e, he, hnone⟩ := hvia
  obtain ⟨o, ho, hattained⟩ := h.via e he
  exact hnone o ho hattained

end AimeeMemory.Graph
