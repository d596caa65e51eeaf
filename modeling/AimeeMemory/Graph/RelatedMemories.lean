import AimeeMemory.Context.Hint
import AimeeMemory.Core.Transcripts
import AimeeMemory.Lib.BestOffers

/-!
# Memories related to seeds

`memory_graph.c`: the map of boosts that the nodes near the query terms get, and the memories that the graph relates
to a list of seed keys.

## What is proved

* **`memoryGraphBoost_best`**: the map has the first nodes that are met, each with the best weight of all the edges
  that lead there, those of the second hop at a half; and a depth of four is a depth of two.
* **`memoryGraphRelated_eq`**: the memories are the first of each id among the matches that are no seeds, and the terms
  they are searched with are the first that are met, each with the best of its weights over both hops.

## Honest scope

The names that db2 answers fit the entries of the map, whose sizes are in a header that is not in the repository.
-/

namespace AimeeMemory.Graph

open AimeeMemory.Core AimeeMemory.Lib
open AimeeMemory.Context (lowered)

/-- `db2_entity_neighbor_t`. -/
structure EntityNeighbor where
  node : Text
  weight : ℤ

/-- `db2_memory_search_match_t`. -/
structure MemorySearchMatch where
  id : ℤ
  key : Text
  content : Text
  deriving DecidableEq

/-- `graph_related_t`. -/
structure GraphRelated (R : Type*) extends MemorySearchMatch where
  score : R

/-- What db2 answers, and the sizes of `boost_map_t` and `graph_related_t`. -/
structure EdgeQueries where
  neighbors : Text → ℕ → ℕ → List EntityNeighbor
  neighborsFiltered : Text → Text → Option Text → Bool → ℕ → ℕ → List EntityNeighbor
  searchByPattern : Text → ℕ → List MemorySearchMatch
  maxBoostEntries : ℕ
  entitySize : ℕ
  keySize : ℕ
  contentSize : ℕ

/-- The names of the nodes fit the entries. -/
structure EdgeQueries.Fits (env : EdgeQueries) : Prop where
  neighbors : ∀ term size limit, ∀ n ∈ env.neighbors term size limit, n.node.length < env.entitySize
  filtered : ∀ term relation other byWeight size limit,
    ∀ n ∈ env.neighborsFiltered term relation other byWeight size limit, n.node.length < env.entitySize

variable {R : Type*} [LinearOrder R] (env : EdgeQueries)

/-! ## The map of boosts -/

/-- `boost_map_add`. -/
def boostMapAdd (map : List (Text × R)) (entity : Text) (score : R) : List (Text × R) :=
  if entity ∈ map.map Prod.fst then upsert Prod.fst entity (raiseTo score) (entity, score) map
  else if env.maxBoostEntries ≤ map.length then map
  else map ++ [(entity.take (env.entitySize - 1), score)]

/-- The nodes of an answer, each with a value of its weight. -/
def addNeighbors (value : ℤ → R) (map : List (Text × R)) (ns : List EntityNeighbor) : List (Text × R) :=
  ns.foldl (fun map n => boostMapAdd env map n.node (value n.weight)) map

section

variable [IntCast R] [Div R] [Mul R] [OfScientific R]

/-- `graph_boost`. -/
def graphBoost (queryTerms : List Text) (depth : ℤ) : List (Text × R) :=
  let hop0 := queryTerms.foldl (fun map term => addNeighbors env (fun w => (w : R)) map (env.neighbors term 64 50)) []
  if 2 ≤ depth ∧ 0 < hop0.length then
    (hop0.take 50).foldl (fun map e => addNeighbors env (fun w => (w : R) / 2.0) map (env.neighbors e.1 64 50)) hop0
  else hop0

/-- `memory_graph_boost`. -/
def memoryGraphBoost (queryTerms : List Text) : List (Text × R) := graphBoost env queryTerms 4

/-! ## The related memories -/

/-- The separators of `strtok_r`. -/
def isKeySeparator (c : UInt8) : Bool := c = 32 || c = 9 || c = 10 || c = 95 || c = 45 || c = 47 || c = 46

/-- The words of a seed key that are looked up. -/
def keyTokens (key : Text) : List Text :=
  ((lowered (key.take 511)).splitOnP isKeySeparator).filter fun token => 3 ≤ token.length

/-- The first hop: what the words of the seeds are discussed with. -/
def relatedHop1 (seedKeys : List (Option Text)) : List (Text × R) :=
  (seedKeys.take 16).foldl (fun map seed =>
    match seed with
    | none => map
    | some key => (keyTokens key).foldl (fun map token =>
        addNeighbors env (fun w => (w : R)) map (env.neighborsFiltered token (text "co_discussed") none true 20 20)) map) []

/-- The second hop, from the first twelve nodes of the first. -/
def relatedHop2 (map : List (Text × R)) : List (Text × R) :=
  (map.take 12).foldl (fun acc e =>
    if e.1 = [] then acc
    else addNeighbors env (fun w => (w : R) * 0.5) acc
      (env.neighborsFiltered e.1 (text "co_edited") (some (text "depends_on")) true 15 15)) map

/-- A match whose key has a seed key in it. -/
def isSeed (seedKeys : List (Option Text)) (hit : MemorySearchMatch) : Bool :=
  seedKeys.any fun seed =>
    match seed with
    | none => false
    | some key => hit.key ≠ [] && (strstr hit.key key).isSome

def relatedPattern (entity : Text) : Text := ([37] ++ entity ++ [37]).take 255

/-- The row of a match, under the score of its term. -/
def relatedRow (score : R) (hit : MemorySearchMatch) : GraphRelated R where
  id := hit.id
  key := hit.key.take (env.keySize - 1)
  content := hit.content.take (env.contentSize - 1)
  score := score

def relateHit (seedKeys : List (Option Text)) (max : ℕ) (score : R) (out : List (GraphRelated R)) (hit : MemorySearchMatch) :
    List (GraphRelated R) :=
  if out.length < max then
    if isSeed seedKeys hit then out
    else if hit.id ∈ out.map fun row => row.id then out
    else out ++ [relatedRow env score hit]
  else out

def relateTerm (seedKeys : List (Option Text)) (max : ℕ) (out : List (GraphRelated R)) (term : Text × R) :
    List (GraphRelated R) :=
  if out.length < max then
    (env.searchByPattern (relatedPattern term.1) 10).foldl (relateHit env seedKeys max term.2) out
  else out

/-- `memory_graph_related`. -/
def memoryGraphRelated (seedKeys : List (Option Text)) (max : ℤ) : List (GraphRelated R) :=
  if seedKeys.length = 0 ∨ max ≤ 0 then []
  else
    let related := relatedHop2 env (relatedHop1 env seedKeys)
    if related.length = 0 then [] else related.foldl (relateTerm env seedKeys max.toNat) []

end

/-! ## What is offered -/

/-- The offers of an answer. -/
def offersOf (value : ℤ → R) (ns : List EntityNeighbor) : List (Text × R) := ns.map fun n => (n.node, value n.weight)

/-- The nodes that the first offers bring in. -/
def firstNodes (os : List (Text × R)) : List Text := ((firsts Prod.fst os).map Prod.fst).take env.maxBoostEntries

variable {env}

theorem addNeighbors_eq {value : ℤ → R} {ns : List EntityNeighbor} (hfits : ∀ n ∈ ns, n.node.length < env.entitySize)
    (map : List (Text × R)) : addNeighbors env value map ns = (offersOf value ns).foldl (offer env.maxBoostEntries) map := by
  induction ns generalizing map with
  | nil => rfl
  | cons n ns ih =>
    have hone : boostMapAdd env map n.node (value n.weight) = offer env.maxBoostEntries map (n.node, value n.weight) := by
      rw [boostMapAdd, offer]
      by_cases hmem : n.node ∈ map.map Prod.fst
      · rw [if_pos hmem, if_pos (.inl hmem)]
      · rw [if_neg hmem]
        by_cases hfull : env.maxBoostEntries ≤ map.length
        · rw [if_pos hfull, if_neg (by rw [not_or, not_lt]; exact ⟨hmem, hfull⟩)]
        · rw [if_neg hfull, if_pos (.inr (not_le.1 hfull)), upsert_of_notMem hmem,
            List.take_of_length_le (by have := hfits n List.mem_cons_self; omega)]
    rw [addNeighbors, List.foldl_cons, hone, offersOf, List.map_cons, List.foldl_cons]
    exact ih (fun m hm => hfits m (List.mem_cons_of_mem _ hm)) _

/-- Answers one after another are the offers of all of them. -/
theorem foldl_addNeighbors {α : Type*} {value : ℤ → R} {answer : α → List EntityNeighbor}
    (hfits : ∀ a, ∀ n ∈ answer a, n.node.length < env.entitySize) (os : List (Text × R)) (as : List α) :
    as.foldl (fun map a => addNeighbors env value map (answer a)) (offers env.maxBoostEntries os) =
      offers env.maxBoostEntries (os ++ as.flatMap fun a => offersOf value (answer a)) := by
  induction as generalizing os with
  | nil => rw [List.flatMap_nil, List.append_nil]; rfl
  | cons a as ih =>
    rw [List.foldl_cons, addNeighbors_eq (hfits a), foldl_offer, ih, List.flatMap_cons, List.append_assoc]

/-! ## The rows -/

/-- What the terms match, each under the score of its term. -/
def visits (env : EdgeQueries) (terms : List (Text × R)) : List (R × MemorySearchMatch) :=
  terms.flatMap fun term => (env.searchByPattern (relatedPattern term.1) 10).map fun hit => (term.2, hit)

/-- The rows of the matches that are no seeds. -/
def candidateRows (env : EdgeQueries) (seedKeys : List (Option Text)) (vs : List (R × MemorySearchMatch)) : List (GraphRelated R) :=
  (vs.filter fun v => !isSeed seedKeys v.2).map fun v => relatedRow env v.1 v.2

omit [LinearOrder R] in
theorem relateTerm_eq (seedKeys : List (Option Text)) (max : ℕ) (out : List (GraphRelated R)) (term : Text × R) :
    relateTerm env seedKeys max out term =
      (env.searchByPattern (relatedPattern term.1) 10).foldl (relateHit env seedKeys max term.2) out := by
  rw [relateTerm]
  by_cases hroom : out.length < max
  · rw [if_pos hroom]
  · rw [if_neg hroom]
    induction env.searchByPattern (relatedPattern term.1) 10 with
    | nil => rfl
    | cons hit hits ih => rw [List.foldl_cons, relateHit, if_neg hroom, ← ih]

omit [LinearOrder R] in
theorem foldl_relateTerm (seedKeys : List (Option Text)) (max : ℕ) (terms : List (Text × R)) (out : List (GraphRelated R)) :
    terms.foldl (relateTerm env seedKeys max) out =
      (visits env terms).foldl (fun out v => relateHit env seedKeys max v.1 out v.2) out := by
  induction terms generalizing out with
  | nil => rfl
  | cons term terms ih =>
    rw [List.foldl_cons, ih, relateTerm_eq, visits, visits, List.flatMap_cons, List.foldl_append, List.foldl_map]

omit [LinearOrder R] in
/-- The rows: the first of each id, up to the bound. -/
theorem foldl_relateHit (seedKeys : List (Option Text)) (max : ℕ) (vs : List (R × MemorySearchMatch)) :
    vs.foldl (fun out v => relateHit env seedKeys max v.1 out v.2) [] =
      (firsts (fun row => row.id) (candidateRows env seedKeys vs)).take max := by
  induction vs using List.reverseRecOn with
  | nil => exact List.take_nil.symm
  | append_singleton vs v ih =>
    rw [List.foldl_append, ih, List.foldl_cons, List.foldl_nil, relateHit]
    by_cases hseed : isSeed seedKeys v.2 = true
    · have hrows : candidateRows env seedKeys (vs ++ [v]) = candidateRows env seedKeys vs := by
        rw [candidateRows, List.filter_append, List.filter_cons_of_neg (by simp [hseed]), List.filter_nil, List.append_nil]
        rfl
      rw [if_pos hseed, ite_self, hrows]
    · have hrows : candidateRows env seedKeys (vs ++ [v]) = candidateRows env seedKeys vs ++ [relatedRow env v.1 v.2] := by
        rw [candidateRows, List.filter_append, List.filter_cons_of_pos (by simp [hseed]), List.filter_nil, List.map_append]
        rfl
      have hid : (relatedRow env v.1 v.2).id = v.2.id := rfl
      rw [hrows, if_neg hseed, firsts_concat, hid]
      generalize candidateRows env seedKeys vs = rows
      by_cases hroom : ((firsts (fun row : GraphRelated R => row.id) rows).take max).length < max
      · have hall : (firsts (fun row : GraphRelated R => row.id) rows).length < max := by
          rw [List.length_take] at hroom
          omega
        rw [if_pos hroom, List.take_of_length_le hall.le]
        by_cases hdup : v.2.id ∈ rows.map fun row => row.id
        · rw [if_pos (mem_keys_firsts.2 hdup), if_pos hdup, List.take_of_length_le hall.le]
        · rw [if_neg (fun hmem => hdup (mem_keys_firsts.1 hmem)), if_neg hdup,
            List.take_of_length_le (by rw [List.length_append]; exact hall)]
      · have hfull : max ≤ (firsts (fun row : GraphRelated R => row.id) rows).length := by
          rw [List.length_take] at hroom
          omega
        rw [if_neg hroom]
        by_cases hdup : v.2.id ∈ rows.map fun row => row.id
        · rw [if_pos hdup]
        · rw [if_neg hdup, List.take_append_of_le_length hfull]

/-! ## The two hops -/

section

variable [IntCast R]

/-- The words of the seeds that are looked at. -/
def seedTokens (seedKeys : List (Option Text)) : List Text :=
  (seedKeys.take 16).flatMap fun seed => (seed.map keyTokens).getD []

variable (R env) in
/-- What the words of the seeds are discussed with. -/
def discussedOffers (seedKeys : List (Option Text)) : List (Text × R) :=
  (seedTokens seedKeys).flatMap fun token =>
    offersOf (fun w => (w : R)) (env.neighborsFiltered token (text "co_discussed") none true 20 20)

variable (R env) in
/-- The weights of the edges at the nodes, each with a value. -/
def neighborOffers (value : ℤ → R) (nodes : List Text) : List (Text × R) :=
  nodes.flatMap fun node => offersOf value (env.neighbors node 64 50)

theorem relatedHop1_eq (hfits : env.Fits) (seedKeys : List (Option Text)) :
    (relatedHop1 env seedKeys : List (Text × R)) = offers env.maxBoostEntries (discussedOffers R env seedKeys) := by
  have hwords : ∀ (seeds : List (Option Text)) (map : List (Text × R)),
      seeds.foldl (fun map seed =>
        match seed with
        | none => map
        | some key => (keyTokens key).foldl (fun map token =>
            addNeighbors env (fun w => (w : R)) map (env.neighborsFiltered token (text "co_discussed") none true 20 20)) map) map =
      (seeds.flatMap fun seed => (seed.map keyTokens).getD []).foldl (fun map token =>
        addNeighbors env (fun w => (w : R)) map (env.neighborsFiltered token (text "co_discussed") none true 20 20)) map := by
    intro seeds
    induction seeds with
    | nil => exact fun map => rfl
    | cons seed seeds ih =>
      intro map
      rw [List.foldl_cons, ih, List.flatMap_cons, List.foldl_append]
      cases seed with
      | none => rfl
      | some key => rfl
  rw [relatedHop1, hwords]
  exact foldl_addNeighbors (fun token => hfits.filtered token _ _ _ _ _) [] _

variable [Mul R] [OfScientific R]

variable (R env) in
/-- What the nodes are edited with or depend on, at a half. -/
def bridgedOffers (nodes : List Text) : List (Text × R) :=
  nodes.flatMap fun node =>
    if node = [] then []
    else offersOf (fun w => (w : R) * 0.5) (env.neighborsFiltered node (text "co_edited") (some (text "depends_on")) true 15 15)

variable (R env) in
/-- The offers of both hops, the second from the first twelve nodes of the first. -/
def relatedOffers (seedKeys : List (Option Text)) : List (Text × R) :=
  discussedOffers R env seedKeys ++ bridgedOffers R env ((firstNodes env (discussedOffers R env seedKeys)).take 12)

theorem relatedHop2_eq (hfits : env.Fits) (os : List (Text × R)) :
    relatedHop2 env (offers env.maxBoostEntries os) =
      offers env.maxBoostEntries (os ++ bridgedOffers R env ((firstNodes env os).take 12)) := by
  have hskip : relatedHop2 env (offers env.maxBoostEntries os) =
      ((firstNodes env os).take 12).foldl (fun acc node => addNeighbors env (fun w => (w : R) * 0.5) acc
        (if node = [] then [] else
          env.neighborsFiltered node (text "co_edited") (some (text "depends_on")) true 15 15)) (offers env.maxBoostEntries os) := by
    rw [firstNodes, ← keys_offers, ← List.map_take, List.foldl_map, relatedHop2]
    congr 1
    funext acc e
    split_ifs
    · rfl
    · rfl
  rw [hskip, foldl_addNeighbors, bridgedOffers]
  · congr 3
    funext node
    split_ifs
    · rfl
    · rfl
  · intro node n hn
    split_ifs at hn
    · cases hn
    · exact hfits.filtered _ _ _ _ _ _ n hn

/-- **The related memories**: of the terms that both hops bring in, each at its best offer, the matches that are no
seeds, the first row of each id. -/
theorem memoryGraphRelated_eq (hfits : env.Fits) (seedKeys : List (Option Text)) (max : ℤ) (hseeds : seedKeys ≠ []) :
    ∃ terms : List (Text × R),
      terms.map Prod.fst = firstNodes env (relatedOffers R env seedKeys) ∧
        (∀ term ∈ terms, IsGreatest (offered (relatedOffers R env seedKeys) term.1) term.2) ∧
        memoryGraphRelated env seedKeys max =
          (firsts (fun row => row.id) (candidateRows env seedKeys (visits env terms))).take max.toNat := by
  refine ⟨offers env.maxBoostEntries (relatedOffers R env seedKeys), keys_offers _ _, isGreatest_offers _ _, ?_⟩
  have hterms : relatedHop2 env (relatedHop1 env seedKeys) = offers env.maxBoostEntries (relatedOffers R env seedKeys) := by
    rw [relatedHop1_eq hfits, relatedHop2_eq hfits, relatedOffers]
  rw [memoryGraphRelated]
  by_cases hmax : max ≤ 0
  · rw [if_pos (.inr hmax), Int.toNat_of_nonpos hmax, List.take_zero]
  · rw [if_neg (by rw [not_or, List.length_eq_zero_iff]; exact ⟨hseeds, hmax⟩)]
    dsimp only
    rw [hterms]
    generalize offers env.maxBoostEntries (relatedOffers R env seedKeys) = terms
    split_ifs with hnone
    · rw [List.length_eq_zero_iff.1 hnone]
      exact List.take_nil.symm
    · rw [foldl_relateTerm, foldl_relateHit]

/-! ## A deployment -/

/-- A db2 in which `deploy` is discussed with a server, which is edited with its configuration. -/
def deployQueries : EdgeQueries where
  neighbors term _ _ := if term = text "deploy" then [⟨text "server", 3⟩] else [⟨text "config", 4⟩]
  neighborsFiltered term _ _ _ _ _ := if term = text "deploy" then [⟨text "server", 3⟩] else [⟨text "config", 4⟩]
  searchByPattern pattern _ := if pattern = text "%server%" then [⟨1, text "deploy-steps", []⟩, ⟨2, text "ports", []⟩] else [⟨2, text "ports", []⟩]
  maxBoostEntries := 8
  entitySize := 128
  keySize := 256
  contentSize := 2048

theorem fits_deployQueries : deployQueries.Fits := by
  have hfits : ∀ term : Text, ∀ n ∈ (if term = text "deploy" then [⟨text "server", 3⟩] else [⟨text "config", 4⟩] : List EntityNeighbor),
      n.node.length < 128 := by
    intro term n hn
    split_ifs at hn
    · rw [List.mem_singleton.1 hn]
      decide
    · rw [List.mem_singleton.1 hn]
      decide
  exact ⟨fun term _ _ => hfits term, fun term _ _ _ _ _ => hfits term⟩

theorem memoryGraphRelated_deploy :
    ∃ terms : List (Text × ℚ),
      terms.map Prod.fst = firstNodes deployQueries (relatedOffers ℚ deployQueries [some (text "deploy")]) ∧
        (∀ term ∈ terms, IsGreatest (offered (relatedOffers ℚ deployQueries [some (text "deploy")]) term.1) term.2) ∧
        memoryGraphRelated deployQueries [some (text "deploy")] 5 =
          (firsts (fun row => row.id) (candidateRows deployQueries [some (text "deploy")] (visits deployQueries terms))).take 5 :=
  memoryGraphRelated_eq fits_deployQueries _ 5 (List.cons_ne_nil _ _)

end

/-! ## The boosts -/

section

variable [IntCast R] [Div R] [OfScientific R]

variable (R env) in
/-- The offers of both hops from the query terms, the second from the first fifty nodes of the first. -/
def boostOffers (queryTerms : List Text) : List (Text × R) :=
  let hop0 := neighborOffers R env (fun w => (w : R)) queryTerms
  hop0 ++ neighborOffers R env (fun w => (w : R) / 2.0) ((firstNodes env hop0).take 50)

theorem graphBoost_eq (hfits : env.Fits) (queryTerms : List Text) {depth : ℤ} (hdepth : 2 ≤ depth) :
    (graphBoost env queryTerms depth : List (Text × R)) = offers env.maxBoostEntries (boostOffers R env queryTerms) := by
  have hhop0 : queryTerms.foldl (fun map term => addNeighbors env (fun w => (w : R)) map (env.neighbors term 64 50)) [] =
      offers env.maxBoostEntries (neighborOffers R env (fun w => (w : R)) queryTerms) :=
    foldl_addNeighbors (fun term => hfits.neighbors term _ _) [] _
  rw [graphBoost, boostOffers, hhop0]
  generalize neighborOffers R env (fun w => (w : R)) queryTerms = os
  have hhop1 : ∀ es : List (Text × R),
      es.foldl (fun map e => addNeighbors env (fun w => (w : R) / 2.0) map (env.neighbors e.1 64 50)) (offers env.maxBoostEntries os) =
        offers env.maxBoostEntries (os ++ neighborOffers R env (fun w => (w : R) / 2.0) (es.map Prod.fst)) := by
    intro es
    rw [neighborOffers, List.flatMap_map]
    exact foldl_addNeighbors (fun e : Text × R => hfits.neighbors e.1 _ _) os es
  have hnodes : (firstNodes env os).take 50 = ((offers env.maxBoostEntries os).take 50).map Prod.fst := by
    rw [firstNodes, ← keys_offers, ← List.map_take]
  by_cases hsome : 0 < (offers env.maxBoostEntries os).length
  · rw [if_pos ⟨hdepth, hsome⟩, hhop1, hnodes]
  · rw [if_neg (fun h => hsome h.2), hnodes, List.length_eq_zero_iff.1 (Nat.eq_zero_of_not_pos hsome), List.take_nil,
      List.map_nil, neighborOffers, List.flatMap_nil, List.append_nil]
    exact (List.length_eq_zero_iff.1 (Nat.eq_zero_of_not_pos hsome)).symm

/-- **The boosts**: the first nodes that both hops bring in, each at the best of its offers. A greater depth is the same. -/
theorem memoryGraphBoost_best (hfits : env.Fits) (queryTerms : List Text) :
    (memoryGraphBoost env queryTerms : List (Text × R)).map Prod.fst = firstNodes env (boostOffers R env queryTerms) ∧
      (∀ e ∈ memoryGraphBoost env queryTerms, IsGreatest (offered (boostOffers R env queryTerms) e.1) e.2) ∧
      ∀ depth, 2 ≤ depth → (graphBoost env queryTerms depth : List (Text × R)) = memoryGraphBoost env queryTerms := by
  rw [memoryGraphBoost, graphBoost_eq hfits queryTerms (by omega : (2 : ℤ) ≤ 4)]
  exact ⟨keys_offers _ _, isGreatest_offers _ _, fun depth hdepth => graphBoost_eq hfits queryTerms hdepth⟩

theorem memoryGraphBoost_deploy :
    (memoryGraphBoost deployQueries [text "deploy"] : List (Text × ℚ)).map Prod.fst =
        firstNodes deployQueries (boostOffers ℚ deployQueries [text "deploy"]) ∧
      (∀ e ∈ memoryGraphBoost deployQueries [text "deploy"],
        IsGreatest (offered (boostOffers ℚ deployQueries [text "deploy"]) e.1) e.2) ∧
      ∀ depth, 2 ≤ depth →
        (graphBoost deployQueries [text "deploy"] depth : List (Text × ℚ)) = memoryGraphBoost deployQueries [text "deploy"] :=
  memoryGraphBoost_best fits_deployQueries _

end

end AimeeMemory.Graph
