import AimeeMemory.Graph.RelatedMemories
import AimeeMemory.Lib.Sorting

/-!
# The search in conversation windows

`memory_search` of `memory_core_search.c`: windows that match the terms are scored, the best of them are taken, and
with a boost from the graph they are sorted again. The windows and what is answered for them are two arrays, whose
elements trade places together.

## What is proved

* **`memorySearch_top`**: what is answered are the best windows by the score before the boost, each with its own files
  and the score of its own hits and neighbours, in the order of the last scores. What the boost might have brought in
  from further down is not there.

## Honest scope

The database is a parameter. Scores are of any linear order with the operations of the doubles, so there is no NaN. The
number of results that the caller has room for is not negative.
-/

namespace AimeeMemory.Recall

open AimeeMemory.Core AimeeMemory.Lib
open AimeeMemory.Context (lowered)
open AimeeMemory.Graph (EntityNeighbor)

/-- `db1_window_search_candidate_t`. -/
structure WindowCandidate where
  windowId : ℤ
  sessionId : Text
  seq : ℤ
  summary : Text
  createdAt : Text
  matchCount : ℤ
  deriving DecidableEq

/-- `db1_window_lexical_hit_t`. -/
structure WindowHit (R : Type*) where
  windowId : ℤ
  rank : R

/-- `candidate_t`. -/
structure ScoredWindow (R : Type*) extends WindowCandidate where
  score : R

/-- `search_result_t`. -/
structure SearchResult (R : Type*) where
  sessionId : Text
  seq : ℤ
  summary : Text
  score : R
  files : List Text
  startLine : ℤ
  endLine : ℤ
  filePath : Text

/-- What the search uses: the two databases, the tokenizer, the clock, and the sizes of `search_result_t`. -/
structure WindowEnv (R : Type*) where
  scopeActive : Bool
  scopeIncludeAll : Bool
  windowsLinked : Bool
  tokenizeForSearch : Text → ℕ → List Text
  stopwords : List Text
  findCandidatesByTerms : List Text → ℕ → List WindowCandidate
  findLexicalHits : List Text → ℕ → List (WindowHit R)
  listFiles : ℤ → ℕ → List Text
  outboundNeighbors : Text → ℕ → ℕ → List EntityNeighbor
  timeDecay : Text → R
  sessionSize : ℕ
  summarySize : ℕ

variable {R : Type*} (env : WindowEnv R)

/-! ## The terms -/

/-- The terms of the clusters that are no stopwords, or nothing where there is no search. -/
def searchTerms (clusters : List Text) : Option (List Text) :=
  if clusters = [] ∨ env.scopeActive ∧ !env.scopeIncludeAll then none
  else
    let allTerms := (clusters.flatMap fun cluster => env.tokenizeForSearch cluster 64).take 256
    let filtered := allTerms.filter fun term => !(env.stopwords.take 256).any fun stop => lowered term = lowered stop
    if filtered = [] ∨ !env.windowsLinked then none else some filtered

/-! ## The scores -/

/-- What a window keeps of a row. -/
def windowOf (row : WindowCandidate) : WindowCandidate :=
  { row with sessionId := row.sessionId.take 127, summary := row.summary.take 1023, createdAt := row.createdAt.take 31 }

section

variable [Add R] [Sub R] [Mul R] [Div R] [IntCast R] [OfScientific R] [LinearOrder R]

/-- The part of the terms that match, and the age. -/
def matchScore (terms : List Text) (c : WindowCandidate) : R :=
  (c.matchCount : R) / ((terms.length : ℤ) : R) * 2.0 * env.timeDecay c.createdAt

/-- The rank is negative, the lower the better. -/
def lexicalScore (rank : R) : R :=
  let denom := 1.0 - rank
  1.0 / if denom < 0.001 then 0.001 else denom

/-- A hit goes to the first window with its id. -/
def addHit (hit : WindowHit R) : List (ScoredWindow R) → List (ScoredWindow R)
  | [] => []
  | c :: cs =>
    if c.windowId = hit.windowId then { c with score := c.score + lexicalScore hit.rank } :: cs else c :: addHit hit cs

/-- A tenth of the weight of each neighbour of a term that the summary names. -/
def graphBoost (terms : List Text) (summary : Text) : R :=
  terms.foldl (fun boost term =>
    (env.outboundNeighbors term 50 50).foldl (fun boost n =>
      if (strstr summary n.node).isSome then boost + 0.1 * (n.weight : R) else boost) boost) 0.0

/-- What is answered for a window. -/
def searchResult (c : ScoredWindow R) (files : List Text) : SearchResult R where
  sessionId := c.sessionId.take (env.sessionSize - 1)
  seq := c.seq
  summary := c.summary.take (env.summarySize - 1)
  score := c.score
  files := files
  startLine := 0
  endLine := 0
  filePath := []

/-- `memory_search_impl`. -/
def memorySearch (clusters : List Text) (limit max : ℤ) : List (SearchResult R) :=
  match searchTerms env clusters with
  | none => []
  | some terms =>
    let limit := if limit ≤ 0 then 20 else limit
    let limit := if max < limit then max else limit
    let candidates := (env.findCandidatesByTerms terms 200).map fun row =>
      { windowOf row with score := matchScore env terms (windowOf row) }
    let candidates := (env.findLexicalHits terms 200).foldl (fun cs hit => addHit hit cs) candidates
    let candidates := exchangeSort (fun c => OrderDual.toDual c.score) candidates
    let taken := candidates.take limit.toNat
    let boosted := taken.map fun c =>
      ({ c with score := c.score + graphBoost env terms c.summary }, env.listFiles c.windowId 32)
    (exchangeSort (fun p => OrderDual.toDual p.1.score) boosted).map fun p => searchResult env p.1 p.2

/-! ## What a window is worth -/

/-- The score of a window before the boost: its matches, and the hits with its id. -/
def windowScore (terms : List Text) (c : WindowCandidate) : R :=
  (env.findLexicalHits terms 200).foldl (fun score hit =>
    if c.windowId = hit.windowId then score + lexicalScore hit.rank else score) (matchScore env terms c)

/-- The result that a window gets, whatever stands beside it. -/
def windowResult (terms : List Text) (c : WindowCandidate) : SearchResult R :=
  searchResult env { c with score := windowScore env terms c + graphBoost env terms c.summary } (env.listFiles c.windowId 32)

/-- Where a search answers how many. -/
def searchLimit (limit max : ℤ) : ℕ := (min (if limit ≤ 0 then 20 else limit) max).toNat

variable {env} {terms : List Text} {cs : List (ScoredWindow R)}

omit [Mul R] [IntCast R] in
/-- Of windows with different ids, a hit changes the one with its own. -/
theorem addHit_eq (hit : WindowHit R) (h : (cs.map fun c => c.windowId).Nodup) :
    addHit hit cs = cs.map fun c => if c.windowId = hit.windowId then { c with score := c.score + lexicalScore hit.rank } else c := by
  induction cs with
  | nil => rfl
  | cons c cs ih =>
    obtain ⟨hnew, hnodup⟩ := List.nodup_cons.1 h
    rw [addHit, List.map_cons]
    by_cases hid : c.windowId = hit.windowId
    · rw [if_pos hid, if_pos hid]
      congr 1
      refine (List.map_id cs).symm.trans (List.map_congr_left fun d hd => ?_)
      have hne : d.windowId ≠ hit.windowId := fun heq => hnew (List.mem_map.2 ⟨d, hd, heq.trans hid.symm⟩)
      rw [if_neg hne]
      rfl
    · rw [if_neg hid, if_neg hid, ih hnodup]

omit [Mul R] [IntCast R] in
/-- All hits together. -/
theorem foldl_addHit (rows : List WindowCandidate) (h : (rows.map WindowCandidate.windowId).Nodup) (score : WindowCandidate → R)
    (hits : List (WindowHit R)) :
    hits.foldl (fun cs hit => addHit hit cs) (rows.map fun c => ({ c with score := score c } : ScoredWindow R)) =
      rows.map fun c => { c with score := hits.foldl (fun score hit =>
        if c.windowId = hit.windowId then score + lexicalScore hit.rank else score) (score c) } := by
  induction hits generalizing score with
  | nil => rfl
  | cons hit hits ih =>
    have hone : addHit hit (rows.map fun c => ({ c with score := score c } : ScoredWindow R)) =
        rows.map fun c => { c with score := if c.windowId = hit.windowId then score c + lexicalScore hit.rank else score c } := by
      rw [addHit_eq, List.map_map]
      · refine List.map_congr_left fun c _ => ?_
        rw [Function.comp_apply]
        split_ifs
        · rfl
        · rfl
      · rwa [List.map_map]
    rw [List.foldl_cons, hone, ih]
    rfl

/-- The windows that are looked at. -/
def searchRows (env : WindowEnv R) (terms : List Text) : List WindowCandidate :=
  (env.findCandidatesByTerms terms 200).map windowOf

/-- A window with its score. -/
def scored (env : WindowEnv R) (terms : List Text) (c : WindowCandidate) : ScoredWindow R :=
  { c with score := windowScore env terms c }

/-- The windows in the order of their scores before the boost. -/
def ranked (env : WindowEnv R) (terms : List Text) : List (ScoredWindow R) :=
  exchangeSort (fun c => OrderDual.toDual c.score) ((searchRows env terms).map (scored env terms))

theorem memorySearch_eq {clusters : List Text} (hterms : searchTerms env clusters = some terms)
    (hids : ((searchRows env terms).map WindowCandidate.windowId).Nodup) (limit max : ℤ) :
    memorySearch env clusters limit max =
      (exchangeSort (fun p => OrderDual.toDual p.1.score) (((ranked env terms).take (searchLimit limit max)).map fun c =>
        (({ c with score := c.score + graphBoost env terms c.summary } : ScoredWindow R), env.listFiles c.windowId 32))).map
          fun p => searchResult env p.1 p.2 := by
  have hlimit : ∀ l : ℤ, (if max < l then max else l) = min l max := by
    intro l
    split_ifs with h
    · exact (min_eq_right h.le).symm
    · exact (min_eq_left (not_lt.1 h)).symm
  have hrows : ((env.findCandidatesByTerms terms 200).map fun row =>
      ({ windowOf row with score := matchScore env terms (windowOf row) } : ScoredWindow R)) =
        (searchRows env terms).map fun c => { c with score := matchScore env terms c } := by
    rw [searchRows, List.map_map]
    rfl
  rw [memorySearch, hterms]
  dsimp only
  rw [hlimit, ← searchLimit, hrows, foldl_addHit _ hids]
  rfl

/-- A window in the order has its own score. -/
theorem score_ranked {c : ScoredWindow R} (hc : c ∈ ranked env terms) : c.score = windowScore env terms c.toWindowCandidate := by
  obtain ⟨d, -, rfl⟩ := List.mem_map.1 ((exchangeSort_perm _ _).mem_iff.1 hc)
  rfl

/-- **The search**: the best windows before the boost, each with its own files and score, in the order of the last scores. -/
theorem memorySearch_top {clusters : List Text} (hterms : searchTerms env clusters = some terms)
    (hids : ((searchRows env terms).map WindowCandidate.windowId).Nodup) (limit max : ℤ) :
    ∃ kept rest, (searchRows env terms).Perm (kept ++ rest) ∧
      kept.length = min (searchLimit limit max) (searchRows env terms).length ∧
      (∀ k ∈ kept, ∀ r ∈ rest, windowScore env terms r ≤ windowScore env terms k) ∧
      (memorySearch env clusters limit max).Perm (kept.map (windowResult env terms)) ∧
      (memorySearch env clusters limit max).Pairwise fun a b => b.score ≤ a.score := by
  have hperm : ((ranked env terms).map ScoredWindow.toWindowCandidate).Perm (searchRows env terms) := by
    refine ((exchangeSort_perm _ _).map _).trans (.of_eq ?_)
    rw [List.map_map]
    exact List.map_id _
  have hlength : (ranked env terms).length = (searchRows env terms).length := by
    rw [← hperm.length_eq, List.length_map]
  have hsorted : (ranked env terms).Pairwise fun a b => b.score ≤ a.score :=
    exchangeSort_sorted (fun c : ScoredWindow R => OrderDual.toDual c.score) _
  rw [memorySearch_eq hterms hids]
  generalize searchLimit limit max = n
  refine ⟨((ranked env terms).take n).map ScoredWindow.toWindowCandidate, ((ranked env terms).drop n).map ScoredWindow.toWindowCandidate,
    ?_, ?_, ?_, ?_, ?_⟩
  · rw [← List.map_append, List.take_append_drop]
    exact hperm.symm
  · rw [List.length_map, List.length_take, hlength]
  · rw [← List.take_append_drop n (ranked env terms), List.pairwise_append] at hsorted
    rintro _ hk _ hr
    obtain ⟨k, hkept, rfl⟩ := List.mem_map.1 hk
    obtain ⟨r, hrest, rfl⟩ := List.mem_map.1 hr
    rw [← score_ranked (List.mem_of_mem_take hkept), ← score_ranked (List.mem_of_mem_drop hrest)]
    exact hsorted.2.2 k hkept r hrest
  · refine ((exchangeSort_perm _ _).map _).trans (.of_eq ?_)
    rw [List.map_map, List.map_map]
    refine List.map_congr_left fun c hc => ?_
    rw [Function.comp_apply, Function.comp_apply, windowResult, score_ranked (List.mem_of_mem_take hc)]
  · rw [List.pairwise_map]
    exact exchangeSort_sorted (fun p : ScoredWindow R × List Text => OrderDual.toDual p.1.score) _

end

/-! ## Two windows -/

/-- Two windows that match alike, of which the second is also a lexical hit. -/
def twoWindows : WindowEnv ℚ where
  scopeActive := false
  scopeIncludeAll := false
  windowsLinked := true
  tokenizeForSearch t n := ((t.splitOn 32).filter (· ≠ [])).take n
  stopwords := [text "the"]
  findCandidatesByTerms _ _ :=
    [⟨1, text "a", 0, text "ports of the server", text "2025-03-01", 1⟩, ⟨2, text "b", 4, text "the port", text "2025-03-02", 1⟩]
  findLexicalHits _ _ := [⟨2, -1⟩]
  listFiles id _ := if id = 1 then [text "server.c"] else [text "port.c"]
  outboundNeighbors _ _ _ := [⟨text "server", 3⟩]
  timeDecay _ := 1
  sessionSize := 128
  summarySize := 1024

theorem memorySearch_twoWindows :
    ∃ kept rest, (searchRows twoWindows [text "port"]).Perm (kept ++ rest) ∧
      kept.length = min (searchLimit 0 1) (searchRows twoWindows [text "port"]).length ∧
      (∀ k ∈ kept, ∀ r ∈ rest, windowScore twoWindows [text "port"] r ≤ windowScore twoWindows [text "port"] k) ∧
      (memorySearch twoWindows [text "the port"] 0 1).Perm (kept.map (windowResult twoWindows [text "port"])) ∧
      (memorySearch twoWindows [text "the port"] 0 1).Pairwise fun a b => b.score ≤ a.score :=
  memorySearch_top (by decide +kernel) (by decide) 0 1

end AimeeMemory.Recall
