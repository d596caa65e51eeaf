import AimeeMemory.Recall.Visible

/-!
# The order of the lexical fallback

`memory_find_facts_visible_lexical_fallback` sorts the rows it keeps by their scope rank, and
trades entries for it, where the main path passes each entry down from the right.

## What is proved

* **`lexicalFallback_ordered`**: the rows are visible, have different ids and come in
  descending order of their rank; and those of one rank keep the order in which they were
  found where no row was found behind two rows of one lower rank.
* **`lexicalFallback_reorders`**: else they need not.

## Honest scope

`memory_scope_visibility_rank`, which ranks the rows where no scope context is active, is a
parameter.
-/

namespace AimeeMemory.Recall

open AimeeMemory.Core AimeeMemory.Lib

/-- How the fallback ranks a row, and whether it shows the rows that have no rank. -/
structure ScopeRanks where
  rank : ℤ → ℤ
  showsAll : Bool

/-- The ranks of the scope context, or else those of the workspace and the project asked for. -/
def scopeRanks (env : Env) (visibilityRank : Option Text → Option Text → ℤ → ℤ) (ctx : Option ScopeContext)
    (workspace project : Option Text) : ScopeRanks :=
  match ctx with
  | some ctx => ⟨env.scopeContextRank ctx, ctx.includeAll⟩
  | none => ⟨visibilityRank workspace project, false⟩

def ScopeRanks.shows (s : ScopeRanks) (m : Memory) : Bool := 0 < s.rank m.id || s.showsAll

variable (env : Env) (s : ScopeRanks)

/-- The rows in the order in which the fallback finds them. -/
def fallbackFound (query : Text) (limit : ℤ) : Option (List Memory) :=
  (visibleLexicalLane env limit [] query).bind fun out =>
    (env.splitTokens (env.normalizeKey query)).foldlM (fun out token =>
      if out.length < 64 ∧ env.isSignalToken token then visibleLexicalLane env limit out token else some out) out

/-- `memory_find_facts_visible_lexical_fallback`. -/
def lexicalFallback (query : Text) (limit max : ℤ) : Option (List Memory) :=
  if query = [] ∨ max ≤ 0 then some []
  else
    let limit := effectiveLimit limit max
    (fallbackFound env query limit).map fun found =>
      (selectionSort (fun m => s.rank m.id) (found.filter s.shows)).take limit.toNat

/-- The fallback of a visible recall, whose scope context is active. -/
theorem memoryFindFactsVisibleLexicalFallback_eq (ctx : ScopeContext)
    (visibilityRank : Option Text → Option Text → ℤ → ℤ) (query : Text) (limit max : ℤ) :
    memoryFindFactsVisibleLexicalFallback env ctx query limit max =
      lexicalFallback env (scopeRanks env visibilityRank (some ctx) none none) query limit max := rfl

/-- No row is found behind two shown rows of one rank lower than its own. -/
def NoOvertakenTie (found : List Memory) : Prop := NoLowerTie (fun m : Memory => s.rank m.id) (found.filter s.shows)

/-- What holds of the rows of every fallback. -/
structure FallbackOrdered (rows : List Memory) : Prop where
  shown : ∀ m ∈ rows, s.shows m
  distinct : (rows.map Memory.id).Nodup
  descending : rows.Pairwise fun a b => s.rank b.id ≤ s.rank a.id

/-- The rows of one rank are in the order in which they were found. -/
def KeepsFoundOrder (found rows : List Memory) : Prop :=
  ∀ r, (rows.filter fun m => s.rank m.id = r).Sublist found

variable {env s} {found rows : List Memory} {query : Text} {limit max : ℤ}

theorem pool_visibleLexicalLane {out : List Memory} {term : Text} (h : Pool 64 out)
    (hrows : visibleLexicalLane env limit out term = some rows) : Pool 64 rows :=
  pool_of_map_collect h hrows

theorem fallbackFound_pool (h : fallbackFound env query limit = some found) : Pool 64 found := by
  obtain ⟨out, hout, hrest⟩ := Option.bind_eq_some_iff.1 h
  refine foldlM_keeps (fun out token out' hkeep hstep => ?_) _ (pool_visibleLexicalLane .nil hout) hrest
  by_cases hroom : out.length < 64 ∧ env.isSignalToken token = true
  · rw [if_pos hroom] at hstep
    exact pool_visibleLexicalLane hkeep hstep
  · rw [if_neg hroom] at hstep
    exact Option.some.inj hstep ▸ hkeep

theorem sorted_ordered (h : Pool 64 found) (n : ℕ) :
    FallbackOrdered s ((selectionSort (fun m => s.rank m.id) (found.filter s.shows)).take n) := by
  have hperm := selectionSort_perm (fun m : Memory => s.rank m.id) (found.filter s.shows)
  refine ⟨fun m hm => ?_, ?_, ?_⟩
  · exact (List.mem_filter.1 (hperm.mem_iff.1 (List.mem_of_mem_take hm))).2
  · refine List.Nodup.sublist ((List.take_sublist n _).map _) ((hperm.map _).nodup_iff.2 ?_)
    exact h.distinct.sublist (List.filter_sublist.map _)
  · exact (selectionSort_sorted _ _).sublist (List.take_sublist n _)

theorem sorted_keepsFoundOrder (h : NoOvertakenTie s found) (n : ℕ) :
    KeepsFoundOrder s found ((selectionSort (fun m => s.rank m.id) (found.filter s.shows)).take n) := by
  intro r
  have hstable := selectionSort_stable h r
  calc (((selectionSort (fun m : Memory => s.rank m.id) (found.filter s.shows)).take n).filter fun m => s.rank m.id = r)
      |>.Sublist ((selectionSort (fun m : Memory => s.rank m.id) (found.filter s.shows)).filter fun m => s.rank m.id = r) :=
        (List.take_sublist n _).filter _
    _ = (found.filter s.shows).filter fun m => s.rank m.id = r := hstable
    _ |>.Sublist found := List.filter_sublist.trans List.filter_sublist

/-- **The fallback returns shown rows with different ids, the highest ranks first, and keeps the order of the
rows of one rank** where no row is found behind two of one lower rank. -/
theorem lexicalFallback_ordered (hquery : query ≠ []) (hmax : 0 < max)
    (hrows : lexicalFallback env s query limit max = some rows) :
    ∃ found, fallbackFound env query (effectiveLimit limit max) = some found ∧ FallbackOrdered s rows ∧
      (NoOvertakenTie s found → KeepsFoundOrder s found rows) := by
  rw [lexicalFallback, if_neg (by simpa using ⟨hquery, hmax⟩)] at hrows
  obtain ⟨found, hfound, rfl⟩ := Option.map_eq_some_iff.1 hrows
  exact ⟨found, hfound, sorted_ordered (fallbackFound_pool hfound) _, fun h => sorted_keepsFoundOrder h _⟩

/-! ### Three rows -/

/-- Three rows that speak of a port. -/
def portRows : List Memory :=
  [{ id := 1, key := text "a", content := text "port 80" }, { id := 2, key := text "b", content := text "port 443" },
    { id := 3, key := text "c", content := text "port 22" }]

/-- One row has a rank of its own. -/
def ranksAbove (id : ℤ) : ScopeRanks := ⟨fun i => if i = id then 2 else 1, false⟩

theorem fallbackFound_portRows : fallbackFound (bareEnv portRows) (text "port") 5 = some portRows := by decide +kernel

/-- The last row outranks the others, of which the first then comes last. -/
theorem lexicalFallback_reorders :
    lexicalFallback (bareEnv portRows) (ranksAbove 3) (text "port") 5 5 = some portRows.reverse ∧
      ¬ KeepsFoundOrder (ranksAbove 3) portRows portRows.reverse := by
  refine ⟨by decide +kernel, fun hkeeps => ?_⟩
  have hfilter : (portRows.reverse.filter fun m => (ranksAbove 3).rank m.id = 1).map Memory.id = [2, 1] := by decide +kernel
  have hsub := (hkeeps 1).map Memory.id
  rw [hfilter] at hsub
  exact absurd hsub (by decide)

/-- The second row outranks the others, which keep their order. -/
theorem lexicalFallback_ordered_portRows :
    ∃ found rows, lexicalFallback (bareEnv portRows) (ranksAbove 2) (text "port") 5 5 = some rows ∧
      KeepsFoundOrder (ranksAbove 2) found rows := by
  have hrows : (lexicalFallback (bareEnv portRows) (ranksAbove 2) (text "port") 5 5).isSome := by decide +kernel
  obtain ⟨rows, hrows⟩ := Option.isSome_iff_exists.1 hrows
  obtain ⟨found, hfound, -, hkeeps⟩ := lexicalFallback_ordered (by decide) (by decide) hrows
  obtain rfl := Option.some.inj (fallbackFound_portRows.symm.trans hfound)
  have hties : NoOvertakenTie (ranksAbove 2) portRows := by
    unfold NoOvertakenTie
    decide +kernel
  exact ⟨portRows, rows, hrows, hkeeps hties⟩

end AimeeMemory.Recall
