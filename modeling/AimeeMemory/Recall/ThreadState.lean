import AimeeMemory.Lib.Trace
import AimeeMemory.Recall.Scoped
import AimeeMemory.Recall.Visible

/-!
# What a recall leaves in its thread

`memory_find_facts_scoped` and `memory_find_facts_visible_ex` work through state of their
thread: the scope context, the scope hint of the vector index and the staged expansions of
the graph fusion. Here they are with that state passed along, and with every exit, the
failed allocations among them.

## What is proved

* **`recall_scoped_rows`**, **`recall_visible_rows`**: where no allocation fails they return
  what `memoryFindFactsScoped` and `memoryFindFactsVisibleEx` return.
* **`recalls_leave_thread`**: in any run of a thread, every recall leaves the scope context as
  it was, and the hint and the expansions cleared.

## Honest scope

The three pieces are written nowhere else in the module, so the passes between the exits
keep them; the lookups behind them belong to the database and the vector index. An inactive
scope context has no contents.
-/

namespace AimeeMemory.Recall

open AimeeMemory.Core AimeeMemory.Lib

/-- How the scope context of the database keeps a name: in a buffer, which a NULL leaves empty. A kept
name fits in the buffer. -/
structure ScopeBuffer where
  keep : Option Text → Text
  keep_keep : ∀ name, keep (some (keep name)) = keep name

/-- A buffer of `n` bytes. -/
def ScopeBuffer.ofSize (n : ℕ) : ScopeBuffer where
  keep name := (name.getD []).take n
  keep_keep name := by simp

instance : Inhabited ScopeBuffer := ⟨.ofSize 127⟩

/-- The thread-local state of a recall. -/
structure ThreadState where
  /-- `db2_memory_scope_context_t`, where it is active. -/
  scopeContext : Option ScopeContext := none
  /-- `pgvec_memory_vector_scope_hint_set`: the workspace and the project, until it is cleared. -/
  scopeHint : Option (Option Text × Option Text) := none
  /-- `memory_fusion_expansions_set`: the staged expansions, until they are cleared. -/
  expansions : Option (List ℤ) := none
  deriving DecidableEq, Repr

/-- Which allocations succeed. -/
structure Allocations where
  candidates : Bool := true
  extra : Bool := true
  subQuestion : ℕ → Bool := fun _ => true

namespace ThreadState

variable (buf : ScopeBuffer) (t : ThreadState)

/-- `db2_memory_scope_context_set`. -/
def contextSet (workspace project : Option Text) (includeAll : Bool) : ThreadState :=
  { t with scopeContext := some ⟨some (buf.keep workspace), some (buf.keep project), includeAll⟩ }

/-- `db2_memory_scope_context_clear`. -/
def contextClear : ThreadState := { t with scopeContext := none }

/-- The end of a recall in a scope context: the previous one is set again, or cleared. -/
def contextRestore (previous : Option ScopeContext) : ThreadState :=
  match previous with
  | some p => t.contextSet buf p.workspace p.project p.includeAll
  | none => t.contextClear

def hintSet (workspace project : Option Text) : ThreadState := { t with scopeHint := some (workspace, project) }

def hintClear : ThreadState := { t with scopeHint := none }

def expansionsSet (ids : List ℤ) : ThreadState := { t with expansions := some ids }

def expansionsClear : ThreadState := { t with expansions := none }

end ThreadState

/-! ### Scoped recall -/

section Scoped

variable (env : Env) (mem : Allocations) (query : Text) (limit : ℤ)

/-- The workspace or the project that the scope asks for, as a hint. -/
def Scope.hint (scope : Scope) (scopeType : String) : Option Text :=
  if scope.scopeType = some (text scopeType) then scope.scopeValue else none

/-- The fetch limit of a scoped recall. -/
def scopedFetchLimit : ℤ :=
  let plan := (memoryQueryPlan env query limit).getD .zero
  ((fetchBounds env plan limit).budgeted env plan (normQuery env query)).fetchLimit limit

/-- The passes for the sub-questions, from the `q`th on. Where a buffer cannot be allocated the loop
is left with what there is. -/
def subQuestionPasses (plan : Plan) (fetchLimit : ℤ) (total : ℕ) :
    ℕ → List Text → List Memory → ThreadState → Option (List Memory) × ThreadState
  | _, [], rows, t => (some rows, t)
  | q, question :: rest, rows, t =>
    if !mem.subQuestion q then (some rows, t)
    else
      let subNorm := normQuery env question
      match memoryGenerateCandidates env question subNorm (env.queryIntent question subNorm)
        ((memoryQueryPlan env question limit).getD plan) (fetchLimit.tdiv (total + 1)) (rerankBuffer / 2) with
      | none => (none, t.hintClear)
      | some found => subQuestionPasses plan fetchLimit total (q + 1) rest (memoryCandidatesMerge rows found rerankBuffer) t

/-- The first pass, and the one with the original query behind a hypothetical answer. -/
def primaryPasses (plan : Plan) (fetchLimit : ℤ) (t : ThreadState) : Option (List Memory) × ThreadState :=
  let norm := normQuery env query
  let intent := env.queryIntent query norm
  match (env.queryRewrite query).hydeAnswer with
  | none =>
    match memoryGenerateCandidates env query norm intent plan fetchLimit rerankBuffer with
    | none => (none, t.hintClear)
    | some rows => (some rows, t)
  | some answer =>
    match memoryGenerateCandidates env answer (normQuery env answer) intent plan fetchLimit rerankBuffer with
    | none => (none, t.hintClear)
    | some rows =>
      if !mem.extra then (none, t.hintClear)
      else
        match memoryGenerateCandidates env query norm intent plan
          (if 0 < fetchLimit.tdiv 2 then fetchLimit.tdiv 2 else 8) rerankBuffer with
        | none => (none, t.hintClear)
        | some extra => (some (memoryCandidatesMerge rows extra rerankBuffer), t)

/-- The expansions are staged where the fusion has seeds. -/
def stageExpansions (kept : List Memory) (t : ThreadState) : ThreadState :=
  if env.fusionOn ∧ kept ≠ [] ∧ fusionSeeds env kept ≠ [] then t.expansionsSet (fusionExpansion env query kept) else t

/-- `memory_find_facts_scoped` in its thread. -/
def recallScoped (ranking : Ranking) (scope : Scope) (max : ℤ) (t : ThreadState) : Option (List Memory) × ThreadState :=
  if query = [] then (some [], t)
  else
    match env.aggregationHint query with
    | some hint =>
      let requested := if 0 < limit then limit else 20
      -- the hint has not been set on this exit and the next
      (some (memoryAggregate env hint query (min requested (min (aggregationCap env) max)) max), t)
    | none =>
      if !env.vectorReady then (memoryFindFactsLexicalFallback env query scope limit max, t)
      else
        let limit := effectiveLimit limit max
        let t := t.hintSet (scope.hint "workspace") (scope.hint "project")
        let plan := (memoryQueryPlan env query limit).getD .zero
        let fetchLimit := scopedFetchLimit env query limit
        if !mem.candidates then (none, t.hintClear)
        else
          match primaryPasses env mem query plan fetchLimit t with
          | (none, t) => (none, t)
          | (some rows, t) =>
            let questions := (env.queryRewrite query).subQuestions
            match subQuestionPasses env mem limit plan fetchLimit questions.length 0 questions rows t with
            | (none, t) => (none, t)
            | (some rows, t) =>
              let kept := filterArchived env (memoryFilterScope env scope rows)
              let t := stageExpansions env query kept t
              let top := topRows env ranking (fuse env query kept) limit max
              (some (memoryExpandToSessionWindow env top max), t.expansionsClear.hintClear)

end Scoped

/-- `memory_find_facts_visible_ex` in its thread. -/
def recallVisible (buf : ScopeBuffer) (env : Env) (mem : Allocations) (ranking : Ranking) (query : Text)
    (workspace project : Option Text) (includeAll : Bool) (limit max : ℤ) (t : ThreadState) :
    Option (List Memory) × ThreadState :=
  if query = [] then (some [], t)
  else
    let previous := t.scopeContext
    let includeAll := (previous.map ScopeContext.includeAll).getD includeAll
    let t := t.contextSet buf workspace project includeAll
    let ctx : ScopeContext := ⟨some (buf.keep workspace), some (buf.keep project), includeAll⟩
    if !env.vectorReady then
      (memoryFindFactsVisibleLexicalFallback env ctx query limit max, t.contextRestore buf previous)
    else
      let limit := effectiveLimit limit max
      let t := t.hintSet workspace project
      let norm := normQuery env query
      let plan := (memoryQueryPlan env query limit).getD .zero
      if !mem.candidates then (none, t.hintClear.contextRestore buf previous)
      else
        match memoryGenerateCandidates env query norm (env.queryIntent query norm) plan
          ((fetchBounds env plan limit).fetchLimit limit) rerankBuffer with
        | none => (none, t.hintClear.contextRestore buf previous)
        | some rows =>
          (some (visibleTop env ctx ranking (filterVisible env ctx rows) limit max),
            t.hintClear.contextRestore buf previous)

/-! ## The rows -/

section Rows

variable {env : Env} {ranking : Ranking} {query : Text} {limit max : ℤ} {t : ThreadState}

/-- The state of the thread has no part in the rows of the sub-question passes. -/
theorem subQuestionPasses_rows (plan : Plan) (fetchLimit : ℤ) (total q : ℕ) (questions : List Text)
    (rows : List Memory) :
    (subQuestionPasses env {} limit plan fetchLimit total q questions rows t).1 =
      questions.foldlM (fun rows question =>
        let subNorm := normQuery env question
        (memoryGenerateCandidates env question subNorm (env.queryIntent question subNorm)
          ((memoryQueryPlan env question limit).getD plan) (fetchLimit.tdiv (total + 1)) (rerankBuffer / 2)).map
          fun found => memoryCandidatesMerge rows found rerankBuffer) rows := by
  induction questions generalizing q rows with
  | nil => rfl
  | cons question rest ih =>
    simp only [subQuestionPasses, List.foldlM_cons]
    cases memoryGenerateCandidates env question (normQuery env question)
      (env.queryIntent question (normQuery env question)) ((memoryQueryPlan env question limit).getD plan)
      (fetchLimit.tdiv (total + 1)) (rerankBuffer / 2) with
    | none => rfl
    | some found => exact ih (q + 1) _

/-- Nor in those of the first passes. -/
theorem primaryPasses_rows (plan : Plan) (fetchLimit : ℤ) :
    (primaryPasses env {} query plan fetchLimit t).1 =
      let norm := normQuery env query
      let intent := env.queryIntent query norm
      match (env.queryRewrite query).hydeAnswer with
      | none => memoryGenerateCandidates env query norm intent plan fetchLimit rerankBuffer
      | some answer =>
        (memoryGenerateCandidates env answer (normQuery env answer) intent plan fetchLimit rerankBuffer).bind
          fun rows => (memoryGenerateCandidates env query norm intent plan
            (if 0 < fetchLimit.tdiv 2 then fetchLimit.tdiv 2 else 8) rerankBuffer).map
              fun extra => memoryCandidatesMerge rows extra rerankBuffer := by
  simp only [primaryPasses]
  cases (env.queryRewrite query).hydeAnswer with
  | none =>
    simp only
    split
    · rename_i hfound
      exact hfound.symm
    · rename_i rows hfound
      exact hfound.symm
  | some answer =>
    simp only
    split
    · rename_i hfound
      rw [hfound]
      rfl
    · rename_i rows hfound
      rw [hfound]
      simp only [Bool.not_true, Bool.false_eq_true, if_false, Option.bind_some]
      split
      · rename_i hextra
        rw [hextra]
        rfl
      · rename_i extra hextra
        rw [hextra]
        rfl

/-- The candidates are those of the first passes, extended by the sub-questions. -/
theorem recallCandidates_eq :
    recallCandidates env query limit =
      (primaryPasses env {} query ((memoryQueryPlan env query limit).getD .zero) (scopedFetchLimit env query limit) t).1.bind
        fun rows => (subQuestionPasses env {} limit ((memoryQueryPlan env query limit).getD .zero)
          (scopedFetchLimit env query limit) (env.queryRewrite query).subQuestions.length 0
          (env.queryRewrite query).subQuestions rows t).1 := by
  simp only [subQuestionPasses_rows, primaryPasses_rows]
  rfl

/-- What the first passes leave in the thread: nothing where they succeed, a cleared hint where they fail. -/
theorem primaryPasses_thread {mem : Allocations} {plan : Plan} {fetchLimit : ℤ} {r : Option (List Memory)}
    {t' : ThreadState} (h : primaryPasses env mem query plan fetchLimit t = (r, t')) :
    t' = if r.isSome then t else t.hintClear := by
  unfold primaryPasses at h
  grind

theorem subQuestionPasses_thread {mem : Allocations} {plan : Plan} {fetchLimit : ℤ} {total q : ℕ}
    {questions : List Text} {rows : List Memory} {r : Option (List Memory)} {t' : ThreadState}
    (h : subQuestionPasses env mem limit plan fetchLimit total q questions rows t = (r, t')) :
    t' = if r.isSome then t else t.hintClear := by
  induction questions generalizing q rows with
  | nil =>
    obtain ⟨rfl, rfl⟩ := Prod.mk.inj h
    rfl
  | cons question rest ih =>
    simp only [subQuestionPasses] at h
    split at h
    · obtain ⟨rfl, rfl⟩ := Prod.mk.inj h
      rfl
    · split at h
      · obtain ⟨rfl, rfl⟩ := Prod.mk.inj h
        rfl
      · exact ih h

/-- Where no allocation fails, a scoped recall in its thread returns the rows of `memoryFindFactsScoped`. -/
theorem recall_scoped_rows (scope : Scope) :
    (recallScoped env {} query limit ranking scope max t).1 =
      memoryFindFactsScoped env ranking query scope limit max := by
  unfold recallScoped memoryFindFactsScoped
  split
  · rfl
  · cases env.aggregationHint query with
    | some hint => rfl
    | none =>
      simp only
      cases env.vectorReady with
      | false => rfl
      | true =>
        simp only [Bool.not_true, Bool.false_eq_true, if_false, if_true, scopedCandidates]
        rw [recallCandidates_eq (t := t.hintSet (scope.hint "workspace") (scope.hint "project"))]
        rcases hprimary : primaryPasses env {} query ((memoryQueryPlan env query (effectiveLimit limit max)).getD .zero)
          (scopedFetchLimit env query (effectiveLimit limit max))
          (t.hintSet (scope.hint "workspace") (scope.hint "project")) with ⟨_ | rows, t'⟩
        · rfl
        · obtain rfl := primaryPasses_thread hprimary
          simp only [Option.isSome_some, if_true, Option.bind_some]
          rcases hsub : subQuestionPasses env {} (effectiveLimit limit max)
            ((memoryQueryPlan env query (effectiveLimit limit max)).getD .zero)
            (scopedFetchLimit env query (effectiveLimit limit max)) (env.queryRewrite query).subQuestions.length 0
            (env.queryRewrite query).subQuestions rows
            (t.hintSet (scope.hint "workspace") (scope.hint "project")) with ⟨_ | found, t''⟩
          · rfl
          · rfl

/-- Likewise a visible one, whose context keeps the names in its buffers. -/
theorem recall_visible_rows (buf : ScopeBuffer) (workspace project : Option Text) (includeAll : Bool) :
    (recallVisible buf env {} ranking query workspace project includeAll limit max t).1 =
      memoryFindFactsVisibleEx env ranking t.scopeContext query (some (buf.keep workspace))
        (some (buf.keep project)) includeAll limit max := by
  unfold recallVisible memoryFindFactsVisibleEx visibleCandidates enteredContext
  split
  · rfl
  · cases env.vectorReady with
    | false => rfl
    | true =>
      simp only [Bool.not_true, Bool.false_eq_true, if_false, if_true]
      split
      · rename_i hfound
        rw [hfound]
        rfl
      · rename_i rows hfound
        rw [hfound]
        rfl

end Rows

/-! ## The thread -/

/-- A recall has left the scope context as it was, and the hint and the expansions cleared. -/
structure LeavesThread (t t' : ThreadState) : Prop where
  scopeContext : t'.scopeContext = t.scopeContext
  scopeHint : t'.scopeHint = none
  expansions : t'.expansions = none

/-- The thread between two recalls: nothing is hinted or staged, and the scope context is one that the
database keeps. -/
structure Quiet (buf : ScopeBuffer) (t : ThreadState) : Prop where
  scopeHint : t.scopeHint = none
  expansions : t.expansions = none
  kept : ∀ p, t.scopeContext = some p →
    ∃ workspace project, p.workspace = some (buf.keep workspace) ∧ p.project = some (buf.keep project)

section Thread

variable {buf : ScopeBuffer} {env : Env} {mem : Allocations} {ranking : Ranking} {query : Text} {limit max : ℤ}
variable {t : ThreadState}

theorem Quiet.leaves_self (h : Quiet buf t) : LeavesThread t t := ⟨rfl, h.scopeHint, h.expansions⟩

/-- Setting a kept context again gives the same context. -/
theorem Quiet.restored (h : Quiet buf t) (t' : ThreadState) :
    (t'.contextRestore buf t.scopeContext).scopeContext = t.scopeContext := by
  cases hcontext : t.scopeContext with
  | none => rfl
  | some p =>
    obtain ⟨workspace, project, hworkspace, hproject⟩ := h.kept p hcontext
    obtain ⟨_, _, includeAll⟩ := p
    subst hworkspace hproject
    simp [ThreadState.contextRestore, ThreadState.contextSet, buf.keep_keep]

@[simp] theorem contextRestore_scopeHint (t : ThreadState) (previous : Option ScopeContext) :
    (t.contextRestore buf previous).scopeHint = t.scopeHint := by
  cases previous <;> rfl

@[simp] theorem contextRestore_expansions (t : ThreadState) (previous : Option ScopeContext) :
    (t.contextRestore buf previous).expansions = t.expansions := by
  cases previous <;> rfl

theorem stageExpansions_scopeContext (kept : List Memory) (t : ThreadState) :
    (stageExpansions env query kept t).scopeContext = t.scopeContext := by
  unfold stageExpansions
  split <;> rfl

theorem recallScoped_leaves (h : Quiet buf t) (scope : Scope) :
    LeavesThread t (recallScoped env mem query limit ranking scope max t).2 := by
  have hcleared : LeavesThread t (t.hintSet (scope.hint "workspace") (scope.hint "project")).hintClear :=
    ⟨rfl, rfl, h.expansions⟩
  unfold recallScoped
  split
  · exact h.leaves_self
  · cases env.aggregationHint query with
    | some hint => exact h.leaves_self
    | none =>
      simp only
      split
      · exact h.leaves_self
      · split
        · exact hcleared
        · split
          · rename_i t' hprimary
            rw [primaryPasses_thread hprimary]
            exact hcleared
          · rename_i rows t' hprimary
            obtain rfl := primaryPasses_thread hprimary
            split
            · rename_i t'' hsub
              rw [subQuestionPasses_thread hsub]
              exact hcleared
            · rename_i found t'' hsub
              obtain rfl := subQuestionPasses_thread hsub
              exact ⟨stageExpansions_scopeContext _ _, rfl, rfl⟩

theorem recallVisible_leaves (h : Quiet buf t) (workspace project : Option Text) (includeAll : Bool) :
    LeavesThread t (recallVisible buf env mem ranking query workspace project includeAll limit max t).2 := by
  unfold recallVisible
  split
  · exact h.leaves_self
  · simp only
    split
    · exact ⟨h.restored _, (contextRestore_scopeHint ..).trans h.scopeHint,
        (contextRestore_expansions ..).trans h.expansions⟩
    · have hcleared : ∀ t' : ThreadState, t'.scopeHint = none → t'.expansions = t.expansions →
          LeavesThread t (t'.contextRestore buf t.scopeContext) := fun t' hhint hexpansions =>
        ⟨h.restored t', by simpa using hhint, by simpa [hexpansions] using h.expansions⟩
      split
      · exact hcleared _ rfl rfl
      · split
        · exact hcleared _ rfl rfl
        · exact hcleared _ rfl rfl

end Thread

/-! ## Runs -/

/-- What happens in a thread: its caller enters and leaves a scope context, and recalls. -/
inductive ThreadEvent where
  | contextSet (workspace project : Option Text) (includeAll : Bool)
  | contextClear
  | findScoped (env : Env) (mem : Allocations) (ranking : Ranking) (query : Text) (scope : Scope) (limit max : ℤ)
  | findVisible (env : Env) (mem : Allocations) (ranking : Ranking) (query : Text) (workspace project : Option Text)
      (includeAll : Bool) (limit max : ℤ)

def ThreadEvent.isRecall : ThreadEvent → Bool
  | contextSet .. | contextClear => false
  | findScoped .. | findVisible .. => true

def threadStep (buf : ScopeBuffer) (t : ThreadState) : ThreadEvent → ThreadState
  | .contextSet workspace project includeAll => t.contextSet buf workspace project includeAll
  | .contextClear => t.contextClear
  | .findScoped env mem ranking query scope limit max => (recallScoped env mem query limit ranking scope max t).2
  | .findVisible env mem ranking query workspace project includeAll limit max =>
    (recallVisible buf env mem ranking query workspace project includeAll limit max t).2

variable {buf : ScopeBuffer} {t : ThreadState}

theorem Quiet.recall (h : Quiet buf t) {e : ThreadEvent} (he : e.isRecall) : LeavesThread t (threadStep buf t e) := by
  cases e with
  | contextSet => simp [ThreadEvent.isRecall] at he
  | contextClear => simp [ThreadEvent.isRecall] at he
  | findScoped => exact recallScoped_leaves h _
  | findVisible => exact recallVisible_leaves h _ _ _

theorem Quiet.of_leaves (h : Quiet buf t) {t' : ThreadState} (hleaves : LeavesThread t t') : Quiet buf t' :=
  ⟨hleaves.scopeHint, hleaves.expansions, by rw [hleaves.scopeContext]; exact h.kept⟩

theorem Quiet.step (h : Quiet buf t) (e : ThreadEvent) : Quiet buf (threadStep buf t e) := by
  cases e with
  | contextSet workspace project includeAll =>
    refine ⟨h.scopeHint, h.expansions, fun p hp => ⟨workspace, project, ?_⟩⟩
    obtain rfl := Option.some.inj hp
    exact ⟨rfl, rfl⟩
  | contextClear => exact ⟨h.scopeHint, h.expansions, fun p hp => by cases hp⟩
  | findScoped => exact h.of_leaves (h.recall rfl)
  | findVisible => exact h.of_leaves (h.recall rfl)

/-- In every run of a thread, whatever its caller has done before, each recall leaves the scope context
as it was and the hint and the expansions cleared, by whichever exit it returns. -/
theorem recalls_leave_thread (buf : ScopeBuffer) (es : List ThreadEvent) :
    Meets (threadStep buf) (fun _ t e => e.isRecall → LeavesThread t (threadStep buf t e)) {} es := by
  intro pre e post _ he
  refine Quiet.recall ?_ he
  refine run_keeps (I := fun _ => Quiet buf) ?_ ?_ pre
  · exact ⟨rfl, rfl, fun p hp => by cases hp⟩
  · intro _ t e h
    exact h.step e

end AimeeMemory.Recall
