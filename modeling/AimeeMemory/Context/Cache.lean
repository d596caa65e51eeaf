import AimeeMemory.Context.Assemble
import AimeeMemory.Lib.Trace

/-!
# The context cache

`memory_assemble_context` with its cache: a context is looked up, and stored, under a key
that `cache_input_hash` makes of the store, and of nothing else. A call that does not find
its context also writes to the store: it records a failed retrieval, and it lowers the
confidence of a memory whose artifact has changed; the context is stored under the key of
the store after that.

## What is proved

* **`cache_transparent`**: in a run of calls and writes every call gets the context that is
  assembled afresh, if the newest call that stored under the key of its store had the same
  task hint and found what it finds (`KeyTells`).
* **`hint_not_in_key`**: two calls with different hints and no write between them; the second
  gets the context of the first.
-/

namespace AimeeMemory.Context

open AimeeMemory.Core AimeeMemory.Lib

variable {R C : Type*}

/-! ## The key -/

/-- `%016lx`. -/
def hex16 (n : UInt64) : Text :=
  ((List.range 16).map fun i => (n >>> (4 * (15 - i)).toUInt64) &&& 15).map fun d =>
    if d < 10 then 48 + d.toUInt8 else 87 + d.toUInt8

/-- What the key is made of. -/
def keyText (w : World R) : Text :=
  (match w.memoryCountAndMaxUpdated with
    | none => []
    | some (count, updated) => text "m:" ++ text (toString count) ++ text ":" ++ updated.take 31 ++ text ";") ++
  text "r:" ++ w.rulesSignature.take 31 ++ text ";"

/-- `cache_input_hash`. -/
def cacheInputHash (w : World R) : Text :=
  hex16 ((keyText w).foldl (fun h c => ((h <<< 5) + h) + c.toUInt64) 5381)

/-! ## What a call writes -/

/-- The writes of a call to the store. -/
structure Writes (R : Type*) where
  decayConfidence : World R → ℤ → World R
  recordRetrievalFailure : World R → Text → World R

/-- The hash of a file. -/
def fileHash (content : Text) : Text := hex16 (content.foldl (fun h c => h * 31 + c.toUInt64) 0)

/-- `check_artifact_staleness`. -/
def checkArtifactStaleness (wr : Writes R) (w : World R) : World R :=
  (w.artifacts.take 50).foldl (fun acc a =>
    match w.readFile a.artifactRef with
    | some content =>
      if a.artifactType = text "file" ∧ fileHash content ≠ a.artifactHash then wr.decayConfidence acc a.id else acc
    | none => acc) w

variable [ScoreArith R] (b : Build R) (wr : Writes R)

/-- The store after a call that has assembled its context. -/
def afterAssembly (w : World R) (hint : Text) : World R :=
  let w := match if hint = [] then none else recordedFailure b w hint with
    | some norm => wr.recordRetrievalFailure w norm
    | none => w
  checkArtifactStaleness wr w

/-! ## Calls -/

/-- The cache in db1. -/
structure ContextCache (C : Type*) where
  get : C → Text → Option Text
  put : C → Text → Text → C
  invalidate : C → C

/-- A cache answers with what was put last under a key since it was emptied, or with nothing. -/
structure ContextCache.Lawful (db : ContextCache C) : Prop where
  get_put : ∀ c k t k' t', db.get (db.put c k t) k' = some t' → (k' = k ∧ t' = t) ∨ (k' ≠ k ∧ db.get c k' = some t')
  get_invalidate : ∀ c k, db.get (db.invalidate c) k = none

/-- A context that a call has stored: its key, and the hint and the world it was assembled from. -/
structure Stored (R : Type*) where
  key : Text
  hint : Text
  world : World R

/-- The world, the cache, and what has been stored since it was last emptied, the newest first. -/
structure CacheState (R C : Type*) where
  world : World R
  cache : C
  stored : List (Stored R)

variable (db : ContextCache C)

/-- Whether calls use the cache. -/
def World.cached (w : World R) : Bool := !w.scopeActive && !w.noCache

/-- `memory_assemble_context`: the context, and the state after the call. -/
def cachedContext (s : CacheState R C) (hint : Text) : Text × CacheState R C :=
  match if s.world.cached then db.get s.cache (cacheInputHash s.world) else none with
  | some cached => (cached, s)
  | none =>
    let context := (memoryAssembleContext b s.world hint).text
    let world := afterAssembly b wr s.world hint
    if s.world.cached then
      (context, ⟨world, db.put s.cache (cacheInputHash world) context, ⟨cacheInputHash world, hint, s.world⟩ :: s.stored⟩)
    else (context, { s with world })

/-- What happens between calls and in them: the world changes, with the cache emptied or not, or a call is made. -/
inductive CacheEvent (R : Type*) where
  | write (world : World R) (invalidates : Bool)
  | call (hint : Text)

def cacheStep (s : CacheState R C) : CacheEvent R → CacheState R C
  | .write world false => { s with world }
  | .write world true => ⟨world, db.invalidate s.cache, []⟩
  | .call hint => (cachedContext b wr db s hint).2

/-- A call gets the context that is assembled afresh. -/
def GetsFresh (s : CacheState R C) : CacheEvent R → Prop
  | .write _ _ => True
  | .call hint => (cachedContext b wr db s hint).1 = (memoryAssembleContext b s.world hint).text

/-- The newest context stored under the key of the store is one of the same hint and of the same world. -/
def KeyTells (s : CacheState R C) : CacheEvent R → Prop
  | .write _ _ => True
  | .call hint => ∀ e, s.stored.find? (·.key = cacheInputHash s.world) = some e → e.hint = hint ∧ e.world = s.world

/-! ## Runs -/

/-- The cache answers with the contexts that are stored. -/
def AnswersStored (s : CacheState R C) : Prop :=
  ∀ k t, db.get s.cache k = some t →
    ∃ e, s.stored.find? (·.key = k) = some e ∧ t = (memoryAssembleContext b e.world e.hint).text

variable {b wr db} {s : CacheState R C}

theorem AnswersStored.getsFresh (h : AnswersStored b db s) {e : CacheEvent R} (he : KeyTells s e) :
    GetsFresh b wr db s e := by
  cases e with
  | write world invalidates => trivial
  | call hint =>
    simp only [GetsFresh, cachedContext]
    split
    · rename_i cached hhit
      split at hhit
      · obtain ⟨x, hfind, rfl⟩ := h _ _ hhit
        obtain ⟨hhint, hworld⟩ := he x hfind
        rw [hhint, hworld]
      · exact absurd hhit (by simp)
    · split
      · rfl
      · rfl

theorem AnswersStored.step (hdb : db.Lawful) (h : AnswersStored b db s) (e : CacheEvent R) :
    AnswersStored b db (cacheStep b wr db s e) := by
  cases e with
  | write world invalidates =>
    cases invalidates with
    | false => exact h
    | true =>
      intro k t hget
      exact absurd ((hdb.get_invalidate s.cache k).symm.trans hget) (by simp)
  | call hint =>
    simp only [cacheStep, cachedContext]
    split
    · exact h
    · split
      · -- the context is put under the key of the store that the call leaves
        intro k t hget
        rcases hdb.get_put _ _ _ _ _ hget with ⟨rfl, rfl⟩ | ⟨hne, hold⟩
        · exact ⟨_, List.find?_cons_of_pos (decide_eq_true rfl), rfl⟩
        · obtain ⟨x, hfind, ht⟩ := h k t hold
          exact ⟨x, (List.find?_cons_of_neg (by simpa using Ne.symm hne)).trans hfind, ht⟩
      · exact h

theorem answersStored_run (hdb : db.Lawful) (hempty : ∀ k, db.get s.cache k = none) (es : List (CacheEvent R)) :
    AnswersStored b db (run (cacheStep b wr db) s es) := by
  refine run_keeps (I := fun _ => AnswersStored b db) (fun k t hget => ?_) (fun _ _ e hs => hs.step hdb e) es
  exact absurd ((hempty k).symm.trans hget) (by simp)

/-- **In a run from an empty cache every call gets the context that is assembled afresh**, if for each call the newest
context stored under its key is one of its hint and its world. -/
theorem cache_transparent (hdb : db.Lawful) (hempty : ∀ k, db.get s.cache k = none) (es : List (CacheEvent R))
    (h : Meets (cacheStep b wr db) (fun _ => KeyTells) s es) :
    Meets (cacheStep b wr db) (fun _ => GetsFresh b wr db) s es :=
  fun pre e post hsplit => (answersStored_run hdb hempty pre).getsFresh (h pre e post hsplit)

/-! ## Two calls -/

/-- A cache that keeps everything. -/
def mapCache : ContextCache (Text → Option Text) where
  get c k := c k
  put c k t k' := if k' = k then some t else c k'
  invalidate _ _ := none

theorem mapCache_lawful : mapCache.Lawful where
  get_put c k t k' t' h := by
    by_cases hk : k' = k
    · exact .inl ⟨hk, Option.some.inj (h.symm.trans (if_pos hk))⟩
    · exact .inr ⟨hk, (if_neg hk).symm.trans h⟩
  get_invalidate _ _ := rfl

/-- Writes that no sample makes. -/
def noWrites : Writes ℚ := ⟨fun w _ => w, fun w _ => w⟩

/-- A store with an active task. -/
def taskWorld : World ℚ where
  __ := bareWorld
  kvSection s := if s = .activeTasks then [⟨text "release", text "Cut the release."⟩] else []

def taskState : CacheState ℚ (Text → Option Text) := ⟨taskWorld, fun _ => none, []⟩

theorem afterAssembly_taskWorld (hint : Text) : afterAssembly sampleBuild noWrites taskWorld hint = taskWorld := by
  have hretrieved : (retrieved sampleBuild taskWorld hint).2 = false := rfl
  have hfailure : recordedFailure sampleBuild taskWorld hint = none := by simp [recordedFailure, hretrieved]
  rw [afterAssembly, hfailure, ite_self]
  rfl

/-- The state after a first call. -/
theorem step_taskState (hint : Text) :
    cacheStep sampleBuild noWrites mapCache taskState (.call hint) =
      ⟨taskWorld, mapCache.put (fun _ => none) (cacheInputHash taskWorld)
        (memoryAssembleContext sampleBuild taskWorld hint).text, [⟨cacheInputHash taskWorld, hint, taskWorld⟩]⟩ := by
  simp only [cacheStep, cachedContext, taskState, afterAssembly_taskWorld]
  rfl

/-- A second call with the hint of the first. -/
theorem cache_transparent_again :
    Meets (cacheStep sampleBuild noWrites mapCache) (fun _ => GetsFresh sampleBuild noWrites mapCache) taskState
      [.call (text "go"), .call (text "go")] := by
  refine cache_transparent mapCache_lawful (fun _ => rfl) _ (meets_cons.2 ⟨?_, meets_cons.2 ⟨?_, .nil⟩⟩)
  · intro e he
    exact absurd he (by simp [taskState])
  · rw [step_taskState]
    intro e he
    obtain rfl := List.mem_singleton.1 (List.mem_of_find?_eq_some he)
    exact ⟨rfl, rfl⟩

theorem context_of_task : (memoryAssembleContext sampleBuild taskWorld (text "go")).text = text "# Memory Context" := by
  rfl

theorem context_without_task : (memoryAssembleContext sampleBuild taskWorld []).text =
    text "# Memory Context\n## Active Tasks\n- Cut the release.\n" := by
  rfl

/-- The hint is no part of the key: the call without a task gets the context of the task. -/
theorem hint_not_in_key :
    ¬ Meets (cacheStep sampleBuild noWrites mapCache) (fun _ => GetsFresh sampleBuild noWrites mapCache) taskState
      [.call (text "go"), .call []] := by
  intro h
  have hfresh := (meets_cons.1 (meets_cons.1 h).2).1
  rw [step_taskState, GetsFresh, context_without_task] at hfresh
  have hserved : (cachedContext sampleBuild noWrites mapCache
      ⟨taskWorld, mapCache.put (fun _ => none) (cacheInputHash taskWorld)
        (memoryAssembleContext sampleBuild taskWorld (text "go")).text,
        [⟨cacheInputHash taskWorld, text "go", taskWorld⟩]⟩ []).1 =
      (memoryAssembleContext sampleBuild taskWorld (text "go")).text := by
    have hhit : (if World.cached taskWorld = true then
        mapCache.get (mapCache.put (fun _ => none) (cacheInputHash taskWorld)
          (memoryAssembleContext sampleBuild taskWorld (text "go")).text) (cacheInputHash taskWorld) else none) =
        some (memoryAssembleContext sampleBuild taskWorld (text "go")).text := if_pos rfl
    simp only [cachedContext, hhit]
  rw [hserved, context_of_task] at hfresh
  exact absurd hfresh (by decide)

end AimeeMemory.Context
