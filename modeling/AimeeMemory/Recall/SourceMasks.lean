import AimeeMemory.Recall.Candidates

/-!
# Source masks

Which lanes found a candidate: `memory_generate_candidates` notes after each lane the rows
that the lane has appended, under the bit of the lane. The fusion bonus of a candidate
counts the bits.

A lane is a query of the database or of the vector index, with the bits it is noted under.
The lanes of a generation follow from its query alone, so they are listed first and run
afterwards.

## What is proved

* **`memoryGenerateNoted_out`**: the candidates are those of `memoryGenerateCandidates`.
* **`runLanes_masks`**: with room for all, a mask is that of the first lane that found the row.
* **`memoryGenerateNoted_complete_iff`**: the masks are complete exactly where no lane adds a
  bit to a row that an earlier lane found.
* **`agreement_unnoted`**: two lanes that find the same row.
-/

namespace AimeeMemory.Recall

open AimeeMemory.Core

inductive Source where
  | lexical
  | alias
  | entity
  | summary
  | event
  | chunk
  | unit
  | temporal
  | semantic
  | like
  | code
  | graph
  deriving DecidableEq, Repr

/-- The position of `MEM_SOURCE_*`. -/
def Source.bit : Source → ℕ
  | .lexical => 0
  | .alias => 1
  | .entity => 2
  | .summary => 3
  | .event => 4
  | .chunk => 5
  | .unit => 6
  | .temporal => 7
  | .semantic => 8
  | .like => 9
  | .code => 10
  | .graph => 11

def sourceMask (sources : List Source) : ℕ := sources.foldr (fun s mask => 1 <<< s.bit ||| mask) 0

/-- A query, and the bits its rows are noted under. -/
structure Lane where
  sources : List Source
  rows : List Memory
  named : sources ≠ []

def Lane.of (source : Source) (rows : List Memory) : Lane :=
  { sources := [source]
    rows
    named := by simp }

/-- The lane over the vectors of the units. -/
def Lane.unitSemantic (rows : List Memory) : Lane :=
  { sources := [.unit, .semantic]
    rows
    named := by simp }

/-- What the lanes look up. The other fields are those of `Env`. -/
structure LaneLookups where
  configPresent : Bool
  /-- The signal words of a variant, or the variant where it has none. -/
  structuredQuery : Text → Text
  /-- The signal words with their synonyms and neighbours: none where the vector index fails. -/
  lexicalQuery : Text → Option Text
  /-- At most 48 terms. -/
  expandedTerms : Text → List Text
  queryIsCodeLike : Text → Bool
  /-- The vector search over the summary kinds, and over the fact kinds. -/
  summaryKindMatches : Text → List Memory
  factKindMatches : Text → List Memory
  unitMatches : Text → ℤ → List Memory
  aliasMatches : Text → ℤ → List Memory
  entityMatches : Text → ℤ → List Memory
  summaryMatches : Text → ℤ → List Memory
  eventFrameMatches : Text → ℤ → List Memory
  temporalMatches : Text → ℤ → List Memory
  relationTokenMatches : Text → ℤ → List Memory
  /-- The source and the target of the edges of a token. -/
  entityEdgeSearch : Text → ℤ → List (Text × Text)

/-! ### The lanes of a generation -/

/-- A lane over a term: an empty term is not looked up. -/
def termLane (source : Source) (find : Text → ℤ → List Memory) (term : Text) (limit : ℤ) : Lane :=
  .of source (if term = [] then [] else find term limit)

/-- `memory_collect_graph_candidates`. -/
def graphLanes (env : Env) (l : LaneLookups) (norm : Text) (limit : ℤ) : List Lane :=
  ((env.splitTokens norm).filter fun t => 3 ≤ t.length).flatMap fun t =>
    termLane .graph l.relationTokenMatches t (min limit 8) ::
      (l.entityEdgeSearch t (min limit 6)).flatMap fun edge =>
        [termLane .graph l.entityMatches edge.1 (min limit 4), termLane .graph l.entityMatches edge.2 (min limit 4)]

/-- The lanes over one expanded term. -/
def expandedLanes (env : Env) (l : LaneLookups) (intent : Intent) (limit : ℤ) (term : Text) : List Lane :=
  [ termLane .alias l.aliasMatches term limit, termLane .entity l.entityMatches term limit,
    termLane .summary l.summaryMatches term limit, termLane .event l.eventFrameMatches term limit,
    termLane .chunk env.vectorMatches term limit, termLane .unit l.unitMatches term limit ] ++
  if intent = .temporal then [termLane .temporal l.temporalMatches term limit] else []

/-- The memory vector lanes: one over all kinds, or one over the summaries and one over the facts. -/
def lexicalLanes (env : Env) (l : LaneLookups) (lexical : Text) (limit : ℤ) : List Lane :=
  if env.lanesEnabled then
    [.of .lexical (l.summaryKindMatches lexical), .of .lexical (l.factKindMatches lexical)]
  else [termLane .lexical env.vectorMatches lexical limit]

/-- `memory_collect_variant_candidates`: none where the vector index fails. -/
def variantLanes (env : Env) (l : LaneLookups) (query variant : Text) (intent : Intent) (limit : ℤ) :
    Option (List Lane) :=
  if variant = [] ∨ l.configPresent = false then some []
  else
    (l.lexicalQuery variant).map fun lexical =>
      let structured := l.structuredQuery variant
      [termLane .unit l.unitMatches lexical limit] ++ lexicalLanes env l lexical limit ++
      (if l.queryIsCodeLike query || l.queryIsCodeLike structured then
        [termLane .code env.vectorMatches structured limit]
      else []) ++
      [termLane .alias l.aliasMatches structured limit] ++
      ((l.expandedTerms variant).filter fun t => 3 ≤ t.length).flatMap (expandedLanes env l intent limit) ++
      (if intent = .entity ∨ intent = .general then [termLane .entity l.entityMatches structured limit] else []) ++
      [ termLane .summary l.summaryMatches structured limit, termLane .event l.eventFrameMatches variant limit,
        termLane .chunk env.vectorMatches lexical limit, termLane .unit l.unitMatches lexical limit ] ++
      if intent = .temporal then [termLane .temporal l.temporalMatches variant limit] else []

/-- The lanes for a query of negative polarity. -/
def negatedLanes (env : Env) (query : Text) (limit : ℤ) : List Lane :=
  match env.negatedTerms query with
  | none => []
  | some terms => [.of .lexical (env.negationFtsMatches terms limit), .of .lexical (env.vectorMatches terms limit)]

/-- A step of the generation. -/
structure Step where
  /-- Passed over where the buffer is full. -/
  needsRoom : Bool
  /-- None where the vector index fails. -/
  lanes : Option (List Lane)

/-- A semantic lane as a step. -/
def semanticStep (lane : List Memory → Lane) (found : Option (List Memory)) : Step :=
  { needsRoom := true
    lanes := found.map fun rows => [lane rows] }

/-- The steps of `memory_generate_candidates`. -/
def generationSteps (env : Env) (l : LaneLookups) (query norm : Text) (intent : Intent) (plan : Plan)
    (fetchLimit : ℤ) : List Step :=
  if query = [] ∨ norm = [] then []
  else
    let limits := laneLimits plan intent fetchLimit
    let half := if 0 < limits.1.tdiv 2 then limits.1.tdiv 2 else 1
    [⟨false, some (if plan.route = .graph then graphLanes env l norm fetchLimit else [])⟩,
      ⟨false, variantLanes env l query norm intent limits.1⟩] ++
    (env.queryDecomposition norm).map (fun sub => ⟨true, variantLanes env l query sub intent half⟩) ++
    (if plan.semanticEnabled then
      [semanticStep .unitSemantic (env.unitSemanticMatches query limits.2),
        semanticStep (.of .semantic) (env.semanticMatches query limits.2)]
    else []) ++
    [⟨false, some (negatedLanes env query fetchLimit ++ [.of .like ((env.findFactsLike norm fetchLimit 128).getD [])])⟩]

/-! ### What a lane notes -/

/-- `memory_candidate_source_t`. -/
structure CandidateSource where
  memoryId : ℤ
  mask : ℕ
  deriving DecidableEq, Repr

/-- The candidates, and their sources. -/
structure Noted where
  out : List Memory := []
  stats : List CandidateSource := []
  deriving DecidableEq, Repr

/-- The room for sources. -/
def sourceStatsMax : ℕ := 128

/-- One row of `memory_note_candidate_sources`. -/
def noteSource (mask : ℕ) (stats : List CandidateSource) (id : ℤ) : List CandidateSource :=
  match stats.findIdx? fun stat => stat.memoryId = id with
  | some i => stats.modify i fun stat => { stat with mask := stat.mask ||| mask }
  | none => if stats.length < sourceStatsMax then stats ++ [⟨id, mask⟩] else stats

/-- `memory_note_candidate_sources`. -/
def memoryNoteCandidateSources (mask : ℕ) (stats : List CandidateSource) (rows : List Memory) : List CandidateSource :=
  if mask = 0 then stats else (rows.map Memory.id).foldl (noteSource mask) stats

/-- A lane appends its rows, and notes those that are new in the buffer. -/
def runLane (max : ℕ) (s : Noted) (lane : Lane) : Noted :=
  let out := collect max s.out lane.rows
  { out
    stats := memoryNoteCandidateSources (sourceMask lane.sources) s.stats (out.drop s.out.length) }

def runLanes (max : ℕ) (s : Noted) (lanes : List Lane) : Noted := lanes.foldl (runLane max) s

def runStep (max : ℕ) (s : Noted) (step : Step) : Option Noted :=
  if step.needsRoom ∧ max ≤ s.out.length then some s else step.lanes.map (runLanes max s)

/-- `memory_generate_candidates`, with the sources it notes. -/
def memoryGenerateNoted (env : Env) (l : LaneLookups) (query norm : Text) (intent : Intent) (plan : Plan)
    (fetchLimit : ℤ) (max : ℕ) : Option Noted :=
  (generationSteps env l query norm intent plan fetchLimit).foldlM (runStep max) {}

/-- The mask that `memory_source_fusion_bonus` reads. -/
def Noted.maskOf (s : Noted) (id : ℤ) : ℕ :=
  match s.stats.find? fun stat => stat.memoryId = id with
  | some stat => stat.mask
  | none => 0

/-- The lanes that a generation runs, if its buffer has room. -/
def Step.ran (steps : List Step) : List Lane := steps.flatMap fun step => step.lanes.getD []

/-- The environment whose lookups are the lanes. -/
def Env.withLanes (env : Env) (l : LaneLookups) : Env :=
  { env with
    graphMatches := fun _ norm limit => (graphLanes env l norm limit).flatMap Lane.rows
    variantMatches := fun query variant intent limit =>
      (variantLanes env l query variant intent limit).map (List.flatMap Lane.rows) }

def Lane.Returns (lane : Lane) (id : ℤ) : Prop := id ∈ lane.rows.map Memory.id

instance Lane.decidableReturns (lane : Lane) (id : ℤ) : Decidable (lane.Returns id) :=
  inferInstanceAs (Decidable (id ∈ lane.rows.map Memory.id))

/-- A mask has the bit of a lane exactly where the lane returned the memory. -/
def MasksComplete (lanes : List Lane) (s : Noted) : Prop :=
  ∀ m ∈ s.out, ∀ source : Source, (s.maskOf m.id).testBit source.bit ↔
    ∃ lane ∈ lanes, source ∈ lane.sources ∧ lane.Returns m.id

/-- The lane that found a memory first has every bit that it is found under. -/
def FirstLaneHasAll (lanes : List Lane) : Prop :=
  ∀ lane ∈ lanes, ∀ m ∈ lane.rows, ∀ first ∈ lanes.find? (·.Returns m.id), lane.sources ⊆ first.sources

variable {max : ℕ} {s s' : Noted} {lane first : Lane} {lanes past : List Lane} {rows : List Memory}
  {stats : List CandidateSource} {mask : ℕ} {id : ℤ}

/-! ### The bits of a mask -/

theorem Source.bit_injective : Function.Injective Source.bit := by
  intro a b h
  cases a <;> cases b <;> first | rfl | exact absurd h (by decide)

/-- A mask has the bits of its sources. -/
theorem testBit_sourceMask (sources : List Source) (source : Source) :
    (sourceMask sources).testBit source.bit ↔ source ∈ sources := by
  induction sources with
  | nil => simp [sourceMask]
  | cons s sources ih =>
    have hbit : s.bit = source.bit ↔ source = s := ⟨fun h => (Source.bit_injective h).symm, fun h => h ▸ rfl⟩
    rw [sourceMask, List.foldr_cons, Nat.testBit_or, Nat.one_shiftLeft, Nat.testBit_two_pow, Bool.or_eq_true,
      decide_eq_true_iff, hbit, List.mem_cons]
    exact or_congr_right ih

theorem sourceMask_ne_zero {sources : List Source} (h : sources ≠ []) : sourceMask sources ≠ 0 := by
  obtain ⟨source, hsource⟩ := List.exists_mem_of_ne_nil _ h
  intro hzero
  have hbit := (testBit_sourceMask sources source).2 hsource
  rw [hzero, Nat.zero_testBit] at hbit
  exact absurd hbit (by simp)

/-! ### What a lane adds -/

/-- With room left, every row of a lane is in the buffer afterwards, itself or another of its id. -/
theorem id_mem_collect_of_room {out : List Memory} {m : Memory} (hroom : (collect max out rows).length < max)
    (h : m ∈ rows) : m.id ∈ (collect max out rows).map Memory.id := by
  induction rows generalizing out with
  | nil => simp at h
  | cons r rs ih =>
    rcases List.mem_cons.1 h with rfl | h
    · have hlen : (memoryAppendUnique max out m).length < max := (prefix_collect max _ rs).length_le.trans_lt hroom
      have hin : m.id ∈ (memoryAppendUnique max out m).map Memory.id := by
        have hout : out.length < max := (prefix_memoryAppendUnique max out m).length_le.trans_lt hlen
        unfold memoryAppendUnique
        split_ifs with hnew
        · simp
        · simpa [hout] using hnew
      exact ((prefix_collect max _ rs).map Memory.id).subset hin
    · exact ih hroom h

/-- The rows that a lane appends are its own, and new. -/
theorem collect_eq_append (h : Pool max s.out) (rows : List Memory) :
    ∃ added, collect max s.out rows = s.out ++ added ∧ (∀ m ∈ added, m ∈ rows) ∧ (added.map Memory.id).Nodup ∧
      ∀ m ∈ added, m.id ∉ s.out.map Memory.id := by
  obtain ⟨added, hadded⟩ := prefix_collect max s.out rows
  have hpool := (h.collect rows).distinct
  rw [← hadded, List.map_append, List.nodup_append] at hpool
  obtain ⟨-, hnodup, hdisjoint⟩ := hpool
  have hnew : ∀ m ∈ added, m.id ∉ s.out.map Memory.id := fun m hm hold =>
    hdisjoint _ hold _ (List.mem_map_of_mem hm) rfl
  refine ⟨added, hadded.symm, fun m hm => ?_, hnodup, hnew⟩
  rcases mem_collect (hadded ▸ List.mem_append_right s.out hm : m ∈ collect max s.out rows) with hold | hrow
  · exact absurd (List.mem_map_of_mem hold) (hnew m hm)
  · exact hrow

theorem length_le_noteSource (mask : ℕ) (stats : List CandidateSource) (id : ℤ) :
    stats.length ≤ (noteSource mask stats id).length := by
  unfold noteSource
  split
  · simp
  · split_ifs <;> simp

theorem length_le_foldl_noteSource (mask : ℕ) (ids : List ℤ) (stats : List CandidateSource) :
    stats.length ≤ (ids.foldl (noteSource mask) stats).length := by
  induction ids generalizing stats with
  | nil => exact le_rfl
  | cons id ids ih => exact (length_le_noteSource mask stats id).trans (ih _)

/-- A new id is noted at the end. -/
theorem noteSource_of_new (mask : ℕ) (h : id ∉ stats.map CandidateSource.memoryId) (hroom : stats.length < sourceStatsMax) :
    noteSource mask stats id = stats ++ [CandidateSource.mk id mask] := by
  have hnone : stats.findIdx? (fun stat => stat.memoryId = id) = none := by
    rw [List.findIdx?_eq_none_iff]
    intro stat hstat
    exact decide_eq_false fun heq => h (heq ▸ List.mem_map_of_mem hstat)
  rw [noteSource, hnone]
  exact if_pos hroom

/-- With room for all, the new ids of a lane are noted at the end under its mask. -/
theorem foldl_noteSource_of_new {ids : List ℤ} (hnodup : ids.Nodup)
    (hnew : ∀ id ∈ ids, id ∉ stats.map CandidateSource.memoryId)
    (hroom : (ids.foldl (noteSource mask) stats).length < sourceStatsMax) :
    ids.foldl (noteSource mask) stats = stats ++ ids.map (CandidateSource.mk · mask) := by
  induction ids generalizing stats with
  | nil => simp
  | cons id ids ih =>
    have hstats : stats.length < sourceStatsMax := (length_le_foldl_noteSource mask (id :: ids) stats).trans_lt hroom
    have hstep := noteSource_of_new mask (hnew id (List.mem_cons_self ..)) hstats
    rw [List.foldl_cons, hstep] at hroom ⊢
    have hrest : ∀ other ∈ ids, other ∉ (stats ++ [CandidateSource.mk id mask]).map CandidateSource.memoryId := by
      intro other hother hmem
      rw [List.map_append, List.mem_append] at hmem
      rcases hmem with hmem | hmem
      · exact hnew other (List.mem_cons_of_mem _ hother) hmem
      · obtain rfl : other = id := List.mem_singleton.1 hmem
        exact (List.nodup_cons.1 hnodup).1 hother
    rw [ih (List.nodup_cons.1 hnodup).2 hrest hroom]
    simp

/-! ### The invariant of the sources -/

/-- Each candidate is noted once, under the bits of the first lane that found it. -/
structure Tracks (max : ℕ) (lanes : List Lane) (s : Noted) : Prop where
  pool : Pool max s.out
  ids : s.stats.map CandidateSource.memoryId = s.out.map Memory.id
  found : ∀ lane ∈ lanes, ∀ m ∈ lane.rows, m.id ∈ s.out.map Memory.id
  first : ∀ stat ∈ s.stats, ∃ lane, lanes.find? (fun l => l.Returns stat.memoryId) = some lane ∧
    stat.mask = sourceMask lane.sources

theorem Tracks.nil : Tracks max [] {} := ⟨.nil, rfl, by simp, by simp⟩

theorem length_le_runLane (max : ℕ) (s : Noted) (lane : Lane) :
    s.out.length ≤ (runLane max s lane).out.length ∧ s.stats.length ≤ (runLane max s lane).stats.length := by
  refine ⟨(prefix_collect max s.out lane.rows).length_le, ?_⟩
  unfold runLane memoryNoteCandidateSources
  split_ifs
  · exact le_rfl
  · exact length_le_foldl_noteSource _ _ _

/-- A lane keeps the invariant, with room left. -/
theorem Tracks.runLane (h : Tracks max past s) (lane : Lane) (hout : (runLane max s lane).out.length < max)
    (hstats : (runLane max s lane).stats.length < sourceStatsMax) :
    Tracks max (past ++ [lane]) (runLane max s lane) := by
  obtain ⟨added, hadded, hrows, hnodup, hnew⟩ := collect_eq_append h.pool lane.rows
  have hnoted : (Recall.runLane max s lane).stats =
      s.stats ++ (added.map Memory.id).map (CandidateSource.mk · (sourceMask lane.sources)) := by
    have hnote : (Recall.runLane max s lane).stats =
        (added.map Memory.id).foldl (noteSource (sourceMask lane.sources)) s.stats := by
      simp only [Recall.runLane, memoryNoteCandidateSources, if_neg (sourceMask_ne_zero lane.named), hadded,
        List.drop_left]
    rw [hnote]
    refine foldl_noteSource_of_new hnodup (fun id hid => ?_) (hnote ▸ hstats)
    obtain ⟨m, hm, rfl⟩ := List.mem_map.1 hid
    exact h.ids ▸ hnew m hm
  refine ⟨h.pool.collect lane.rows, ?_, fun l hl m hm => ?_, fun stat hstat => ?_⟩
  · rw [hnoted, show (Recall.runLane max s lane).out = s.out ++ added from hadded]
    simp [h.ids, Function.comp_def]
  · rcases List.mem_append.1 hl with hl | hl
    · exact ((prefix_collect max s.out lane.rows).map Memory.id).subset (h.found l hl m hm)
    · rw [List.mem_singleton.1 hl] at hm
      exact id_mem_collect_of_room hout hm
  · rw [hnoted, List.mem_append] at hstat
    rcases hstat with hstat | hstat
    · obtain ⟨l, hl, hmask⟩ := h.first stat hstat
      exact ⟨l, by rw [List.find?_append, hl, Option.some_or], hmask⟩
    · obtain ⟨id, hid, rfl⟩ := List.mem_map.1 hstat
      obtain ⟨m, hm, rfl⟩ := List.mem_map.1 hid
      have hpast : past.find? (fun l => l.Returns m.id) = none := by
        rw [List.find?_eq_none]
        intro l hl hreturns
        obtain ⟨n, hn, hid⟩ := List.mem_map.1 (of_decide_eq_true hreturns)
        exact hnew m hm (hid ▸ h.found l hl n hn)
      have hlane : lane.Returns m.id := List.mem_map_of_mem (hrows m hm)
      exact ⟨lane, by simp [List.find?_append, hpast, hlane], rfl⟩

theorem length_le_runLanes (max : ℕ) (lanes : List Lane) (s : Noted) :
    s.out.length ≤ (runLanes max s lanes).out.length ∧ s.stats.length ≤ (runLanes max s lanes).stats.length := by
  induction lanes generalizing s with
  | nil => exact ⟨le_rfl, le_rfl⟩
  | cons lane lanes ih =>
    have hstep := length_le_runLane max s lane
    have hrest := ih (runLane max s lane)
    exact ⟨hstep.1.trans hrest.1, hstep.2.trans hrest.2⟩

/-- A run of lanes keeps the invariant, with room left at its end. -/
theorem runLanes_masks (h : Tracks max past s) (hout : (runLanes max s lanes).out.length < max)
    (hstats : (runLanes max s lanes).stats.length < sourceStatsMax) :
    Tracks max (past ++ lanes) (runLanes max s lanes) := by
  induction lanes generalizing past s with
  | nil => simpa [runLanes] using h
  | cons lane lanes ih =>
    have hrest := length_le_runLanes max lanes (runLane max s lane)
    have hstep := h.runLane lane (hrest.1.trans_lt hout) (hrest.2.trans_lt hstats)
    have hrun := ih hstep hout hstats
    rwa [List.append_assoc] at hrun

theorem length_le_foldlM_runStep {steps : List Step} (h : steps.foldlM (runStep max) s = some s') :
    s.out.length ≤ s'.out.length ∧ s.stats.length ≤ s'.stats.length := by
  refine foldlM_keeps (P := fun t => s.out.length ≤ t.out.length ∧ s.stats.length ≤ t.stats.length)
    (fun t step t' ht hstep => ?_) steps ⟨le_rfl, le_rfl⟩ h
  unfold runStep at hstep
  split_ifs at hstep
  · exact Option.some.inj hstep ▸ ht
  · obtain ⟨lanes, -, rfl⟩ := Option.map_eq_some_iff.1 hstep
    have hlen := length_le_runLanes max lanes t
    exact ⟨ht.1.trans hlen.1, ht.2.trans hlen.2⟩

/-- With room left at its end, a generation has run all its lanes. -/
theorem foldlM_runStep_masks {steps : List Step} (h : Tracks max past s)
    (hrun : steps.foldlM (runStep max) s = some s') (hout : s'.out.length < max)
    (hstats : s'.stats.length < sourceStatsMax) : Tracks max (past ++ Step.ran steps) s' := by
  induction steps generalizing past s with
  | nil =>
    obtain rfl := Option.some.inj hrun
    simpa [Step.ran] using h
  | cons step steps ih =>
    obtain ⟨t, hstep, hrest⟩ := Option.bind_eq_some_iff.1 (by simpa using hrun)
    have hlater := length_le_foldlM_runStep hrest
    have hroom : ¬(step.needsRoom ∧ max ≤ s.out.length) := by
      rintro ⟨hneeds, hfull⟩
      rw [runStep, if_pos ⟨hneeds, hfull⟩] at hstep
      have hsame := Option.some.inj hstep
      have : max ≤ t.out.length := hsame ▸ hfull
      omega
    rw [runStep, if_neg hroom] at hstep
    obtain ⟨lanes, hlanes, rfl⟩ := Option.map_eq_some_iff.1 hstep
    have hnow := runLanes_masks h (hlater.1.trans_lt hout) (hlater.2.trans_lt hstats)
    have hran : Step.ran (step :: steps) = lanes ++ Step.ran steps := by simp [Step.ran, hlanes]
    rw [hran, ← List.append_assoc]
    exact ih hnow hrest

/-! ### What the masks say -/

theorem Tracks.first_of_mem (h : Tracks max lanes s) {m : Memory} (hm : m ∈ s.out) :
    ∃ lane, lanes.find? (fun l => l.Returns m.id) = some lane ∧ s.maskOf m.id = sourceMask lane.sources := by
  have hid : m.id ∈ s.stats.map CandidateSource.memoryId := h.ids ▸ List.mem_map_of_mem hm
  obtain ⟨stat, hstat, hstatid⟩ := List.mem_map.1 hid
  have hsome : (s.stats.find? fun t => t.memoryId = m.id).isSome :=
    List.find?_isSome.2 ⟨stat, hstat, decide_eq_true hstatid⟩
  obtain ⟨found, hfound⟩ := Option.isSome_iff_exists.1 hsome
  have heq : found.memoryId = m.id := by simpa using List.find?_some hfound
  obtain ⟨lane, hlane, hmask⟩ := h.first found (List.mem_of_find?_eq_some hfound)
  exact ⟨lane, heq ▸ hlane, by rw [← hmask, Noted.maskOf, hfound]⟩

theorem Tracks.masksComplete_iff (h : Tracks max lanes s) : MasksComplete lanes s ↔ FirstLaneHasAll lanes := by
  constructor
  · intro hcomplete lane hlane m hm first hfirst source hsource
    obtain ⟨n, hn, hid⟩ := List.mem_map.1 (h.found lane hlane m hm)
    obtain ⟨lane', hlane', hmask⟩ := h.first_of_mem hn
    rw [hid] at hlane' hmask
    obtain rfl : lane' = first := Option.some.inj (hlane'.symm.trans hfirst)
    have hbit := (hcomplete n hn source).2 ⟨lane, hlane, hsource, hid ▸ List.mem_map_of_mem hm⟩
    rw [hid, hmask] at hbit
    exact (testBit_sourceMask _ source).1 hbit
  · intro hfirst m hm source
    obtain ⟨lane, hlane, hmask⟩ := h.first_of_mem hm
    rw [hmask, testBit_sourceMask]
    constructor
    · intro hsource
      exact ⟨lane, List.mem_of_find?_eq_some hlane, hsource, by simpa using List.find?_some hlane⟩
    · rintro ⟨later, hlater, hsource, hreturns⟩
      obtain ⟨n, hn, hid⟩ := List.mem_map.1 hreturns
      exact hfirst later hlater n hn lane (hid ▸ hlane) hsource

section Generation

variable {env : Env} {l : LaneLookups} {query norm : Text} {intent : Intent} {plan : Plan} {fetchLimit : ℤ}

/-- Where neither buffer fills up, the masks of a generation are complete exactly where the
lane that found a memory first has every bit that the memory is found under. -/
theorem memoryGenerateNoted_complete_iff
    (h : memoryGenerateNoted env l query norm intent plan fetchLimit max = some s) (hout : s.out.length < max)
    (hstats : s.stats.length < sourceStatsMax) :
    MasksComplete (Step.ran (generationSteps env l query norm intent plan fetchLimit)) s ↔
      FirstLaneHasAll (Step.ran (generationSteps env l query norm intent plan fetchLimit)) := by
  have htracks := foldlM_runStep_masks Tracks.nil h hout hstats
  rw [List.nil_append] at htracks
  exact htracks.masksComplete_iff

end Generation

/-- Lookups that find nothing, with the words of a query as they are. -/
def bareLanes : LaneLookups where
  configPresent := true
  structuredQuery t := t
  lexicalQuery t := some t
  expandedTerms t := [t]
  queryIsCodeLike _ := false
  summaryKindMatches _ := []
  factKindMatches _ := []
  unitMatches _ _ := []
  aliasMatches _ _ := []
  entityMatches _ _ := []
  summaryMatches _ _ := []
  eventFrameMatches _ _ := []
  temporalMatches _ _ := []
  relationTokenMatches _ _ := []
  entityEdgeSearch _ _ := []

def portRow : Memory :=
  { id := 1
    key := text "server"
    content := text "the port is 8080" }

def semanticPlan : Plan := { Plan.zero with route := .semantic, semanticEnabled := true }

/-- An environment whose vector index finds a row by its memory, and by its key. -/
def agreeingEnv : Env :=
  { bareEnv [] with
    vectorMatches := fun _ _ => [portRow]
    semanticMatches := fun _ _ => some [portRow] }

/-- The steps of a generation for the port. -/
def portSteps (env : Env) : List Step :=
  generationSteps env bareLanes (text "port") (text "port") .general semanticPlan 8

/-- A row that the lexical lane and the semantic lane find has the lexical bit only. -/
theorem agreement_unnoted :
    ∃ s, memoryGenerateNoted agreeingEnv bareLanes (text "port") (text "port") .general semanticPlan 8 rerankBuffer =
        some s ∧ s.out.length < rerankBuffer ∧ s.stats.length < sourceStatsMax ∧
      s.maskOf portRow.id = sourceMask [.lexical] ∧ ¬ MasksComplete (Step.ran (portSteps agreeingEnv)) s := by
  refine ⟨⟨[portRow], [⟨1, sourceMask [.lexical]⟩]⟩, by decide +kernel, by decide, by decide, by decide, fun hcomplete => ?_⟩
  have hsemantic : ∃ lane ∈ Step.ran (portSteps agreeingEnv), .semantic ∈ lane.sources ∧ lane.Returns portRow.id := by
    decide +kernel
  exact absurd ((hcomplete portRow (List.mem_singleton_self _) .semantic).2 hsemantic) (by decide +kernel)

/-- An environment whose vector index finds a row by its units. -/
def unitEnv : Env := { bareEnv [] with unitSemanticMatches := fun _ _ => some [portRow] }

/-- A row that one lane alone finds has the bits of that lane. -/
theorem semantic_masks_complete :
    MasksComplete (Step.ran (portSteps unitEnv)) ⟨[portRow], [⟨1, sourceMask [.unit, .semantic]⟩]⟩ := by
  have hrun : memoryGenerateNoted unitEnv bareLanes (text "port") (text "port") .general semanticPlan 8 rerankBuffer =
      some ⟨[portRow], [⟨1, sourceMask [.unit, .semantic]⟩]⟩ := by decide +kernel
  refine (memoryGenerateNoted_complete_iff hrun (by decide) (by decide)).2 ?_
  unfold FirstLaneHasAll
  decide +kernel

/-! ### The candidates are those of the recall -/

section Recall

variable {env : Env} {l : LaneLookups} {query norm : Text} {intent : Intent} {plan : Plan} {fetchLimit : ℤ}

theorem runLanes_out (max : ℕ) (s : Noted) (lanes : List Lane) :
    (runLanes max s lanes).out = collect max s.out (lanes.flatMap Lane.rows) := by
  induction lanes generalizing s with
  | nil => rfl
  | cons lane lanes ih =>
    rw [List.flatMap_cons, collect, List.foldl_append]
    exact ih (runLane max s lane)

/-- A step on the candidates alone. -/
def Step.collect (max : ℕ) (out : List Memory) (step : Step) : Option (List Memory) :=
  if step.needsRoom ∧ max ≤ out.length then some out
  else step.lanes.map fun lanes => Recall.collect max out (lanes.flatMap Lane.rows)

theorem runStep_out (max : ℕ) (s : Noted) (step : Step) :
    (runStep max s step).map Noted.out = step.collect max s.out := by
  unfold runStep Step.collect
  split_ifs
  · rfl
  · rw [Option.map_map]
    exact Option.map_congr fun lanes _ => runLanes_out max s lanes

theorem foldlM_runStep_out (max : ℕ) (s : Noted) (steps : List Step) :
    (steps.foldlM (runStep max) s).map Noted.out = steps.foldlM (Step.collect max) s.out := by
  induction steps generalizing s with
  | nil => rfl
  | cons step steps ih =>
    simp only [List.foldlM_cons, Option.bind_eq_bind, ← runStep_out, Option.map_bind, Option.bind_map]
    exact Option.bind_congr fun t _ => ih t

/-- A step that does not ask for room runs its lanes. -/
theorem collect_always (lanes : Option (List Lane)) (out : List Memory) :
    Step.collect max out ⟨false, lanes⟩ = lanes.map fun ls => collect max out (ls.flatMap Lane.rows) :=
  if_neg (by simp)

theorem collect_graphStep (query : Text) :
    Step.collect max [] ⟨false, some (if plan.route = .graph then graphLanes env l norm fetchLimit else [])⟩ =
      some (if plan.route = .graph then collect max [] ((env.withLanes l).graphMatches query norm fetchLimit)
        else []) := by
  rw [collect_always]
  split_ifs <;> simp [collect, Env.withLanes]

theorem collect_variantStep (sub : Text) (limit : ℤ) (out : List Memory) :
    Step.collect max out ⟨false, variantLanes env l query sub intent limit⟩ =
      memoryCollectVariantCandidates (env.withLanes l) query sub intent limit max out := by
  rw [collect_always]
  unfold memoryCollectVariantCandidates
  split_ifs with hempty
  · simp only [variantLanes, hempty, true_or, if_true, Option.map_some]
    rfl
  · simp [Env.withLanes, Option.map_map, Function.comp_def]

/-- A step that needs room, with its test as the recall has it. -/
theorem collect_needsRoom (lanes : Option (List Lane)) (out : List Memory) :
    Step.collect max out ⟨true, lanes⟩ = if out.length < max then Step.collect max out ⟨false, lanes⟩ else some out := by
  rw [collect_always]
  by_cases hroom : out.length < max
  · simp [Step.collect, hroom]
  · simp [Step.collect, hroom, not_lt.1 hroom]

theorem collect_semanticStep (lane : List Memory → Lane) (hlane : ∀ rows, (lane rows).rows = rows)
    (found : Option (List Memory)) (out : List Memory) :
    (semanticStep lane found).collect max out = collectSemantic max out found := by
  unfold semanticStep collectSemantic
  rw [collect_needsRoom, collect_always]
  simp [Option.map_map, Function.comp_def, hlane]

/-- The lanes for a query of negative polarity, and the last one. -/
theorem collect_lastStep (out rows : List Memory) :
    Step.collect max out ⟨false, some (negatedLanes env query fetchLimit ++ [.of .like rows])⟩ =
      some (collect max (collectNegated (env.withLanes l) query fetchLimit max out) rows) := by
  have hnegated : collectNegated (env.withLanes l) query fetchLimit max out =
      collect max out ((negatedLanes env query fetchLimit).flatMap Lane.rows) := by
    unfold negatedLanes collectNegated
    change (match env.negatedTerms query with
      | none => out
      | some terms => collect max (collect max out (env.negationFtsMatches terms fetchLimit))
          (env.vectorMatches terms fetchLimit)) = _
    cases env.negatedTerms query with
    | none => rfl
    | some terms => simp [Lane.of, collect]
  rw [collect_always, hnegated]
  simp [Lane.of, collect]

/-- The candidates are those of the recall, whose lookups are the lanes. -/
theorem memoryGenerateNoted_out :
    (memoryGenerateNoted env l query norm intent plan fetchLimit max).map Noted.out =
      memoryGenerateCandidates (env.withLanes l) query norm intent plan fetchLimit max := by
  rw [memoryGenerateNoted, foldlM_runStep_out]
  unfold generationSteps memoryGenerateCandidates
  by_cases hempty : query = [] ∨ norm = []
  · rw [if_pos hempty, if_pos hempty]
    rfl
  · rw [if_neg hempty, if_neg hempty]
    simp only [List.foldlM_append, List.foldlM_cons, List.foldlM_nil, List.foldlM_map, bind_pure,
      Option.bind_eq_bind, collect_graphStep query, Option.bind_some, collect_needsRoom, collect_variantStep,
      collect_lastStep (l := l), Option.bind_assoc]
    refine Option.bind_congr fun first _ => Option.bind_congr fun decomposed _ => ?_
    split_ifs
    · simp only [List.foldlM_cons, List.foldlM_nil, bind_pure, Option.bind_eq_bind,
        collect_semanticStep Lane.unitSemantic (fun _ => rfl), collect_semanticStep (Lane.of .semantic) (fun _ => rfl)]
      rfl
    · rfl

end Recall

end AimeeMemory.Recall
