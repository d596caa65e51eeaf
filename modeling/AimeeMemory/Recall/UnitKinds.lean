import AimeeMemory.Recall.Answer
import AimeeMemory.Recall.RelativeDates

/-!
# The kinds of a memory's units

`memory_refresh_units_graph` of `memory_core_helpers_b.c` makes the units of a memory anew: its
summaries, events, temporal refs, entities and chunks, and the memory itself as an episode. A unit
has a kind, which a query boosts or not. Where nothing else decides, it is episodic if the memory
has events or temporal refs; the lists are read in turn, and the counters say what came before.

## What is proved

* `memoryRefreshUnitsGraph_rows`: the units that are stored, list by list.
* **`unitKinds_iff`**: the summaries, entities and chunks have the kind that the memory's own units
  call for, exactly where the memory's kind decides, or no summary is stored, or neither an event
  nor a temporal ref is.
* **`summary_read_first`**: a summary that is semantic beside an event.

## Honest scope

What the database does with a unit depends on the unit alone. The vectors of the units that were
there before are no part of the model.
-/

namespace AimeeMemory.Recall

open AimeeMemory.Core AimeeMemory.Lib

/-! ### Kinds -/

/-- `memory_unit_kind_t`. -/
inductive UnitKind where
  | episodic
  | semantic
  | procedural
  deriving DecidableEq, Repr

/-- `memory_unit_kind_name`. -/
def memoryUnitKindName : UnitKind → Text
  | .episodic => text "episodic"
  | .semantic => text "semantic"
  | .procedural => text "procedural"

inductive UnitType where
  | summary
  | event
  | temporal
  | entity
  | chunk
  | episode
  deriving DecidableEq, Repr

/-- `memory_unit_kind_for_memory`. -/
def memoryUnitKindForMemory (memoryKind : Text) (unitType : UnitType) (hasEvents hasTemporal : Bool) : UnitKind :=
  if memoryKind = text "preference" ∨ memoryKind = text "procedure" ∨ memoryKind = text "policy" ∨
      memoryKind = text "workflow" then
    .procedural
  else if unitType = .event ∨ unitType = .temporal ∨ unitType = .episode then .episodic
  else if memoryKind = text "episode" then .episodic
  else if hasEvents ∨ hasTemporal then .episodic
  else .semantic

/-- `memory_unit_kind_from_explicit`. -/
def memoryUnitKindFromExplicit (explicitKind : Text) : Option UnitKind :=
  if explicitKind = text "episodic" then some .episodic
  else if explicitKind = text "semantic" then some .semantic
  else if explicitKind = text "procedural" then some .procedural
  else none

/-- `memory_unit_kind_resolve`. -/
def memoryUnitKindResolve (explicitKind memoryKind : Text) (unitType : UnitType) (hasEvents hasTemporal : Bool) : UnitKind :=
  match memoryUnitKindFromExplicit explicitKind with
  | some kind => kind
  | none => memoryUnitKindForMemory memoryKind unitType hasEvents hasTemporal

/-- `memory_unit_kind_intent_boost`. -/
def memoryUnitKindIntentBoost (memoryKind : Text) (intent : Intent) : ℚ :=
  match intent with
  | .temporal => if memoryKind = text "episodic" then 18 / 100 else if memoryKind = text "semantic" then -6 / 100 else 0
  | .entity | .general =>
    if memoryKind = text "semantic" then 12 / 100 else if memoryKind = text "episodic" then -3 / 100 else 0
  | .procedural => if memoryKind = text "procedural" then 22 / 100 else -8 / 100

/-! ### Units -/

/-- A row of `memory_units`. -/
structure UnitRow where
  unitType : UnitType
  memoryKind : UnitKind
  unitKey : Text
  unitText : Text
  weight : ℚ
  deriving DecidableEq, Repr

/-- What is stored of a memory already. -/
structure UnitSource where
  key : Option Text
  content : Text
  sourceSession : Text := []
  memoryKind : Text
  explicitKind : Text := []
  /-- Scope and text. -/
  summaries : List (Text × Text) := []
  events : List EventFrame := []
  /-- Granularity, key and weight. -/
  temporals : List (Text × Text × ℚ) := []
  /-- Role, name and weight. -/
  entities : List (Text × Text × ℚ) := []
  /-- Index and text. -/
  chunks : List (ℤ × Text) := []
  /-- The episode units of the session's other memories, and of those that this one supersedes. -/
  sessionEpisodes : List ℤ := []
  supersededEpisodes : List ℤ := []

/-- What the units are written with. -/
structure UnitEnv where
  normalizeKey : Text → Text
  accepts : UnitRow → Bool
  /-- The id of the next unit, behind those that are stored. -/
  newId : List UnitRow → ℕ+

/-- The row that `memory_unit_insert` asks the database for. -/
def unitRow (env : UnitEnv) (unitType : UnitType) (kind : UnitKind) (key unitText : Text) (weight : ℚ) : Option UnitRow :=
  let normText := (env.normalizeKey unitText).take 511
  if unitText = [] ∨ normText = [] then none
  else some ⟨unitType, kind, (env.normalizeKey key).take 255, normText, weight⟩

/-- `memory_unit_insert`: the id, zero where nothing is stored, and the units. -/
def memoryUnitInsert (env : UnitEnv) (rows : List UnitRow) (unitType : UnitType) (kind : UnitKind) (key unitText : Text)
    (weight : ℚ) : ℤ × List UnitRow :=
  match unitRow env unitType kind key unitText weight with
  | some row => if env.accepts row then (env.newId rows, rows ++ [row]) else (0, rows)
  | none => (0, rows)

/-- The insert of a list: the ids that are positive, and the units. -/
def insertUnits (env : UnitEnv) (unitType : UnitType) (kind : UnitKind) (items : List (Text × Text × ℚ)) (rows : List UnitRow) :
    List ℤ × List UnitRow :=
  items.foldl (fun done item =>
    let inserted := memoryUnitInsert env done.2 unitType kind item.1 item.2.1 item.2.2
    (if 0 < inserted.1 then done.1 ++ [inserted.1] else done.1, inserted.2)) ([], rows)

/-- A row of `memory_unit_edges`. -/
structure UnitEdge where
  source : ℤ
  target : ℤ
  edgeType : Text
  weight : ℚ
  deriving DecidableEq, Repr

structure UnitsGraph where
  rows : List UnitRow
  edges : List UnitEdge

/-- The items of each list: key, text and weight of their units. The lists have room for eight and for sixteen. -/
def summaryItems (m : UnitSource) : List (Text × Text × ℚ) :=
  (m.summaries.take 8).map fun s => (if s.1 = [] then text "headline" else s.1, s.2, 3)

def eventItems (m : UnitSource) : List (Text × Text × ℚ) :=
  (m.events.take 16).map fun e =>
    ((e.actor ++ text " " ++ e.action).take 255,
      (e.actor ++ text " " ++ e.action ++ text " " ++ e.object ++ text " " ++ e.location ++ text " " ++ e.eventTime).take 511,
      28 / 10)

def temporalItems (m : UnitSource) : List (Text × Text × ℚ) :=
  (m.temporals.take 16).map fun t => (if t.1 = [] then text "time" else t.1, t.2.1, 16 / 10 + t.2.2 * (4 / 10))

def entityItems (m : UnitSource) : List (Text × Text × ℚ) :=
  (m.entities.take 16).map fun e => (if e.1 = [] then text "mention" else e.1, e.2.1, 14 / 10 + e.2.2 * (3 / 10))

def chunkItems (m : UnitSource) : List (Text × Text × ℚ) :=
  (m.chunks.take 16).map fun c => ((text "chunk_" ++ formatInt 1 c.1).take 31, c.2, 12 / 10)

/-- The key, where no summary was stored. -/
def fallbackItems (m : UnitSource) : List (Text × Text × ℚ) :=
  match m.key with
  | some key => if key = [] then [] else [(text "fallback", key, 2)]
  | none => []

def episodeItems (m : UnitSource) : List (Text × Text × ℚ) := [(m.key.getD (text "episode"), m.content, 18 / 10)]

/-- The edges between the units. -/
def unitEdges (m : UnitSource) (summaries events temporals entities chunks episodes : List ℤ) : List UnitEdge :=
  (summaries.flatMap fun s => events.map fun e => ⟨s, e, text "contains", 1⟩) ++
    (summaries.flatMap fun s => chunks.map fun c => ⟨s, c, text "contains", 8 / 10⟩) ++
    (events.flatMap fun e => (temporals.map fun t => ⟨e, t, text "anchored_by", 11 / 10⟩) ++
      (entities.map fun n => ⟨e, n, text "mentions", 1⟩) ++ chunks.map fun c => ⟨c, e, text "supports", 7 / 10⟩) ++
    (episodes.flatMap fun p => (summaries.map fun s => ⟨p, s, text "same_episode", 1⟩) ++
      (events.map fun e => ⟨p, e, text "same_episode", 1⟩) ++ chunks.map fun c => ⟨p, c, text "same_episode", 8 / 10⟩) ++
    (if m.sourceSession = [] then []
      else episodes.flatMap fun p => (m.sessionEpisodes.take 64).flatMap fun o =>
        [⟨p, o, text "same_episode", 9 / 10⟩, ⟨o, p, text "same_episode", 9 / 10⟩]) ++
    episodes.flatMap fun p => (m.supersededEpisodes.take 64).map fun o => ⟨p, o, text "supersedes", 12 / 10⟩

/-- `memory_refresh_units_graph`. The counters are those of the lists that were read before. -/
def memoryRefreshUnitsGraph (env : UnitEnv) (m : UnitSource) : UnitsGraph :=
  let kind (unitType : UnitType) (eventCount temporalCount : ℕ) :=
    memoryUnitKindResolve m.explicitKind m.memoryKind unitType (0 < eventCount) (0 < temporalCount)
  let listed := insertUnits env .summary (kind .summary 0 0) (summaryItems m) []
  let summaries :=
    if listed.1 = [] then insertUnits env .summary (kind .summary 0 0) (fallbackItems m) listed.2 else listed
  let events := insertUnits env .event .episodic (eventItems m) summaries.2
  let temporals := insertUnits env .temporal .episodic (temporalItems m) events.2
  let entities := insertUnits env .entity (kind .entity events.1.length temporals.1.length) (entityItems m) temporals.2
  let chunks := insertUnits env .chunk (kind .chunk events.1.length temporals.1.length) (chunkItems m) entities.2
  let episodes := insertUnits env .episode .episodic (episodeItems m) chunks.2
  { rows := episodes.2
    edges := unitEdges m summaries.1 events.1 temporals.1 entities.1 chunks.1 episodes.1 }

/-! ### What is claimed of the kinds -/

/-- A unit whose kind is told from its memory. -/
def UnitRow.isInferred (u : UnitRow) : Bool := u.unitType = .summary ∨ u.unitType = .entity ∨ u.unitType = .chunk

/-- The kinds of the units do not depend on which list was read before: they are those that the events and the temporal
refs among the units call for. -/
def KindsFit (m : UnitSource) (rows : List UnitRow) : Prop :=
  ∀ u ∈ rows, u.isInferred →
    u.memoryKind = memoryUnitKindForMemory m.memoryKind u.unitType (rows.any (·.unitType = .event))
      (rows.any (·.unitType = .temporal))

/-- The row of an item, where the database takes it. -/
def takenRow (env : UnitEnv) (unitType : UnitType) (kind : UnitKind) (item : Text × Text × ℚ) : Option UnitRow :=
  (unitRow env unitType kind item.1 item.2.1 item.2.2).filter env.accepts

/-- The rows of a list that the database takes. -/
def storedRows (env : UnitEnv) (unitType : UnitType) (kind : UnitKind) (items : List (Text × Text × ℚ)) : List UnitRow :=
  items.filterMap (takenRow env unitType kind)

/-- The kind of a summary: the events and the temporal refs have not been read. -/
def summaryKind (m : UnitSource) : UnitKind := memoryUnitKindResolve m.explicitKind m.memoryKind .summary false false

/-- The summaries that are stored, or the key in their place. -/
def summaryRows (env : UnitEnv) (m : UnitSource) : List UnitRow :=
  if storedRows env .summary (summaryKind m) (summaryItems m) = [] then
    storedRows env .summary (summaryKind m) (fallbackItems m)
  else storedRows env .summary (summaryKind m) (summaryItems m)

def eventRows (env : UnitEnv) (m : UnitSource) : List UnitRow := storedRows env .event .episodic (eventItems m)

def temporalRows (env : UnitEnv) (m : UnitSource) : List UnitRow := storedRows env .temporal .episodic (temporalItems m)

/-- The kind of an entity or a chunk. -/
def laterKind (env : UnitEnv) (m : UnitSource) (unitType : UnitType) : UnitKind :=
  memoryUnitKindResolve m.explicitKind m.memoryKind unitType (eventRows env m ≠ []) (temporalRows env m ≠ [])

/-- The kind of the memory decides on the kinds of its units. -/
def KindDecides (memoryKind : Text) : Prop :=
  memoryKind ∈ ["preference", "procedure", "policy", "workflow", "episode"].map text

/-- The kind of the memory decides, or no summary is stored, or no event and no temporal ref is. -/
def KindsAgree (env : UnitEnv) (m : UnitSource) : Prop :=
  KindDecides m.memoryKind ∨ summaryRows env m = [] ∨ eventRows env m = [] ∧ temporalRows env m = []

variable {env : UnitEnv} {m : UnitSource} {unitType : UnitType} {kind : UnitKind} {rows : List UnitRow} {u : UnitRow}

/-! ### The rows that are stored -/

/-- A row that the database takes is stored, with a positive id. -/
theorem memoryUnitInsert_eq (rows : List UnitRow) (item : Text × Text × ℚ) :
    memoryUnitInsert env rows unitType kind item.1 item.2.1 item.2.2 =
      match takenRow env unitType kind item with
      | some row => ((env.newId rows : ℤ), rows ++ [row])
      | none => (0, rows) := by
  rw [memoryUnitInsert, takenRow]
  cases unitRow env unitType kind item.1 item.2.1 item.2.2 with
  | none => rfl
  | some row =>
    simp only [Option.filter]
    split_ifs <;> rfl

theorem insertUnits_concat (items : List (Text × Text × ℚ)) (item : Text × Text × ℚ) (rows : List UnitRow) :
    insertUnits env unitType kind (items ++ [item]) rows =
      match takenRow env unitType kind item with
      | some row =>
        ((insertUnits env unitType kind items rows).1 ++ [(env.newId (insertUnits env unitType kind items rows).2 : ℤ)],
          (insertUnits env unitType kind items rows).2 ++ [row])
      | none => insertUnits env unitType kind items rows := by
  rw [insertUnits, List.foldl_append, List.foldl_cons, List.foldl_nil, ← insertUnits, memoryUnitInsert_eq]
  cases takenRow env unitType kind item with
  | none => rfl
  | some row =>
    have hpos : (0 : ℤ) < env.newId (insertUnits env unitType kind items rows).2 := Int.natCast_pos.2 (PNat.pos _)
    simp only [if_pos hpos]

/-- A list is stored behind what was there, with an id for each row. -/
theorem insertUnits_spec (items : List (Text × Text × ℚ)) (rows : List UnitRow) :
    (insertUnits env unitType kind items rows).2 = rows ++ storedRows env unitType kind items ∧
      (insertUnits env unitType kind items rows).1.length = (storedRows env unitType kind items).length := by
  induction items using List.reverseRecOn with
  | nil => simp [insertUnits, storedRows]
  | append_singleton items item ih =>
    obtain ⟨hrows, hids⟩ := ih
    rw [insertUnits_concat, storedRows, List.filterMap_append, ← storedRows]
    cases hrow : takenRow env unitType kind item with
    | none => simpa [hrow] using ⟨hrows, hids⟩
    | some row => simp [hrow, hrows, hids]

theorem mem_storedRows {items : List (Text × Text × ℚ)} (h : u ∈ storedRows env unitType kind items) :
    u.unitType = unitType ∧ u.memoryKind = kind := by
  obtain ⟨item, -, hrow⟩ := List.mem_filterMap.1 h
  obtain ⟨hrow, -⟩ := Option.filter_eq_some_iff.1 hrow
  simp only [unitRow] at hrow
  split_ifs at hrow
  obtain rfl := Option.some.inj hrow
  exact ⟨rfl, rfl⟩

theorem insertUnits_fst_eq_nil {items : List (Text × Text × ℚ)} {rows : List UnitRow} :
    (insertUnits env unitType kind items rows).1 = [] ↔ storedRows env unitType kind items = [] := by
  rw [← List.length_eq_zero_iff, (insertUnits_spec items rows).2, List.length_eq_zero_iff]

theorem length_pos_iff_ne_nil {items : List (Text × Text × ℚ)} {rows : List UnitRow} :
    0 < (insertUnits env unitType kind items rows).1.length ↔ storedRows env unitType kind items ≠ [] := by
  rw [(insertUnits_spec items rows).2, List.length_pos_iff]

/-- **The units that are stored**, list by list. -/
theorem memoryRefreshUnitsGraph_rows (env : UnitEnv) (m : UnitSource) :
    (memoryRefreshUnitsGraph env m).rows =
      summaryRows env m ++ eventRows env m ++ temporalRows env m ++
        storedRows env .entity (laterKind env m .entity) (entityItems m) ++
        storedRows env .chunk (laterKind env m .chunk) (chunkItems m) ++ storedRows env .episode .episodic (episodeItems m) := by
  have hsummary : (if (insertUnits env .summary (summaryKind m) (summaryItems m) []).1 = [] then
      insertUnits env .summary (summaryKind m) (fallbackItems m) (insertUnits env .summary (summaryKind m) (summaryItems m) []).2
      else insertUnits env .summary (summaryKind m) (summaryItems m) []).2 = summaryRows env m := by
    by_cases hnone : storedRows env .summary (summaryKind m) (summaryItems m) = []
    · rw [if_pos (insertUnits_fst_eq_nil.2 hnone), (insertUnits_spec _ _).1, (insertUnits_spec _ _).1, summaryRows, if_pos hnone,
        hnone]
      rfl
    · rw [if_neg (insertUnits_fst_eq_nil.not.2 hnone), (insertUnits_spec _ _).1, summaryRows, if_neg hnone]
      rfl
  have hzero : memoryUnitKindResolve m.explicitKind m.memoryKind .summary (decide (0 < 0)) (decide (0 < 0)) = summaryKind m := rfl
  simp only [memoryRefreshUnitsGraph, hzero, length_pos_iff_ne_nil]
  rw [(insertUnits_spec (episodeItems m) _).1, (insertUnits_spec (chunkItems m) _).1, (insertUnits_spec (entityItems m) _).1,
    (insertUnits_spec (temporalItems m) _).1, (insertUnits_spec (eventItems m) _).1, hsummary]
  rfl

/-! ### Kinds of the stored units -/

/-- A memory's kind that decides leaves no choice. -/
theorem memoryUnitKindForMemory_of_decides {memoryKind : Text} (h : KindDecides memoryKind) (unitType : UnitType)
    (hasEvents hasTemporal hasEvents' hasTemporal' : Bool) :
    memoryUnitKindForMemory memoryKind unitType hasEvents hasTemporal =
      memoryUnitKindForMemory memoryKind unitType hasEvents' hasTemporal' := by
  simp only [KindDecides, List.map_cons, List.map_nil, List.mem_cons, List.not_mem_nil, or_false] at h
  simp only [memoryUnitKindForMemory]
  rcases h with h | h | h | h | h <;> simp [h]

/-- Where it does not, a unit whose kind is told from its memory is episodic or semantic. -/
theorem memoryUnitKindForMemory_of_not_decides {memoryKind : Text} (h : ¬ KindDecides memoryKind) (hasEvents hasTemporal : Bool) :
    memoryUnitKindForMemory memoryKind .summary hasEvents hasTemporal = if hasEvents ∨ hasTemporal then .episodic else .semantic := by
  simp only [KindDecides, List.map_cons, List.map_nil, List.mem_cons, List.not_mem_nil, or_false, not_or] at h
  simp [memoryUnitKindForMemory, h]

theorem memoryUnitKindResolve_none {explicitKind : Text} (h : memoryUnitKindFromExplicit explicitKind = none) (memoryKind : Text)
    (unitType : UnitType) (hasEvents hasTemporal : Bool) :
    memoryUnitKindResolve explicitKind memoryKind unitType hasEvents hasTemporal =
      memoryUnitKindForMemory memoryKind unitType hasEvents hasTemporal := by
  rw [memoryUnitKindResolve, h]

theorem mem_summaryRows (h : u ∈ summaryRows env m) : u.unitType = .summary ∧ u.memoryKind = summaryKind m := by
  rw [summaryRows] at h
  split_ifs at h <;> exact mem_storedRows h

/-- The types and kinds of the units that are stored. -/
theorem mem_rows (h : u ∈ (memoryRefreshUnitsGraph env m).rows) :
    u ∈ summaryRows env m ∧ u.unitType = .summary ∧ u.memoryKind = summaryKind m ∨ u ∈ eventRows env m ∧ u.unitType = .event ∨
      u ∈ temporalRows env m ∧ u.unitType = .temporal ∨
      (u.unitType = .entity ∨ u.unitType = .chunk) ∧ u.memoryKind = laterKind env m u.unitType ∨ u.unitType = .episode := by
  rw [memoryRefreshUnitsGraph_rows] at h
  simp only [List.mem_append] at h
  rcases h with ((((h | h) | h) | h) | h) | h
  · exact .inl ⟨h, mem_summaryRows h⟩
  · exact .inr (.inl ⟨h, (mem_storedRows h).1⟩)
  · exact .inr (.inr (.inl ⟨h, (mem_storedRows h).1⟩))
  · obtain ⟨htype, hkind⟩ := mem_storedRows h
    exact .inr (.inr (.inr (.inl ⟨.inl htype, by rw [hkind, htype]⟩)))
  · obtain ⟨htype, hkind⟩ := mem_storedRows h
    exact .inr (.inr (.inr (.inl ⟨.inr htype, by rw [hkind, htype]⟩)))
  · exact .inr (.inr (.inr (.inr (mem_storedRows h).1)))

/-- A type is among the units where its list has a row. -/
theorem any_type {stored : List UnitRow} (hstored : ∀ u ∈ stored, u ∈ rows ∧ u.unitType = unitType)
    (hback : ∀ u ∈ rows, u.unitType = unitType → u ∈ stored) :
    rows.any (·.unitType = unitType) = decide (stored ≠ []) := by
  rw [Bool.eq_iff_iff, List.any_eq_true, decide_eq_true_eq]
  constructor
  · rintro ⟨u, hu, htype⟩
    exact List.ne_nil_of_mem (hback u hu (of_decide_eq_true htype))
  · intro hne
    obtain ⟨u, hu⟩ := List.exists_mem_of_ne_nil _ hne
    exact ⟨u, (hstored u hu).1, decide_eq_true (hstored u hu).2⟩

theorem any_event (env : UnitEnv) (m : UnitSource) :
    (memoryRefreshUnitsGraph env m).rows.any (·.unitType = .event) = decide (eventRows env m ≠ []) := by
  refine any_type (fun u hu => ⟨?_, (mem_storedRows hu).1⟩) fun u hu htype => ?_
  · rw [memoryRefreshUnitsGraph_rows]
    simp [hu]
  · have hrows := mem_rows hu
    rw [htype] at hrows
    simpa using hrows

theorem any_temporal (env : UnitEnv) (m : UnitSource) :
    (memoryRefreshUnitsGraph env m).rows.any (·.unitType = .temporal) = decide (temporalRows env m ≠ []) := by
  refine any_type (fun u hu => ⟨?_, (mem_storedRows hu).1⟩) fun u hu htype => ?_
  · rw [memoryRefreshUnitsGraph_rows]
    simp [hu]
  · have hrows := mem_rows hu
    rw [htype] at hrows
    simpa using hrows

/-- The summaries have the kind that the units call for where the kinds agree. -/
theorem summaryKind_of_agree (h : memoryUnitKindFromExplicit m.explicitKind = none) (hagree : KindsAgree env m)
    (hsome : summaryRows env m ≠ []) : summaryKind m =
      memoryUnitKindForMemory m.memoryKind .summary (eventRows env m ≠ []) (temporalRows env m ≠ []) := by
  rw [summaryKind, memoryUnitKindResolve_none h]
  rcases hagree with hdecides | hnone | ⟨hevents, htemporals⟩
  · exact memoryUnitKindForMemory_of_decides hdecides ..
  · exact absurd hnone hsome
  · rw [hevents, htemporals]
    rfl

/-- **Kinds do not depend on the order of reading**, in a memory without an explicit kind, exactly where they agree. -/
theorem unitKinds_iff (env : UnitEnv) (m : UnitSource) (h : memoryUnitKindFromExplicit m.explicitKind = none) :
    KindsFit m (memoryRefreshUnitsGraph env m).rows ↔ KindsAgree env m := by
  rw [KindsFit, any_event, any_temporal]
  constructor
  · intro hfit
    by_contra hnot
    obtain ⟨hdecides, hrest⟩ := not_or.1 hnot
    obtain ⟨hsome, hlists⟩ := not_or.1 hrest
    -- a summary was read before the events and the temporal refs
    obtain ⟨u, hu⟩ := List.exists_mem_of_ne_nil _ hsome
    have hmem : u ∈ (memoryRefreshUnitsGraph env m).rows := by
      rw [memoryRefreshUnitsGraph_rows]
      simp [hu]
    obtain ⟨htype, hkind⟩ := mem_summaryRows hu
    have hkindFit := hfit u hmem (by simp [UnitRow.isInferred, htype])
    rw [htype, hkind, summaryKind, memoryUnitKindResolve_none h, memoryUnitKindForMemory_of_not_decides hdecides,
      memoryUnitKindForMemory_of_not_decides hdecides] at hkindFit
    simp [Classical.not_and_iff_not_or_not.1 hlists] at hkindFit
  · intro hagree u hu hinferred
    rcases mem_rows hu with ⟨hsummary, htype, hkind⟩ | ⟨-, htype⟩ | ⟨-, htype⟩ | ⟨-, hkind⟩ | htype
    · rw [hkind, htype]
      exact summaryKind_of_agree h hagree (List.ne_nil_of_mem hsummary)
    · simp [UnitRow.isInferred, htype] at hinferred
    · simp [UnitRow.isInferred, htype] at hinferred
    · rw [hkind, laterKind, memoryUnitKindResolve_none h]
    · simp [UnitRow.isInferred, htype] at hinferred

/-- Units whose kind is told from the memory are boosted alike where the kinds fit. -/
theorem KindsFit.boost (hfit : KindsFit m rows) {v : UnitRow} (hu : u ∈ rows) (hv : v ∈ rows) (hinferred : u.isInferred)
    (hinferred' : v.isInferred) (intent : Intent) :
    memoryUnitKindIntentBoost (memoryUnitKindName u.memoryKind) intent =
      memoryUnitKindIntentBoost (memoryUnitKindName v.memoryKind) intent := by
  have hsame {unitType : UnitType} (h : unitType = .summary ∨ unitType = .entity ∨ unitType = .chunk)
      (hasEvents hasTemporal : Bool) : memoryUnitKindForMemory m.memoryKind unitType hasEvents hasTemporal =
        memoryUnitKindForMemory m.memoryKind .summary hasEvents hasTemporal := by
    rcases h with rfl | rfl | rfl <;> rfl
  rw [hfit u hu hinferred, hfit v hv hinferred', hsame (of_decide_eq_true hinferred), hsame (of_decide_eq_true hinferred')]

/-! ### A meeting -/

/-- A database that takes every unit. -/
def openUnits : UnitEnv where
  normalizeKey := id
  accepts _ := true
  newId rows := rows.length.succPNat

/-- A fact with a summary, and what happened. -/
def meeting (events : List EventFrame) : UnitSource where
  key := some (text "meeting")
  content := text "ann met bob"
  memoryKind := text "fact"
  summaries := [(text "headline", text "a meeting")]
  events := events
  chunks := [(0, text "ann met bob")]

/-- Without events all units are semantic. -/
theorem meeting_kinds : KindsFit (meeting []) (memoryRefreshUnitsGraph openUnits (meeting [])).rows :=
  (unitKinds_iff openUnits (meeting []) rfl).2 (.inr (.inr ⟨rfl, rfl⟩))

/-- The summary is semantic beside the event, and the chunk is episodic. -/
theorem summary_read_first : ¬ KindsFit (meeting [⟨text "ann", text "met", text "bob", [], []⟩])
    (memoryRefreshUnitsGraph openUnits (meeting [⟨text "ann", text "met", text "bob", [], []⟩])).rows := by
  intro hfit
  have hboost := hfit.boost (u := ⟨.summary, .semantic, text "headline", text "a meeting", 3⟩)
    (v := ⟨.chunk, .episodic, text "chunk_0", text "ann met bob", 12 / 10⟩) (by decide +kernel) (by decide +kernel) rfl rfl .temporal
  revert hboost
  decide +kernel

end AimeeMemory.Recall
