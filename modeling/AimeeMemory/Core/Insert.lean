import AimeeMemory.Core.Gate
import Mathlib.Tactic.NormNum

/-!
# Insert and supersede

`memory_insert_ex` of `memory_core_crud.c` and `memory_supersede` of
`memory_advanced.c`, which call each other: an insert of a changed L2 fact supersedes
the row it finds, and a supersede inserts the new content under the old key. The depth
of that nesting is bounded by a fuel argument.

## What is proved

* `mergePlacement_spec`, `lookup_placement`: a merge goes to a row of the store, and the write
  of a placement changes no other row.
* `mergeOrInsert_store`: what the last stages of an insert leave.

## Honest scope

Cache invalidation, background embedding and the audit hook do not touch the store. The
maintenance pass that an insert may trigger is an operation of its own.
-/

namespace AimeeMemory.Core

/-- The arguments of `memory_insert_ex`. -/
structure InsertArgs where
  tier : Tier
  kind : Kind
  key : Text
  content : Text
  useCases : Text := []
  confidence : ℚ
  sessionId : Text
  deriving DecidableEq, Repr

/-- What a call returns, the store it leaves, and the row that `out` is read from. -/
structure Outcome where
  ok : Bool
  store : Store
  id : ℤ := 0

def failed (s : Store) : Outcome := { ok := false, store := s }

variable (pf : Platform) (db : Db2)

/-! ### The stages of an insert -/

/-- What the gate and the content scan make of the arguments. -/
structure Prepared where
  tier : Tier
  kind : Kind
  content : Text
  sensitivity : Label
  normKey : Text
  deriving DecidableEq, Repr

/-- The bytes that fit a content buffer. -/
def contentCap : ℕ := 2047

/-- The content that the gate lets through. -/
def gatedContent (result : GateResult) (content : Text) : Text :=
  match result with
  | .redact redactedContent => redactedContent
  | _ => content

/-- The write gate, the content scan and the key. `none` is a refusal. -/
def prepare (s : Store) (a : InsertArgs) : Option Prepared :=
  let verdict := memoryGateCheck pf db s a.tier a.key a.content a.confidence
  let tier := if verdict.result = .downgrade then .L0 else a.tier
  let kind := if verdict.result = .downgrade then .scratch else a.kind
  let normKey := (pf.normalizeKey a.key).take 511
  let content := gatedContent verdict.result a.content
  if verdict.result = .reject then none
  else if content = [] then some ⟨tier, kind, [], .normal, normKey⟩
  else
    let safeContent := content.take contentCap
    (pf.memoryScanContent safeContent).map fun sensitivity =>
      ⟨tier, kind, safeContent, sensitivity, normKey⟩

/-- Whether an existing content differs so much that it is kept as history. -/
def materiallyDifferent (key existing content : Text) : Bool :=
  existing ≠ [] ∧
    ((memoryIsSemanticProfileKey key ∧ !memorySemanticValueEquivalent pf existing content) ∨
      pf.isContradiction existing content ∨ pf.memoryTemporalValueConflict existing content ∨
      pf.trigramSimilarity existing content < 6 / 10)

/-- The row that an insert supersedes before anything else. -/
def supersededRow (s : Store) (a : InsertArgs) (p : Prepared) : Option ℤ :=
  if !pf.memorySkipPersistentSideEffects ∧ p.content ≠ [] ∧ a.confidence ≥ 8 / 10 ∧ p.tier = .L2 then
    match db.memoryLookupByKey s p.normKey with
    | some (id, existing) =>
      if existing.tier = .L2 ∧ existing.confidence ≥ 7 / 10 ∧
          materiallyDifferent pf a.key (existing.content.take contentCap) p.content then some id
      else none
    | none => none
  else none

/-- The merge of a content into a row, which strengthens its evidence by `bonus`. -/
def mergeUpdate (s : Store) (a : InsertArgs) (p : Prepared) (old : Row) (content : Text) (bonus : ℚ) :
    MergeUpdate :=
  let confidence := max a.confidence old.confidence
  let observationCount := (if old.observationCount > 0 then old.observationCount else 1) + 1
  let evidence := max old.evidenceStrength (memoryBaseEvidenceStrength pf p.normKey p.content confidence) + bonus
  let evidence := if observationCount ≥ 3 then evidence + 3 / 100 else evidence
  { content
    useCases := a.useCases
    confidence
    useCount := old.useCount + 1
    observationCount
    evidenceStrength := min 1 evidence
    salience := memoryContentSalience pf p.content
    surprise := max (pf.memoryContentSurprise s a.sessionId p.content) old.surprise
    updatedAt := pf.nowUtc }

/-- Where the content of an insert goes: the row as it will be, the write that makes it
so, and what the provenance says. -/
structure Placement where
  id : ℤ
  row : Row
  write : Write
  action : Text
  details : Text
  isNew : Bool := false
  deriving DecidableEq

/-- A merge into an existing row. -/
def Placement.merge (id : ℤ) (old : Row) (m : MergeUpdate) (details : Text) : Placement where
  id := id
  row := old.merge m
  write := .mergeUpdateEx id m
  action := text "merge"
  details := details

/-- The merge into the row with the same key. -/
def exactKeyMerge (s : Store) (a : InsertArgs) (p : Prepared) : Option Placement :=
  (db.memoryLookupMergeFields s p.normKey).map fun (id, old) =>
    let preserved := old.content.take contentCap
    let sameSemanticValue := (p.tier = .L2 ∧ memoryIsSemanticProfileKey a.key) ∧
      memorySemanticValueEquivalent pf preserved p.content
    let mergedContent := if sameSemanticValue ∧ preserved ≠ [] then preserved else p.content
    .merge id old (mergeUpdate pf s a p old mergedContent (4 / 100))
      (if sameSemanticValue then text "semantic profile dedupe" else text "exact key match")

/-- The first row of the kind whose key is nearly the same. -/
def nearDuplicate (s : Store) (p : Prepared) : Option (ℤ × Row) :=
  (db.memoryActiveKindDedupeCandidates s p.kind).find? fun c =>
    !memoryKeysHaveDifferentNumericTokens p.normKey c.2.key ∧
      pf.trigramSimilarity p.normKey c.2.key ≥ pf.dedupThreshold

/-- The merge into a near-duplicate. -/
def nearDuplicateMerge (s : Store) (a : InsertArgs) (p : Prepared) : Option Placement :=
  if pf.memorySkipPersistentSideEffects then none
  else
    (nearDuplicate pf db s p).bind fun (id, old) =>
      if id > 0 then
        some (.merge id old (mergeUpdate pf s a p old p.content (3 / 100)) (text "trigram near-duplicate"))
      else none

/-- The new row. -/
def freshInsert (s : Store) (a : InsertArgs) (p : Prepared) : Placement :=
  let row : Row :=
    { tier := p.tier
      kind := p.kind
      key := p.normKey
      content := p.content
      useCases := a.useCases
      confidence := a.confidence
      evidenceStrength := memoryBaseEvidenceStrength pf p.normKey p.content a.confidence
      salience := memoryContentSalience pf p.content
      surprise := pf.memoryContentSurprise s a.sessionId p.content
      sourceSession := a.sessionId
      sensitivity := p.sensitivity
      updatedAt := pf.nowUtc }
  { id := db.newId s
    row
    write := .rowInsertEx (db.newId s) row
    action := text "insert"
    details := []
    isNew := true }

/-- The merge that an insert makes, where it finds a row for it. -/
def mergePlacement (s : Store) (a : InsertArgs) (p : Prepared) : Option Placement :=
  (exactKeyMerge pf db s a p).or (nearDuplicateMerge pf db s a p)

/-- Exact-key merge, near-duplicate merge or new row, in this order. -/
def placement (s : Store) (a : InsertArgs) (p : Prepared) : Placement :=
  (mergePlacement pf db s a p).getD (freshInsert pf db s a p)

/-- The last stages of an insert. -/
def mergeOrInsert (s : Store) (a : InsertArgs) (p : Prepared) : Outcome :=
  let place := placement pf db s a p
  match db.exec s place.write with
  | none => failed s
  | some s =>
    let s := db.memoryRefreshDerivedMetadata s place.id p.normKey place.row.content
    let s := db.attempt s (.provenanceInsert ⟨place.id, a.sessionId, place.action, place.details⟩)
    let s := if place.isNew ∧ !pf.memorySkipPersistentSideEffects then
        db.memoryAutoTagWorkspace s place.id p.normKey p.content
      else s
    { ok := true, store := s, id := place.id }

/-! ### Supersede -/

/-- The key that history is kept under. -/
def versionedKey (key : Text) (version : ℕ) : Text :=
  (key ++ text "#v" ++ text (toString version)).take 559

/-- The write that moves a row to the next versioned key. -/
def renameWrite (s : Store) (id : ℤ) (old : Row) : Write :=
  .setVersionedKey id (versionedKey old.key (db.memoryCountVersions s old.key + 1)) pf.nowUtc

/-- The insert that a supersede makes. -/
def replacementArgs (old : Row) (content : Text) (confidence : ℚ) (sessionId : Text) : InsertArgs where
  tier := old.tier
  kind := old.kind
  key := old.key
  content := content
  confidence := confidence
  sessionId := sessionId

/-- The relation between a row and the one it replaces. -/
def supersedesLink (id oldId : ℤ) : Link := ⟨id, oldId, text "supersedes"⟩

def supersedeProvenance (id oldId : ℤ) (sessionId : Text) : Provenance :=
  ⟨id, sessionId, text "supersede", text "supersedes memory " ++ text (toString oldId)⟩

/-- What a supersede writes about the new row, if the caller asked for it. -/
def stampReplacement (out : Bool) (s : Store) (id oldId : ℤ) (sessionId : Text) : Store :=
  if out then
    let s := db.attempt s (.setValidFrom id pf.nowUtc)
    let s := db.attempt s (.provenanceInsert (supersedeProvenance id oldId sessionId))
    db.attempt s (.linkCreate (supersedesLink id oldId))
  else s

/-- `memory_supersede`, over the insert it calls. `out` says whether the caller passes a
place for the new row. -/
def supersedeWith (insert : Store → InsertArgs → Option Outcome) (out : Bool) (s : Store) (oldId : ℤ)
    (content : Text) (confidence : ℚ) (sessionId : Text) : Option Outcome :=
  if oldId ≤ 0 then some (failed s)
  else
    match db.memoryGet s oldId with
    | none => some (failed s)
    | some old =>
      match db.exec s (renameWrite pf db s oldId old) with
      | none => some (failed s)
      | some renamed =>
        (insert renamed (replacementArgs old content confidence sessionId)).map fun r =>
          if r.ok then { r with store := stampReplacement pf db out r.store r.id oldId sessionId }
          else failed r.store

/-- `memory_insert_ex`; `none` is fuel that ran out. -/
def memoryInsertEx (out : Bool) : ℕ → Store → InsertArgs → Option Outcome
  | 0, _, _ => none
  | n + 1, s, a =>
    match prepare pf db s a with
    | none => some (failed s)
    | some p =>
      match supersededRow pf db s a p with
      | none => some (mergeOrInsert pf db s a p)
      | some oldId =>
        (supersedeWith pf db (memoryInsertEx out n) out s oldId p.content a.confidence a.sessionId).map fun r =>
          -- a supersede that fails falls through to the merge stages
          if r.ok then r else mergeOrInsert pf db r.store a p

/-- `memory_supersede`. -/
def memorySupersede (out : Bool) (n : ℕ) : Store → ℤ → Text → ℚ → Text → Option Outcome :=
  supersedeWith pf db (memoryInsertEx pf db out n) out

/-! ### Update -/

/-- `memory_update_content`. -/
def memoryUpdateContent (s : Store) (id : ℤ) (content : Text) : Outcome :=
  if id ≤ 0 ∨ content = [] then failed s
  else
    match db.exec s (.updateContent id content) with
    | none => failed s
    | some t => { ok := (s.rows.lookup id).isSome, store := t, id }

/-! ### The last stages -/

variable {pf db} {s : Store} {a : InsertArgs} {p : Prepared}

/-- What the gate and the scan give: the tier that a downgrade lowers, the key cut to its buffer, and
the label of the content, if there is one. -/
theorem prepare_spec (h : prepare pf db s a = some p) :
    (p.tier = if (memoryGateCheck pf db s a.tier a.key a.content a.confidence).result = .downgrade then .L0 else a.tier) ∧
      p.normKey = (pf.normalizeKey a.key).take 511 ∧
      (p.content = [] ∧ p.sensitivity = .normal ∨
        p.content ≠ [] ∧ pf.memoryScanContent p.content = some p.sensitivity) := by
  simp only [prepare] at h
  generalize gatedContent _ _ = content at h
  by_cases hempty : content = []
  · simp only [hempty, if_true] at h
    split_ifs at h <;> cases h <;> simp_all
  · simp only [hempty, if_false, Option.ite_none_left_eq_some] at h
    obtain ⟨label, hlabel, rfl⟩ := Option.map_eq_some_iff.1 h.2
    refine ⟨rfl, rfl, .inr ⟨?_, hlabel⟩⟩
    simp [contentCap, hempty]

/-- A merge goes to a row of the store. -/
theorem mergePlacement_spec (h : db.Lawful) {place : Placement}
    (hp : mergePlacement pf db s a p = some place) : ∃ id old content bonus details,
      s.rows.lookup id = some old ∧
      (content = p.content ∨ p.tier = .L2 ∧ content = old.content.take contentCap) ∧
      0 < bonus ∧ place = .merge id old (mergeUpdate pf s a p old content bonus) details := by
  rcases Option.or_eq_some_iff.1 hp with hexact | ⟨-, hnear⟩
  · simp only [exactKeyMerge, Option.map_eq_some_iff] at hexact
    obtain ⟨⟨id, old⟩, hfound, rfl⟩ := hexact
    refine ⟨id, old, _, 4 / 100, _, (h.lookupMergeFields_row hfound).1, ?_, by norm_num, rfl⟩
    split_ifs with hsame
    · exact .inr ⟨hsame.1.1.1, rfl⟩
    · exact .inl rfl
  · simp only [nearDuplicateMerge] at hnear
    split_ifs at hnear
    obtain ⟨⟨id, old⟩, hfound, hplace⟩ := Option.bind_eq_some_iff.1 hnear
    split_ifs at hplace
    cases hplace
    exact ⟨id, old, p.content, 3 / 100, _, h.dedupeCandidates_row (List.mem_of_find?_eq_some hfound),
      .inl rfl, by norm_num, rfl⟩

/-- A placement at a row of the store is a merge into it: a new row has an id that no row has. -/
theorem placement_of_lookup (h : db.Lawful) {r : Row} (hr : s.rows.lookup (placement pf db s a p).id = some r) :
    ∃ content bonus details, 0 < bonus ∧
      placement pf db s a p = .merge (placement pf db s a p).id r (mergeUpdate pf s a p r content bonus) details := by
  cases hmerge : mergePlacement pf db s a p with
  | none =>
    have hnew : (placement pf db s a p).id = db.newId s := by simp [placement, hmerge, freshInsert]
    rw [hnew, h.newId_fresh] at hr
    cases hr
  | some place =>
    have hplace : placement pf db s a p = place := by rw [placement, hmerge, Option.getD_some]
    obtain ⟨id, old, content, bonus, details, hold, -, hbonus, rfl⟩ := mergePlacement_spec h hmerge
    rw [hplace] at hr ⊢
    obtain rfl : old = r := Option.some.inj (hold.symm.trans hr)
    exact ⟨content, bonus, details, hbonus, rfl⟩

/-- The write of a placement makes the row what the placement says, and changes no other. -/
theorem lookup_placement (h : db.Lawful) (s : Store) (a : InsertArgs) (p : Prepared) (i : ℤ) :
    (s.apply (placement pf db s a p).write).rows.lookup i =
      if i = (placement pf db s a p).id then some (placement pf db s a p).row else s.rows.lookup i := by
  rw [placement]
  cases hp : mergePlacement pf db s a p with
  | none =>
    simp only [Option.getD_none, freshInsert, Store.apply]
    by_cases hi : i = db.newId s
    · subst hi
      simp
    · simp [hi, AList.lookup_insert_ne hi]
  | some place =>
    obtain ⟨id, old, content, bonus, details, hrow, -, -, rfl⟩ := mergePlacement_spec h hp
    simp only [Option.getD_some, Placement.merge, Store.apply, Store.lookup_update]
    by_cases hi : i = id
    · subst hi
      simp [hrow]
    · simp [hi]

theorem placement_write_keeps (pf : Platform) (h : db.Lawful) (s : Store) (a : InsertArgs) (p : Prepared) :
    (s.apply (placement pf db s a p).write).links = s.links ∧
      (s.apply (placement pf db s a p).write).provenance = s.provenance := by
  rw [placement]
  cases hp : mergePlacement pf db s a p with
  | none => exact ⟨rfl, rfl⟩
  | some place =>
    obtain ⟨id, old, content, bonus, details, -, -, -, rfl⟩ := mergePlacement_spec h hp
    simp [Placement.merge, Store.apply]

theorem placement_action_ne (h : db.Lawful) (s : Store) (a : InsertArgs) (p : Prepared) :
    (placement pf db s a p).action ≠ text "supersede" := by
  rw [placement]
  cases hp : mergePlacement pf db s a p with
  | none =>
    simp only [Option.getD_none, freshInsert]
    decide +kernel
  | some place =>
    obtain ⟨id, old, content, bonus, details, -, -, -, rfl⟩ := mergePlacement_spec h hp
    simp only [Option.getD_some, Placement.merge]
    decide +kernel

/-- The store that the last stages leave, up to what hangs on the row. -/
theorem mergeOrInsert_store (h : db.Lawful) (s : Store) (a : InsertArgs) (p : Prepared)
    (hacc : db.accepts (placement pf db s a p).write) :
    let place := placement pf db s a p
    let r := mergeOrInsert pf db s a p
    let entry : Provenance := ⟨place.id, a.sessionId, place.action, place.details⟩
    r.ok = true ∧ r.id = place.id ∧ r.store.rows = (s.apply place.write).rows ∧ r.store.links = s.links ∧
      r.store.provenance = s.provenance ++ if db.accepts (.provenanceInsert entry) then [entry] else [] := by
  obtain ⟨hlinks, hprov⟩ := placement_write_keeps pf h s a p
  have hrefresh := h.refresh_keeps (s.apply (placement pf db s a p).write) (placement pf db s a p).id
    p.normKey (placement pf db s a p).row.content
  have htag (c : Prop) [Decidable c] (t : Store) (id : ℤ) :
      (if c then db.memoryAutoTagWorkspace t id p.normKey p.content else t).Keeps t := by
    split_ifs
    · exact h.autoTag_keeps ..
    · exact ⟨rfl, rfl, rfl⟩
  simp only [mergeOrInsert, h.exec_eq, hacc, if_true, h.attempt_provenanceInsert]
  refine ⟨trivial, trivial, ?_, ?_, ?_⟩
  · rw [(htag _ _ _).rows, hrefresh.rows]
  · rw [(htag _ _ _).links, hrefresh.links, hlinks]
  · rw [(htag _ _ _).provenance, hrefresh.provenance, hprov]

theorem mergeOrInsert_refused (h : db.Lawful) (s : Store) (a : InsertArgs) (p : Prepared)
    (hacc : db.accepts (placement pf db s a p).write = false) : mergeOrInsert pf db s a p = failed s := by
  simp [mergeOrInsert, h.exec_eq, hacc]

end AimeeMemory.Core
