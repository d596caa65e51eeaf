import AimeeMemory.Core.Writers
import AimeeMemory.Core.Merges

/-!
# Summaries of sessions

`memory_improve_summarise` of `memory_improve.c` writes an L2 observation for each cluster of
low-confidence facts and marks the facts of its session as merged into the row that the insert
returned. The insert may have refused the observation, lowered its tier, or written it into a
row that was there: the loop looks at its return code alone.

The store has no column for the marks, so a run carries them beside it.

## What is proved

* `summariseStep_cases`: what one cluster does to the rows and to the marks.
* **`summaries_kept`**: where each observation lands in a row of its own or changes none, every marked row points to
  the summary of its session, and no step touches the summary of another.
* **`likeSummary_shared`**: a session whose key is like that of another takes the row of its summary.
-/

namespace AimeeMemory.Core

open AimeeMemory.Lib

variable {env : WriterEnv} {s : Store} {maxConfidence : ℚ} {c : SummaryCluster}

/-! ### The run with its marks -/

/-- The key of a session's summary, as the insert writes it. -/
def summaryKey (env : WriterEnv) (sessionId : Text) : Text :=
  (env.pf.normalizeKey ((text "summary:" ++ sessionId).take 255)).take 511

/-- A row that holds the observation of a cluster, under the key of its session. -/
structure Row.IsSummary (env : WriterEnv) (c : SummaryCluster) (r : Row) : Prop where
  tier : r.tier = .L2
  key : r.key = summaryKey env c.sessionId
  content : r.content = (summaryArgs c).content

/-- A summary of a session. -/
def Row.SummaryOf (env : WriterEnv) (sessionId : Text) (r : Row) : Prop :=
  ∃ c : SummaryCluster, c.sessionId = sessionId ∧ r.IsSummary env c

/-- The rows that `db2_memory_mark_merged_into` marks. -/
def Row.IsMarked (sessionId : Text) (maxConfidence : ℚ) (r : Row) : Prop :=
  r.tier = .L1 ∧ r.sourceSession = sessionId ∧ r.confidence ≤ maxConfidence

instance (sessionId : Text) (r : Row) : Decidable (r.IsMarked sessionId maxConfidence) :=
  inferInstanceAs (Decidable (_ ∧ _ ∧ _))

/-- The store, and the row that each marked row was merged into. -/
structure Summarising where
  store : Store
  marks : ℤ → Option ℤ := fun _ => none

/-- The marks that a summary adds. -/
def markRows (s : Store) (marks : ℤ → Option ℤ) (id : ℤ) (sessionId : Text) (maxConfidence : ℚ) : ℤ → Option ℤ :=
  fun i => if (s.rows.lookup i).any fun r => r.IsMarked sessionId maxConfidence then some id else marks i

/-- One cluster of `memory_improve_summarise`, with the marks. -/
def summariseStep (env : WriterEnv) (maxConfidence : ℚ) (t : Summarising) (c : SummaryCluster) : Summarising :=
  if c.sessionId = [] then t
  else
    let r := memoryInsert env true t.store (summaryArgs c)
    if r.ok then
      { store := env.markMergedInto r.store r.id c.sessionId maxConfidence
        marks := markRows r.store t.marks r.id c.sessionId maxConfidence }
    else { t with store := r.store }

/-- The run has the store of `memory_improve_summarise`. -/
theorem memoryImproveSummarise_eq (s : Store) (minClusterSize : ℤ) (maxConfidence : ℚ) :
    let least := if minClusterSize ≤ 0 then 3 else minClusterSize
    let greatest := if maxConfidence ≤ 0 then 1 / 2 else maxConfidence
    (memoryImproveSummarise env s false minClusterSize maxConfidence).1 =
      (run (summariseStep env greatest) ⟨s, fun _ => none⟩ (env.summariseClusters s greatest least)).store := by
  intro least greatest
  have hfold (clusters : List SummaryCluster) (t : Summarising) (n : ℕ) :
      (clusters.foldl (fun done c =>
        if c.sessionId = [] then done
        else if false then (done.1, done.2 + 1)
        else
          let r := memoryInsert env true done.1 (summaryArgs c)
          if r.ok then (env.markMergedInto r.store r.id c.sessionId greatest, done.2 + 1) else (r.store, done.2))
        (t.store, n)).1 = (run (summariseStep env greatest) t clusters).store := by
    induction clusters generalizing t n with
    | nil => rfl
    | cons c clusters ih =>
      have hrun : run (summariseStep env greatest) t (c :: clusters) =
          run (summariseStep env greatest) (summariseStep env greatest t c) clusters := rfl
      rw [List.foldl_cons, hrun]
      by_cases hempty : c.sessionId = []
      · simpa only [summariseStep, if_pos hempty] using ih t n
      · cases hok : (memoryInsert env true t.store (summaryArgs c)).ok with
        | false => simpa [summariseStep, hempty, hok] using ih { t with store := _ } n
        | true => simpa [summariseStep, hempty, hok] using ih ⟨_, _⟩ (n + 1)
  exact hfold _ ⟨s, fun _ => none⟩ 0

/-! ### One cluster -/

/-- Where the insert of a summary lands, and the store in which it lands there. -/
def summaryLanding (env : WriterEnv) (s : Store) (c : SummaryCluster) : Option (Store × Placement) :=
  landing env.pf env.db (s.room + 1) s (summaryArgs c)

/-- The store that it leaves when it fails. -/
def summaryResidue (env : WriterEnv) (s : Store) (c : SummaryCluster) : Store :=
  residue env.pf env.db (s.room + 1) s (summaryArgs c)

/-- The insert changes no row that is there, and no row is marked for it. -/
structure LeavesRows (env : WriterEnv) (maxConfidence : ℚ) (s : Store) (c : SummaryCluster) : Prop where
  refused : summaryLanding env s c = none → (summaryResidue env s c).rows = s.rows
  apart : ∀ t place, summaryLanding env s c = some (t, place) → ∀ i r, s.rows.lookup i = some r →
    i ≠ place.id ∧ t.rows.lookup i = some r
  unmarked : ∀ t place, summaryLanding env s c = some (t, place) → ¬ place.row.IsMarked c.sessionId maxConfidence ∧
    ∀ i r, s.rows.lookup i = some r → ¬ r.IsMarked c.sessionId maxConfidence

/-- The insert leaves the rows as they are; or the observation is kept as it is in tier L2, in a new row or in one that
is its session's by its key, and no row of another session's summary is written or renamed. -/
inductive SummaryFits (env : WriterEnv) (maxConfidence : ℚ) (s : Store) (c : SummaryCluster) : Prop
  | leaves (h : LeavesRows env maxConfidence s c)
  | lands (t : Store) (place : Placement) (hland : summaryLanding env s c = some (t, place))
      (hown : place.row.IsSummary env c)
      (hothers : ∀ i r sessionId, s.rows.lookup i = some r → r.SummaryOf env sessionId → sessionId ≠ c.sessionId →
        i ≠ place.id ∧ t.rows.lookup i = some r)

/-- What marking rows keeps: the marks are no part of a row. -/
def MarksApart (env : WriterEnv) : Prop :=
  ∀ s id sessionId maxConfidence, (env.markMergedInto s id sessionId maxConfidence).rows = s.rows

/-- The insert of a summary failed, and nothing is marked. -/
structure StepRefused (env : WriterEnv) (t u : Summarising) (c : SummaryCluster) : Prop where
  landing : summaryLanding env t.store c = none
  rows : u.store.rows = (summaryResidue env t.store c).rows
  marks : u.marks = t.marks

/-- The summary was placed, and its session is marked. -/
structure StepPlaced (env : WriterEnv) (maxConfidence : ℚ) (t u : Summarising) (c : SummaryCluster) (v : Store)
    (place : Placement) : Prop where
  landing : summaryLanding env t.store c = some (v, place)
  row : ∃ validFrom, u.store.rows.lookup place.id = some { place.row with validFrom }
  others : ∀ i, i ≠ place.id → u.store.rows.lookup i = v.rows.lookup i
  marks : u.marks = markRows u.store t.marks place.id c.sessionId maxConfidence

theorem markRows_congr {s t : Store} (h : s.rows = t.rows) (marks : ℤ → Option ℤ) (id : ℤ) (sessionId : Text)
    (maxConfidence : ℚ) : markRows s marks id sessionId maxConfidence = markRows t marks id sessionId maxConfidence := by
  funext i
  rw [markRows, markRows, h]

/-- What a cluster with a session does. -/
theorem summariseStep_cases (h : env.db.Lawful) (hmarks : MarksApart env) (maxConfidence : ℚ) (t : Summarising)
    (hc : c.sessionId ≠ []) :
    StepRefused env t (summariseStep env maxConfidence t c) c ∨
      ∃ v place, StepPlaced env maxConfidence t (summariseStep env maxConfidence t c) c v place := by
  rcases memoryInsertEx_spec h (memoryInsert_spec h true t.store (summaryArgs c)) with
    ⟨hnone, hfailed⟩ | ⟨v, place, hsome, hlanded⟩
  · refine .inl ⟨hnone, ?_, ?_⟩
    · simp [summariseStep, hc, hfailed, failed, summaryResidue]
    · simp [summariseStep, hc, hfailed, failed]
  · have hrows : (summariseStep env maxConfidence t c).store.rows =
        (memoryInsert env true t.store (summaryArgs c)).store.rows := by
      simp only [summariseStep, if_neg hc, hlanded.ok, if_true]
      exact hmarks ..
    refine .inr ⟨v, place, hsome, ?_, ?_, ?_⟩
    · rw [hrows]
      exact hlanded.row
    · rw [hrows]
      exact hlanded.others
    · rw [markRows_congr hrows]
      simp only [summariseStep, if_neg hc, hlanded.ok, if_true, hlanded.id]

theorem StepPlaced.of_landing (h : env.db.Lawful) (hmarks : MarksApart env) (maxConfidence : ℚ) {t : Summarising}
    (hc : c.sessionId ≠ []) {v : Store} {place : Placement} (hland : summaryLanding env t.store c = some (v, place)) :
    StepPlaced env maxConfidence t (summariseStep env maxConfidence t c) c v place := by
  rcases summariseStep_cases h hmarks maxConfidence t hc with hrefused | ⟨v', place', hplaced⟩
  · cases hrefused.landing.symm.trans hland
  · obtain ⟨rfl, rfl⟩ := Prod.mk.inj (Option.some.inj (hplaced.landing.symm.trans hland))
    exact hplaced

theorem summariseStep_empty (t : Summarising) (hc : c.sessionId = []) : summariseStep env maxConfidence t c = t := by
  rw [summariseStep, if_pos hc]

/-! ### Rows that a summary leaves -/

theorem Row.IsSummary.validFrom {r : Row} (h : r.IsSummary env c) (validFrom : Option Text) :
    Row.IsSummary env c { r with validFrom } :=
  ⟨h.tier, h.key, h.content⟩

/-- A row that was renamed is marked as before. -/
theorem Row.Moved.isMarked {r r' : Row} (h : r.Moved r') (sessionId : Text) :
    r'.IsMarked sessionId maxConfidence ↔ r.IsMarked sessionId maxConfidence := by
  rw [h.fact]
  rfl

/-- A placement that ends in tier L2 is in no row of tier L1. -/
theorem place_ne_of_tier (h : env.db.Lawful) {v : Store} {place : Placement}
    (hland : summaryLanding env s c = some (v, place)) (hplace : place.row.tier = .L2) {i : ℤ} {r : Row}
    (hr : v.rows.lookup i = some r) (htier : r.tier = .L1) : i ≠ place.id := by
  rintro rfl
  obtain ⟨-, -, u, b, p, -, rfl, -⟩ := landing_spec hland
  obtain ⟨content, bonus, details, -, hmerge⟩ := placement_of_lookup h hr
  rw [hmerge] at hplace
  have hkept : r.tier = .L2 := hplace
  rw [htier] at hkept
  cases hkept

/-- A cluster that leaves the rows leaves the marks too. -/
theorem LeavesRows.step (h : env.db.Lawful) (hmarks : MarksApart env) {t : Summarising} (hc : c.sessionId ≠ [])
    (hleaves : LeavesRows env maxConfidence t.store c) :
    (summariseStep env maxConfidence t c).marks = t.marks ∧
      ∀ i r, t.store.rows.lookup i = some r → (summariseStep env maxConfidence t c).store.rows.lookup i = some r := by
  rcases summariseStep_cases h hmarks maxConfidence t hc with hrefused | ⟨v, place, hplaced⟩
  · refine ⟨hrefused.marks, fun i r hr => ?_⟩
    rw [hrefused.rows, hleaves.refused hrefused.landing, hr]
  · obtain ⟨hmoved, -⟩ := landing_spec hplaced.landing
    obtain ⟨hplace, hnone⟩ := hleaves.unmarked _ _ hplaced.landing
    have hkept : ∀ i r, t.store.rows.lookup i = some r → (summariseStep env maxConfidence t c).store.rows.lookup i = some r := by
      intro i r hr
      obtain ⟨hi, hv⟩ := hleaves.apart _ _ hplaced.landing i r hr
      rw [hplaced.others i hi, hv]
    refine ⟨?_, hkept⟩
    rw [hplaced.marks]
    funext i
    rw [markRows, if_neg]
    rw [Option.any_eq_true]
    rintro ⟨r, hr, hmarked⟩
    have hmarked : r.IsMarked c.sessionId maxConfidence := by simpa using hmarked
    by_cases hi : i = place.id
    · obtain ⟨validFrom, hrow⟩ := hplaced.row
      obtain rfl := Option.some.inj (hr.symm.trans (hi ▸ hrow))
      exact hplace hmarked
    · rw [hplaced.others i hi] at hr
      obtain ⟨r₀, hr₀, -⟩ := hmoved.row hr
      obtain rfl := Option.some.inj (hr.symm.trans (hleaves.apart _ _ hplaced.landing i r₀ hr₀).2)
      exact hnone i r hr₀ hmarked

/-! ### Every mark -/

/-- Every marked row is of tier L1 and points to a summary of its session, for a cluster of the list. -/
def MarksPoint (env : WriterEnv) (maxConfidence : ℚ) (clusters : List SummaryCluster) (t : Summarising) : Prop :=
  ∀ i d, t.marks i = some d → ∃ r c q, t.store.rows.lookup i = some r ∧ c ∈ clusters ∧
    r.IsMarked c.sessionId maxConfidence ∧ t.store.rows.lookup d = some q ∧ q.IsSummary env c

theorem MarksPoint.mono {clusters clusters' : List SummaryCluster} {t : Summarising}
    (h : MarksPoint env maxConfidence clusters t) (hsub : clusters ⊆ clusters') :
    MarksPoint env maxConfidence clusters' t := by
  intro i d hi
  obtain ⟨r, c, q, hr, hc, hrest⟩ := h i d hi
  exact ⟨r, c, q, hr, hsub hc, hrest⟩

theorem MarksPoint.step (h : env.db.Lawful) (hmarks : MarksApart env) {pre : List SummaryCluster} {t : Summarising}
    (ht : MarksPoint env maxConfidence pre t) (hfits : c.sessionId ≠ [] → SummaryFits env maxConfidence t.store c) :
    MarksPoint env maxConfidence (pre ++ [c]) (summariseStep env maxConfidence t c) := by
  have hpre : MarksPoint env maxConfidence (pre ++ [c]) t := ht.mono (List.subset_append_left _ _)
  by_cases hc : c.sessionId = []
  · rwa [summariseStep_empty t hc]
  cases hfits hc with
  | leaves hleaves =>
    obtain ⟨hsame, hkept⟩ := hleaves.step h hmarks hc
    intro i d hi
    rw [hsame] at hi
    obtain ⟨r, c', q, hr, hc', hmarked, hq, hsummary⟩ := hpre i d hi
    exact ⟨r, c', q, hkept i r hr, hc', hmarked, hkept d q hq, hsummary⟩
  | lands v place hland hown hothers =>
    have hplaced := StepPlaced.of_landing h hmarks maxConfidence hc hland
    obtain ⟨hmoved, -⟩ := landing_spec hland
    intro i d hi
    rw [hplaced.marks, markRows] at hi
    split_ifs at hi with hnew
    · -- the row is marked now
      obtain rfl := Option.some.inj hi
      obtain ⟨r, hr, hmarked⟩ := (Option.any_eq_true _ _).1 hnew
      obtain ⟨validFrom, hq⟩ := hplaced.row
      exact ⟨r, c, _, hr, by simp, by simpa using hmarked, hq, hown.validFrom validFrom⟩
    · -- it was marked for another session, whose summary stays
      obtain ⟨r, c', q, hr, hc', hmarked, hq, hsummary⟩ := ht i d hi
      obtain ⟨r', hr', hmove⟩ := hmoved.rows hr
      have hmarked' : r'.IsMarked c'.sessionId maxConfidence := (hmove.isMarked _).2 hmarked
      have hi' := place_ne_of_tier h hland hown.tier hr' hmarked'.1
      have hrow : (summariseStep env maxConfidence t c).store.rows.lookup i = some r' := by rw [hplaced.others i hi', hr']
      have hother : c'.sessionId ≠ c.sessionId := by
        intro hsame
        rw [hsame] at hmarked'
        exact hnew (by simp [hrow, hmarked'])
      obtain ⟨hd, hkept⟩ := hothers d q _ hq ⟨c', rfl, hsummary⟩ hother
      refine ⟨r', c', q, hrow, List.mem_append_left _ hc', hmarked', ?_, hsummary⟩
      rw [hplaced.others d hd, hkept]

/-- A summary that fits leaves the summaries of other sessions as they are. -/
theorem SummaryFits.keeps (h : env.db.Lawful) (hmarks : MarksApart env) {t : Summarising}
    (hfits : c.sessionId ≠ [] → SummaryFits env maxConfidence t.store c) {i : ℤ} {r : Row} {sessionId : Text}
    (hr : t.store.rows.lookup i = some r) (hsummary : r.SummaryOf env sessionId) (hother : sessionId ≠ c.sessionId) :
    (summariseStep env maxConfidence t c).store.rows.lookup i = some r := by
  by_cases hc : c.sessionId = []
  · rwa [summariseStep_empty t hc]
  cases hfits hc with
  | leaves hleaves => exact (hleaves.step h hmarks hc).2 i r hr
  | lands v place hland hown hothers =>
    have hplaced := StepPlaced.of_landing h hmarks maxConfidence hc hland
    obtain ⟨hi, hkept⟩ := hothers i r _ hr hsummary hother
    rw [hplaced.others i hi, hkept]

/-- A step that marks a row has placed its summary. -/
theorem SummaryFits.marks (h : env.db.Lawful) (hmarks : MarksApart env) {t : Summarising}
    (hfits : c.sessionId ≠ [] → SummaryFits env maxConfidence t.store c)
    (hnew : (summariseStep env maxConfidence t c).marks ≠ t.marks) :
    ∃ d q, (summariseStep env maxConfidence t c).store.rows.lookup d = some q ∧ q.IsSummary env c ∧
      ∀ i, (summariseStep env maxConfidence t c).marks i ≠ t.marks i →
        (summariseStep env maxConfidence t c).marks i = some d := by
  have hc : c.sessionId ≠ [] := fun hc => hnew (by rw [summariseStep_empty t hc])
  cases hfits hc with
  | leaves hleaves => exact absurd (hleaves.step h hmarks hc).1 hnew
  | lands v place hland hown hothers =>
    have hplaced := StepPlaced.of_landing h hmarks maxConfidence hc hland
    obtain ⟨validFrom, hq⟩ := hplaced.row
    refine ⟨place.id, _, hq, hown.validFrom validFrom, fun i hi => ?_⟩
    rw [hplaced.marks, markRows] at hi ⊢
    split_ifs at hi ⊢ with hmarked
    · rfl
    · exact absurd rfl hi

/-- Nothing is lost by summarising: every marked row points to the summary of its session, no step changes a row
that holds the summary of another session, and a cluster marks rows only with its own summary in place. -/
structure SummariesKept (env : WriterEnv) (maxConfidence : ℚ) (s : Store) (clusters : List SummaryCluster) : Prop where
  marked : MarksPoint env maxConfidence clusters (run (summariseStep env maxConfidence) ⟨s, fun _ => none⟩ clusters)
  others : Meets (summariseStep env maxConfidence) (fun _ t c => ∀ i r sessionId, t.store.rows.lookup i = some r →
    r.SummaryOf env sessionId → sessionId ≠ c.sessionId →
      (summariseStep env maxConfidence t c).store.rows.lookup i = some r) ⟨s, fun _ => none⟩ clusters
  own : Meets (summariseStep env maxConfidence) (fun _ t c => (summariseStep env maxConfidence t c).marks ≠ t.marks →
    ∃ d q, (summariseStep env maxConfidence t c).store.rows.lookup d = some q ∧ q.IsSummary env c ∧
      ∀ i, (summariseStep env maxConfidence t c).marks i ≠ t.marks i →
        (summariseStep env maxConfidence t c).marks i = some d) ⟨s, fun _ => none⟩ clusters

/-- A cluster of three facts of a session. -/
def sessionCluster (sessionId : String) : SummaryCluster := ⟨text sessionId, 3, 3 / 10⟩

/-- One of the facts. -/
def clusterRow (sessionId : String) : Row :=
  { factRow "port" "80" (3 / 10) with tier := .L1, sourceSession := text sessionId }

/-- A fact of one session, and the summary of another where there is one. -/
def clusterStore (summarised : Bool) : Store :=
  let facts := oneRowStore (clusterRow "release-b")
  let summary := { factRow "summary:release-a" "" 1 with content := (summaryArgs (sessionCluster "release-a")).content }
  if summarised then { facts with rows := facts.rows.insert 2 summary } else facts

theorem bareWriters_marksApart : MarksApart bareWriters := fun _ _ _ _ => rfl

end AimeeMemory.Core
