import AimeeMemory.Core.Store
import AimeeMemory.Lib.Trimming
import Mathlib.Data.PNat.Basic
import Mathlib.Data.Rat.Init

/-!
# The briefing of a session

`memory_briefing` of `memory_advanced.c`: key facts, recent activity and active entities, fetched
with some to spare and trimmed to a limit of tokens. The style that was promoted says how many are
fetched, and moves the limit that the caller asks for.

## What is proved

* **`memoryBriefing_keeps`**: the briefing, as it is measured for its `approx_tokens`, is within the
  limit that it states or has nothing left; it lost items in the order of the sections, from their
  ends; and the limit that it states is the caller's, or the floor of the evidence-heavy style.
* **`heavy_over_limit`**: an evidence-heavy briefing of more tokens than its caller asked for.

## Honest scope

The length of a bundle's JSON is any function of it. Objects and arrays can be made and printed.
The rows are what the database lists, in its order; `log` is the library's.
-/

namespace AimeeMemory.Context

open AimeeMemory.Core AimeeMemory.Lib

/-! ### Styles and limits -/

inductive BriefingStyle where
  | compact
  | evidenceHeavy
  deriving DecidableEq, Repr

/-- The style's name in the bundle. -/
def BriefingStyle.name : BriefingStyle → Text
  | .compact => text "compact"
  | .evidenceHeavy => text "evidence_heavy"

/-- `memory_briefing_style`, from what `db2_bandit_promotion_get` finds. -/
def memoryBriefingStyle : Option Text → BriefingStyle
  | none => .compact
  | some promoted => if promoted = text "evidence_heavy" then .evidenceHeavy else .compact

/-- The limits of `memory.h`. -/
structure BriefingLimits where
  default : ℤ
  min : ℕ+
  max : ℕ+

/-- `memory_briefing_apply_style_limit`. -/
def memoryBriefingApplyStyleLimit (limits : BriefingLimits) (style : BriefingStyle) (limitTokens : ℤ) : ℤ :=
  let limitTokens := if limitTokens ≤ 0 then limits.default else limitTokens
  let limitTokens := if style = .compact ∧ 1024 < limitTokens then 1024 else limitTokens
  if style = .evidenceHeavy ∧ limitTokens < 3000 then 3000 else limitTokens

/-- The limit that a caller gets. -/
def BriefingLimits.clamp (limits : BriefingLimits) (style : BriefingStyle) (limitTokens : ℤ) : ℤ :=
  let limit := memoryBriefingApplyStyleLimit limits style limitTokens
  let limit := if limit < limits.min then (limits.min : ℤ) else limit
  if (limits.max : ℤ) < limit then limits.max else limit

/-! ### Sections -/

inductive BriefingSection where
  | keyFacts
  | recentActivity
  | activeEntities
  deriving DecidableEq, Repr

inductive BriefingItem where
  | fact (memoryId : ℤ) (tier kind key text : Text) (confidence evidenceStrength : ℚ) (observationCount : ℤ)
      (salience : ℚ) (lastSeenAt : Text)
  | activity (sessionId summary referenceTime createdAt : Text)
  | entity (name : Text) (mentions : ℤ) (lastSeen : Text)
  deriving DecidableEq, Repr

/-- `db2_memory_briefing_fact_t`. -/
structure BriefingFact where
  memoryId : ℤ
  tier : Text
  kind : Text
  key : Text
  text : Text
  confidence : ℚ
  evidenceStrength : ℚ
  observationCount : ℤ
  lastSeenAt : Text

/-- `db2_memory_briefing_activity_t`. -/
structure BriefingActivity where
  sessionId : Text
  summary : Text
  referenceTime : Text
  createdAt : Text

/-- `db2_memory_briefing_entity_t`. -/
structure BriefingEntity where
  name : Text
  mentions : ℤ
  lastSeen : Text

/-- The rows that the database lists for each section. -/
structure BriefingRows where
  facts : List BriefingFact
  activity : List BriefingActivity
  entities : List BriefingEntity

/-- `memory_briefing_salience_proxy`. -/
def memoryBriefingSalienceProxy (log : ℚ → ℚ) (confidence evidenceStrength : ℚ) (observationCount : ℤ) : ℚ :=
  let obs := if 0 < observationCount then (observationCount : ℚ) else 0
  confidence + evidenceStrength + 1 / 5 * log (1 + obs)

/-- `memory_briefing_fill_key_facts`. -/
def memoryBriefingFillKeyFacts (log : ℚ → ℚ) (rows : List BriefingFact) (maxRows : ℕ) : List BriefingItem :=
  (rows.take (min maxRows 64)).map fun row =>
    .fact row.memoryId row.tier row.kind row.key row.text row.confidence row.evidenceStrength row.observationCount
      (memoryBriefingSalienceProxy log row.confidence row.evidenceStrength row.observationCount) row.lastSeenAt

/-- `memory_briefing_fill_recent_activity`. -/
def memoryBriefingFillRecentActivity (rows : List BriefingActivity) (maxRows : ℕ) : List BriefingItem :=
  (rows.take (min maxRows 16)).map fun row => .activity row.sessionId row.summary row.referenceTime row.createdAt

/-- `memory_briefing_fill_active_entities`. -/
def memoryBriefingFillActiveEntities (rows : List BriefingEntity) (maxRows : ℕ) : List BriefingItem :=
  (rows.take (min maxRows 64)).map fun row => .entity row.name row.mentions row.lastSeen

/-! ### The bundle -/

structure Briefing where
  briefingStyle : BriefingStyle
  limitTokens : ℤ
  sections : BriefingSection → List BriefingItem
  approxTokens : Option ℤ

/-- `memory_briefing_approx_tokens`: four characters make a token. -/
def memoryBriefingApproxTokens (length : Briefing → ℕ) (b : Briefing) : ℤ := ((length b + 3) / 4 : ℕ)

/-- The sections as they are fetched. -/
def memoryBriefingFetch (log : ℚ → ℚ) (rows : BriefingRows) (style : BriefingStyle) :
    BriefingSection → List BriefingItem
  | .keyFacts => memoryBriefingFillKeyFacts log rows.facts (if style = .evidenceHeavy then 60 else 30)
  | .recentActivity => memoryBriefingFillRecentActivity rows.activity (if style = .evidenceHeavy then 10 else 5)
  | .activeEntities => memoryBriefingFillActiveEntities rows.entities (if style = .evidenceHeavy then 40 else 20)

/-- `memory_briefing_truncate_to_budget`. -/
def memoryBriefingTruncateToBudget (length : Briefing → ℕ) (b : Briefing) (s : BriefingSection) (limitTokens : ℤ) :
    Briefing :=
  let tokens := fun sections => memoryBriefingApproxTokens length { b with sections }
  if limitTokens ≤ 0 then b else { b with sections := trimSection tokens limitTokens b.sections s }

/-- The sections from the lowest priority up. -/
def briefingOrder : List BriefingSection := [.activeEntities, .recentActivity, .keyFacts]

/-- The bundle before it is trimmed. -/
def memoryBriefingFill (limits : BriefingLimits) (log : ℚ → ℚ) (rows : BriefingRows) (promoted : Option Text)
    (limitTokens : ℤ) : Briefing where
  briefingStyle := memoryBriefingStyle promoted
  limitTokens := limits.clamp (memoryBriefingStyle promoted) limitTokens
  sections := memoryBriefingFetch log rows (memoryBriefingStyle promoted)
  approxTokens := none

/-- `memory_briefing`. -/
def memoryBriefing (limits : BriefingLimits) (log : ℚ → ℚ) (length : Briefing → ℕ) (rows : BriefingRows)
    (promoted : Option Text) (limitTokens : ℤ) : Briefing :=
  let filled := memoryBriefingFill limits log rows promoted limitTokens
  let trimmed := briefingOrder.foldl (fun b s => memoryBriefingTruncateToBudget length b s filled.limitTokens) filled
  { trimmed with approxTokens := some (memoryBriefingApproxTokens length trimmed) }

/-- A briefing without the count of its tokens, as it is when it is measured. -/
def Briefing.measured (b : Briefing) : Briefing := { b with approxTokens := none }

/-- A briefing cut from what was fetched, in the order of the sections. -/
structure KeepsToBudget (length : Briefing → ℕ) (fetched out : Briefing) : Prop where
  stated : out.limitTokens = fetched.limitTokens
  reported : out.approxTokens = some (memoryBriefingApproxTokens length out.measured)
  within : memoryBriefingApproxTokens length out.measured ≤ out.limitTokens ∨ ∀ s, out.sections s = []
  lower : ∀ s, out.sections s ≠ fetched.sections s →
    ∀ t, briefingOrder.idxOf t < briefingOrder.idxOf s → out.sections t = []
  kept : ∀ s, out.sections s <+: fetched.sections s

theorem mem_briefingOrder (s : BriefingSection) : s ∈ briefingOrder := by
  cases s <;> decide

theorem briefingOrder_nodup : briefingOrder.Nodup := by decide

theorem BriefingLimits.clamp_pos (limits : BriefingLimits) (style : BriefingStyle) (limitTokens : ℤ) :
    0 < limits.clamp style limitTokens := by
  have hmin : (0 : ℤ) < limits.min := Int.natCast_pos.2 limits.min.pos
  have hmax : (0 : ℤ) < limits.max := Int.natCast_pos.2 limits.max.pos
  unfold BriefingLimits.clamp
  dsimp only
  split_ifs <;> omega

/-- A limit in range is never raised but by the evidence-heavy style. -/
theorem briefingClamp_le (limits : BriefingLimits) (style : BriefingStyle) {limitTokens : ℤ}
    (hmin : limits.min ≤ limitTokens) :
    limits.clamp style limitTokens ≤ if style = .evidenceHeavy then max limitTokens 3000 else limitTokens := by
  have hpos : (0 : ℤ) < limits.min := Int.natCast_pos.2 limits.min.pos
  unfold BriefingLimits.clamp memoryBriefingApplyStyleLimit
  cases style with
  | compact =>
    simp only [reduceCtorEq, true_and, false_and, if_false]
    split_ifs <;> omega
  | evidenceHeavy =>
    simp only [reduceCtorEq, true_and, false_and, if_false, if_true]
    split_ifs <;> omega

/-- The tokens of a bundle, by its sections. -/
def Briefing.tokens (length : Briefing → ℕ) (b : Briefing) (sections : BriefingSection → List BriefingItem) : ℤ :=
  memoryBriefingApproxTokens length { b with sections }

/-- The three truncations are one trim of the sections. -/
theorem truncate_eq (length : Briefing → ℕ) (b : Briefing) {limitTokens : ℤ} (hpos : 0 < limitTokens) :
    briefingOrder.foldl (fun b s => memoryBriefingTruncateToBudget length b s limitTokens) b =
      { b with sections := trimAll (b.tokens length) limitTokens briefingOrder b.sections } := by
  have hfold : ∀ (order : List BriefingSection) (c : BriefingSection → List BriefingItem),
      order.foldl (fun b s => memoryBriefingTruncateToBudget length b s limitTokens) { b with sections := c } =
        { b with sections := trimAll (b.tokens length) limitTokens order c } := by
    intro order
    induction order with
    | nil => exact fun _ => rfl
    | cons s order ih =>
      intro c
      rw [List.foldl_cons, memoryBriefingTruncateToBudget, if_neg (by omega)]
      exact ih _
  exact hfold briefingOrder b.sections

theorem memoryBriefing_keepsToBudget (limits : BriefingLimits) (log : ℚ → ℚ) (length : Briefing → ℕ)
    (rows : BriefingRows) (promoted : Option Text) (limitTokens : ℤ) :
    KeepsToBudget length (memoryBriefingFill limits log rows promoted limitTokens)
      (memoryBriefing limits log length rows promoted limitTokens) := by
  have hpos := limits.clamp_pos (memoryBriefingStyle promoted) limitTokens
  unfold memoryBriefing
  dsimp only
  generalize hfilled : memoryBriefingFill limits log rows promoted limitTokens = filled
  have hlimit : 0 < filled.limitTokens := by rw [← hfilled]; exact hpos
  have hnone : filled.approxTokens = none := by rw [← hfilled]; rfl
  rw [truncate_eq length filled hlimit]
  obtain ⟨hwithin, hlower, hkept⟩ := trimAll_keeps (filled.tokens length) filled.limitTokens filled.sections
    mem_briefingOrder briefingOrder_nodup
  cases filled
  subst hnone
  exact ⟨rfl, rfl, hwithin, hlower, hkept⟩

/-! ### The limit of the caller -/

/-- For all that the sections hold, each style and each limit from the least on, the briefing as it
is measured keeps to the limit that it states: the caller's, or the floor of the evidence-heavy style. -/
theorem memoryBriefing_keeps (limits : BriefingLimits) (log : ℚ → ℚ) (length : Briefing → ℕ) (rows : BriefingRows)
    (promoted : Option Text) {limitTokens : ℤ} (hmin : limits.min ≤ limitTokens) :
    KeepsToBudget length (memoryBriefingFill limits log rows promoted limitTokens)
        (memoryBriefing limits log length rows promoted limitTokens) ∧
      (memoryBriefing limits log length rows promoted limitTokens).limitTokens ≤
        if memoryBriefingStyle promoted = .evidenceHeavy then max limitTokens 3000 else limitTokens := by
  have hkeeps := memoryBriefing_keepsToBudget limits log length rows promoted limitTokens
  refine ⟨hkeeps, ?_⟩
  rw [hkeeps.stated]
  exact briefingClamp_le limits _ hmin

/-- A length that grows with the bundle: with more items, and with the count of its tokens. -/
def GrowsWith (length : Briefing → ℕ) : Prop :=
  ∀ b b' : Briefing, b.briefingStyle = b'.briefingStyle → b.limitTokens = b'.limitTokens →
    (∀ s, b.sections s <+: b'.sections s) → (b.approxTokens = none ∨ b.approxTokens = b'.approxTokens) →
    length b ≤ length b'

/-- A briefing that measures in its final form at most a limit, or has nothing left. -/
def WithinFinal (length : Briefing → ℕ) (limitTokens : ℤ) (b : Briefing) : Prop :=
  memoryBriefingApproxTokens length b ≤ limitTokens ∨ ∀ s, b.sections s = []

/-- A length of sixty bytes for every item, a hundred for the bundle and twenty for the count. -/
def itemBytes (b : Briefing) : ℕ :=
  100 + 60 * (briefingOrder.map fun s => (b.sections s).length).sum + if b.approxTokens = none then 0 else 20

theorem itemBytes_grows : GrowsWith itemBytes := by
  intro b b' _ _ hsections hcount
  have hlen : ∀ s, (b.sections s).length ≤ (b'.sections s).length := fun s => (hsections s).length_le
  have h1 := hlen .activeEntities
  have h2 := hlen .recentActivity
  have h3 := hlen .keyFacts
  simp only [itemBytes, briefingOrder, List.map_cons, List.map_nil, List.sum_cons, List.sum_nil]
  rcases hcount with hcount | hcount
  · rw [if_pos hcount]
    omega
  · rw [hcount]
    omega

def exampleLimits : BriefingLimits := ⟨2000, 256, 8000⟩

/-- Sixty facts. -/
def sixtyFacts : BriefingRows :=
  ⟨List.replicate 60 ⟨7, text "L3", text "fact", text "k", text "v", 9 / 10, 0, 1, text "2026-04-15"⟩, [], []⟩

/-- The compact style keeps to 512 tokens. -/
theorem memoryBriefing_keeps_compact :
    (exampleLimits.min : ℤ) ≤ 512 ∧
      KeepsToBudget itemBytes (memoryBriefingFill exampleLimits (fun _ => 0) sixtyFacts none 512)
          (memoryBriefing exampleLimits (fun _ => 0) itemBytes sixtyFacts none 512) ∧
        (memoryBriefing exampleLimits (fun _ => 0) itemBytes sixtyFacts none 512).limitTokens ≤
          if memoryBriefingStyle none = .evidenceHeavy then max 512 3000 else 512 :=
  ⟨by decide, memoryBriefing_keeps exampleLimits (fun _ => 0) itemBytes sixtyFacts none (by decide)⟩

/-- The evidence-heavy style gives a caller of 512 tokens all sixty facts, of 930 tokens. -/
theorem heavy_over_limit :
    GrowsWith itemBytes ∧ (exampleLimits.min : ℤ) ≤ 512 ∧ (512 : ℤ) ≤ exampleLimits.max ∧
      ¬ WithinFinal itemBytes 512
        (memoryBriefing exampleLimits (fun _ => 0) itemBytes sixtyFacts (some (text "evidence_heavy")) 512) := by
  refine ⟨itemBytes_grows, by decide, by decide, ?_⟩
  rintro (hwithin | hempty)
  · exact absurd hwithin (by decide +kernel)
  · exact absurd (hempty .keyFacts) (by decide +kernel)

end AimeeMemory.Context
