import AimeeMemory.Recall.Answer
import AimeeMemory.Context.Confidence

/-!
# Stricter settings

`memory_answerable` abstains where the least of three groundings is below the threshold, but for
a band of two hundredths in which the confidence of the answer is asked. A higher threshold and
required citations can only add an abstention. A higher chunk floor removes candidates before the
third grounding is computed, and that grounding is a blend of their coverage and of the gap
between their scores: what is left may be grounded better.

## What is proved

* `memoryAnswerable_abstain_iff`: when it abstains.
* **`stricter_abstains`**: with stricter settings it still does, unless the floor lifts the grounding of the
  best rows over the threshold.
* `FloorLifts.few`: among rows in the order of their scores, only a floor that leaves one or two does that.
* **`higherFloor_answers`**: three rows that are close together, of which the floor leaves one.
-/

namespace AimeeMemory.Recall

open AimeeMemory.Core
open AimeeMemory.Context (memoryRetrievalConfidence memoryRetrievalConfidence_eq separationOf coverageOf covers)

variable {env : AnswerEnv} {rows : List Memory} {anchor : ℕ} {terms : List Text} {citationCount : ℕ}
  {structural : Option Reason} {threshold threshold' floor floor' confidence : ℚ}

/-! ### A grounding that is enough -/

/-- A grounding that is enough: it reaches the threshold, or comes near where the confidence of the answer does. -/
def Enough (threshold confidence x : ℚ) : Prop :=
  ¬(x < threshold ∧ ¬(threshold - x < 2 / 100 ∧ threshold ≤ confidence))

theorem Enough.mono {x y : ℚ} (h : Enough threshold confidence x) (hxy : x ≤ y) : Enough threshold confidence y := by
  rintro ⟨hlow, hfar⟩
  refine h ⟨hxy.trans_lt hlow, fun ⟨hnear, hconfidence⟩ => hfar ⟨?_, hconfidence⟩⟩
  linarith

/-- What is enough for a threshold is so for a lower one. -/
theorem Enough.lower {x : ℚ} (h : Enough threshold' confidence x) (hle : threshold ≤ threshold') :
    Enough threshold confidence x := by
  rintro ⟨hlow, hfar⟩
  refine h ⟨hlow.trans_le hle, fun ⟨hnear, hconfidence⟩ => hfar ⟨?_, hle.trans hconfidence⟩⟩
  linarith

theorem enough_min {x y : ℚ} :
    Enough threshold confidence (min x y) ↔ Enough threshold confidence x ∧ Enough threshold confidence y := by
  constructor
  · exact fun h => ⟨h.mono (min_le_left _ _), h.mono (min_le_right _ _)⟩
  · rintro ⟨hx, hy⟩
    rcases min_choice x y with h | h
    · rwa [h]
    · rwa [h]

/-! ### When it abstains -/

/-- **When an answer is withheld**: its anchor is not curated, and it fails as such, lacks a citation, has no row
above the floor, or is not grounded enough. -/
theorem memoryAnswerable_abstain_iff (citationsRequired : Bool) :
    (memoryAnswerable env rows anchor terms citationCount citationsRequired structural threshold floor true
      confidence).decision = .abstain ↔
      memoryAnswerAnchorExempt env rows anchor = false ∧
        (structural ≠ none ∨ (citationsRequired ∧ citationCount = 0) ∨ (0 < floor ∧ keptCandidates rows floor = []) ∨
          ¬ Enough threshold confidence (grounding terms rows anchor threshold floor)) := by
  unfold memoryAnswerable Enough
  cases hexempt : memoryAnswerAnchorExempt env rows anchor with
  | true => simp
  | false =>
    cases structural with
    | some reason => simp [AnswerEvidence.abstained]
    | none =>
      simp only [Bool.false_eq_true, if_false]
      split_ifs with hcitations hkept hlow
      · simp [AnswerEvidence.abstained, hcitations]
      · simp [AnswerEvidence.abstained, hkept]
      · simp only [true_and] at hlow
        simp [AnswerEvidence.abstained, hlow]
      · simp only [true_and] at hlow
        refine iff_of_false (by simp) ?_
        rintro ⟨-, hnone | hmissing | hempty | hbelow⟩
        · exact hnone rfl
        · exact hcitations hmissing
        · exact hkept hempty
        · exact hbelow hlow

/-- The score of the best rows does not ask for the threshold. -/
theorem topkGrounding_threshold (threshold threshold' : ℚ) :
    topkGrounding terms rows threshold floor = topkGrounding terms rows threshold' floor := by
  simp only [topkGrounding, memoryRetrievalConfidence]
  split_ifs <;> rfl

theorem grounding_threshold (threshold threshold' : ℚ) :
    grounding terms rows anchor threshold floor = grounding terms rows anchor threshold' floor := by
  rw [grounding, grounding, topkGrounding_threshold threshold threshold']

/-! ### A higher floor -/

theorem keptCandidates_sublist (rows : List Memory) (h : floor ≤ floor') :
    (keptCandidates rows floor').Sublist (keptCandidates rows floor) := by
  apply List.Sublist.map
  apply List.monotone_filter_right
  intro c hc
  simp only [decide_eq_true_eq] at hc ⊢
  exact hc.imp h.trans h.trans

/-- A floor that is not positive is none. -/
theorem keptCandidates_of_nonpos (rows : List Memory) (h : floor ≤ 0) (h' : floor' ≤ 0) :
    keptCandidates rows floor = keptCandidates rows floor' := by
  simp only [keptCandidates, h, h', true_or]

/-- The higher floor leaves rows that ground the answer enough, where those of the lower one did not. -/
structure FloorLifts (terms : List Text) (rows : List Memory) (threshold confidence floor floor' : ℚ) : Prop where
  kept : keptCandidates rows floor' ≠ []
  low : ¬ Enough threshold confidence (topkGrounding terms rows threshold floor)
  high : Enough threshold confidence (topkGrounding terms rows threshold floor')

/-- **Stricter settings abstain more**, but for a floor that lifts the grounding. -/
theorem stricter_abstains {required required' : Bool} (hthreshold : threshold ≤ threshold') (hfloor : floor ≤ floor')
    (hrequired : required → required')
    (h : (memoryAnswerable env rows anchor terms citationCount required structural threshold floor true
      confidence).decision = .abstain) :
    (memoryAnswerable env rows anchor terms citationCount required' structural threshold' floor' true
      confidence).decision = .abstain ∨ FloorLifts terms rows threshold' confidence floor floor' := by
  rw [memoryAnswerable_abstain_iff] at h ⊢
  obtain ⟨hexempt, h⟩ := h
  by_contra hstays
  push Not at hstays
  obtain ⟨hanswers, hlifts⟩ := hstays
  obtain ⟨hnone, hcited, hkept, hhigh⟩ := hanswers hexempt
  rw [grounding, enough_min] at hhigh
  rcases h with hstructural | ⟨hreq, hmissing⟩ | ⟨hpos, hempty⟩ | hlow
  · exact hstructural hnone
  · exact hcited (hrequired hreq) hmissing
  · have hsub := keptCandidates_sublist rows hfloor
    rw [hempty, List.sublist_nil] at hsub
    exact hkept (hpos.trans_le hfloor) hsub
  · have hlow' : ¬ Enough threshold' confidence (grounding terms rows anchor threshold' floor) := by
      rw [grounding_threshold threshold' threshold]
      exact fun hhigh => hlow (hhigh.lower hthreshold)
    rw [grounding, enough_min] at hlow'
    have hfails : ¬ Enough threshold' confidence (topkGrounding terms rows threshold' floor) :=
      fun htop => hlow' ⟨hhigh.1, htop⟩
    refine hlifts ⟨fun hempty => ?_, hfails, hhigh.2⟩
    -- without a row the floor has to be one, and then it abstains
    by_cases hpos : 0 < floor'
    · exact hkept hpos hempty
    · have hsame := keptCandidates_of_nonpos rows (hfloor.trans (not_lt.1 hpos)) (not_lt.1 hpos)
      apply hfails
      rw [topkGrounding, hsame]
      exact hhigh.2

/-! ### What a floor can lift -/

/-- The rows come in the order of their scores. -/
def InScoreOrder (rows : List Memory) : Prop := rows.Pairwise fun a b => b.retrievalScore ≤ a.retrievalScore

/-- Then a floor leaves the first of them. -/
theorem keptCandidates_front (h : InScoreOrder rows) (floor : ℚ) :
    keptCandidates rows floor <+:
      (rows.take 16).zipIdx.map fun c => asCandidate c.1 ((rows.take 16).length - c.2) := by
  apply List.IsPrefix.map
  apply Lib.filter_front
  have hscores : ((rows.take 16).zipIdx.map Prod.fst).Pairwise fun a b => b.retrievalScore ≤ a.retrievalScore := by
    rw [List.zipIdx_map_fst]
    exact h.sublist (List.take_sublist 16 rows)
  refine (List.pairwise_map.1 hscores).imp fun {a b} hle hb => ?_
  simp only [decide_eq_true_eq] at hb ⊢
  exact hb.imp id hle.trans'

theorem keptCandidates_front_of_le (h : InScoreOrder rows) (hfloor : floor ≤ floor') :
    keptCandidates rows floor' <+: keptCandidates rows floor :=
  List.prefix_of_prefix_length_le (keptCandidates_front h floor') (keptCandidates_front h floor)
    (keptCandidates_sublist rows hfloor).length_le

/-- More candidates cover no less. -/
theorem coverageOf_mono {cands cands' : List (Context.Candidate ℚ)} (h : cands' <+: cands) (terms : List Text) :
    coverageOf terms cands' ≤ coverageOf terms cands := by
  rw [coverageOf, coverageOf]
  split_ifs with hnone
  · exact le_rfl
  · have hcount : (terms.filter fun t => 3 ≤ t.length ∧ !Context.isCoverageStopword t).countP (covers cands') ≤
        (terms.filter fun t => 3 ≤ t.length ∧ !Context.isCoverageStopword t).countP (covers cands) := by
      apply List.countP_mono_left
      intro t _ ht
      rw [covers, List.any_eq_true] at ht ⊢
      obtain ⟨c, hc, hterm⟩ := ht
      exact ⟨c, (h.take 10).subset hc, hterm⟩
    gcongr

/-- The gap is between the first score and the third. -/
theorem separationOf_front {cands cands' : List (Context.Candidate ℚ)} (h : cands' <+: cands) (hthree : 3 ≤ cands'.length) :
    separationOf cands' = separationOf cands := by
  obtain ⟨rest, rfl⟩ := h
  match cands' with
  | _ :: _ :: _ :: _ => rfl
  | [] | [_] | [_, _] => simp at hthree

/-- **A floor that leaves three rows** in the order of their scores lifts nothing. -/
theorem FloorLifts.few (h : FloorLifts terms rows threshold confidence floor floor') (hrows : InScoreOrder rows)
    (hfloor : floor ≤ floor') : (keptCandidates rows floor').length < 3 := by
  by_contra hthree
  have hfront := keptCandidates_front_of_le hrows hfloor
  refine h.low (h.high.mono ?_)
  rw [topkGrounding, topkGrounding]
  by_cases hterms : terms = []
  · simp [memoryRetrievalConfidence, hterms]
  · have hmore : keptCandidates rows floor ≠ [] := fun hnone => h.kept (List.prefix_nil.1 (hnone ▸ hfront))
    rw [(memoryRetrievalConfidence_eq hterms h.kept threshold).2.2, (memoryRetrievalConfidence_eq hterms hmore threshold).2.2,
      separationOf_front hfront (not_lt.1 hthree)]
    have := coverageOf_mono hfront terms
    linarith

/-! ### Three rows that are close together -/

/-- A row about Mars with a score. -/
def scoredRow (id : ℤ) (score : ℚ) : Memory := { marsRow with id, retrievalScore := score }

def closeRows : List Memory := [scoredRow 1 1, scoredRow 2 (9 / 10), scoredRow 3 (8 / 10)]

/-- Whether the answer from these rows is withheld. -/
def closeDecision (threshold floor : ℚ) (citationsRequired : Bool) : Decision :=
  (memoryAnswerable gateEnv closeRows 0 [text "mars", text "color"] 1 citationsRequired none threshold floor true 0).decision

/-- A higher threshold keeps withholding it. -/
theorem closeRows_abstain : closeDecision (9 / 10) 0 true = .abstain ∨
    FloorLifts [text "mars", text "color"] closeRows (9 / 10) 0 0 0 :=
  stricter_abstains (by norm_num : (7 / 10 : ℚ) ≤ 9 / 10) le_rfl (fun _ => rfl)
    (show closeDecision (7 / 10) 0 false = .abstain by decide +kernel)

/-- A floor that only the first passes lets it through. -/
theorem higherFloor_answers : ¬ ∀ (env : AnswerEnv) (rows : List Memory) (anchor : ℕ) (terms : List Text) (citationCount : ℕ)
    (citationsRequired : Bool) (structural : Option Reason) (threshold floor floor' confidence : ℚ), floor ≤ floor' →
    (memoryAnswerable env rows anchor terms citationCount citationsRequired structural threshold floor true
      confidence).decision = .abstain →
    (memoryAnswerable env rows anchor terms citationCount citationsRequired structural threshold floor' true
      confidence).decision = .abstain := by
  intro h
  have hhigh : closeDecision (7 / 10) (95 / 100) false = .abstain :=
    h gateEnv closeRows 0 [text "mars", text "color"] 1 false none (7 / 10) 0 (95 / 100) 0 (by norm_num)
      (show closeDecision (7 / 10) 0 false = .abstain by decide +kernel)
  revert hhigh
  decide +kernel

end AimeeMemory.Recall
