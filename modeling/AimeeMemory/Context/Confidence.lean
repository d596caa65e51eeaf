import AimeeMemory.Context.Candidate
import Mathlib.Algebra.Order.Field.Basic
import Mathlib.Tactic.NormNum
import Mathlib.Tactic.Linarith

/-!
# The range of the confidence

`memory_retrieval_confidence` over the rational numbers. The coverage is a share. The
separation divides the gap between the first and the third score by the first, and caps it
from above; but neither order of the candidates puts the greatest score first, since both
compare the scope and the tier before it.

## What is proved

* `coverageOf_mem`, `blend_mem`: a share, and a blend of two, are in the unit interval.
* **`retrievalConfidence_mem_iff`**: the separation, and with it all three, are where the
  score that is looked at is no greater than the first.
-/

namespace AimeeMemory.Context

open AimeeMemory.Core AimeeMemory.Lib

/-- The share of the significant terms that a candidate has. -/
def coverageOf (terms : List Text) (cands : List (Candidate ℚ)) : ℚ :=
  let significant := terms.filter fun term => 3 ≤ term.length ∧ !isCoverageStopword term
  if significant = [] then 0.0 else ((significant.countP (covers cands) : ℕ) : ℚ) / (significant.length : ℚ)

/-- The confidence by its parts. -/
theorem memoryRetrievalConfidence_eq {terms : List Text} {cands : List (Candidate ℚ)} (hterms : terms ≠ [])
    (hcands : cands ≠ []) (threshold : ℚ) :
    let r := memoryRetrievalConfidence terms cands threshold
    r.coverage = coverageOf terms cands ∧ r.separation = separationOf cands ∧
      r.score = 0.6 * coverageOf terms cands + 0.4 * separationOf cands := by
  simp only [memoryRetrievalConfidence]
  rw [if_neg (by simp [hterms, hcands])]
  exact ⟨rfl, rfl, rfl⟩

/-- **The confidence is a confidence**: each of its parts is between 0 and 1. -/
def InUnit (r : RetrievalConfidence ℚ) : Prop :=
  r.coverage ∈ Set.Icc 0 1 ∧ r.separation ∈ Set.Icc 0 1 ∧ r.score ∈ Set.Icc 0 1

/-- The score that the first one is held against is no greater: that of the third candidate, or of
the second where there are two. -/
def RefBelow (cands : List (Candidate ℚ)) : Prop :=
  ∀ top second rest, cands = top :: second :: rest → 1e-9 < top.score → (rest.head?.getD second).score ≤ top.score

/-! ## The parts -/

theorem coverageOf_mem (terms : List Text) (cands : List (Candidate ℚ)) : coverageOf terms cands ∈ Set.Icc 0 1 := by
  rw [coverageOf]
  split
  · exact ⟨by norm_num, by norm_num⟩
  · constructor
    · exact div_nonneg (Nat.cast_nonneg _) (Nat.cast_nonneg _)
    · exact div_le_one_of_le₀ (Nat.cast_le.2 List.countP_le_length) (Nat.cast_nonneg _)

/-- The separation is capped from above. -/
theorem separationOf_le_one (cands : List (Candidate ℚ)) : separationOf cands ≤ 1 := by
  rw [separationOf.eq_def]
  split
  · simp only
    split_ifs with hpos hlt
    · have hlt' : _ < (1.0 : ℚ) := hlt
      norm_num at hlt'
      exact hlt'.le
    · norm_num
    · norm_num
  · norm_num

/-- From below it is not: the sign of the gap is its own. -/
theorem separationOf_nonneg_iff (cands : List (Candidate ℚ)) : 0 ≤ separationOf cands ↔ RefBelow cands := by
  rw [separationOf.eq_def]
  split
  · rename_i top second rest
    simp only
    have hrefl : RefBelow (top :: second :: rest) ↔
        (1e-9 < top.score → (rest.head?.getD second).score ≤ top.score) := by
      constructor
      · exact fun h => h top second rest rfl
      · intro h t s r heq
        cases heq
        exact h
    rw [hrefl]
    split_ifs with hpos hlt
    · have hpos' : (1e-9 : ℚ) < top.score := hpos
      have htop : 0 < top.score := lt_trans (by norm_num) hpos'
      rw [le_div_iff₀ htop, zero_mul, sub_nonneg]
      exact ⟨fun h _ => h, fun h => h hpos'⟩
    · have hpos' : (1e-9 : ℚ) < top.score := hpos
      have htop : 0 < top.score := lt_trans (by norm_num) hpos'
      have hge : 1 ≤ (top.score - (rest.head?.getD second).score) / top.score := by
        have hnot : ¬_ < (1.0 : ℚ) := hlt
        norm_num at hnot
        exact hnot
      rw [le_div_iff₀ htop, one_mul] at hge
      exact ⟨fun _ _ => by linarith, fun _ => by norm_num⟩
    · exact ⟨fun _ h => absurd h hpos, fun _ => by norm_num⟩
  · rename_i hshort
    refine ⟨fun _ top second rest heq => absurd heq (hshort top second rest), fun _ => by norm_num⟩

/-- A blend of two shares is a share. -/
theorem blend_mem {c s : ℚ} (hc : c ∈ Set.Icc 0 1) (hs : s ∈ Set.Icc 0 1) : 0.6 * c + 0.4 * s ∈ Set.Icc (0 : ℚ) 1 := by
  obtain ⟨hc0, hc1⟩ := hc
  obtain ⟨hs0, hs1⟩ := hs
  constructor
  · positivity
  · norm_num
    linarith

theorem refBelow_of_inUnit {terms : List Text} {cands : List (Candidate ℚ)} {threshold : ℚ} (hterms : terms ≠ [])
    (h : InUnit (memoryRetrievalConfidence terms cands threshold)) : RefBelow cands := by
  by_cases hcands : cands = []
  · rintro top second rest heq
    rw [hcands] at heq
    cases heq
  · apply (separationOf_nonneg_iff cands).1
    rw [← (memoryRetrievalConfidence_eq hterms hcands threshold).2.1]
    exact h.2.1.1

/-- Without a term or without a candidate every part is zero. -/
theorem inUnit_of_nothing {terms : List Text} {cands : List (Candidate ℚ)} (h : terms = [] ∨ cands = []) (threshold : ℚ) :
    InUnit (memoryRetrievalConfidence terms cands threshold) := by
  rw [memoryRetrievalConfidence, if_pos h]
  have hzero : (0.0 : ℚ) ∈ Set.Icc (0 : ℚ) 1 := ⟨by norm_num, by norm_num⟩
  exact ⟨hzero, hzero, hzero⟩

/-- **When the confidence is one**: there is no term to cover, or the score that the first is held
against is no greater than it. -/
theorem retrievalConfidence_mem_iff (terms : List Text) (cands : List (Candidate ℚ)) (threshold : ℚ) :
    InUnit (memoryRetrievalConfidence terms cands threshold) ↔ terms = [] ∨ RefBelow cands := by
  constructor
  · intro h
    by_cases hterms : terms = []
    · exact .inl hterms
    · exact .inr (refBelow_of_inUnit hterms h)
  · intro h
    by_cases hnothing : terms = [] ∨ cands = []
    · exact inUnit_of_nothing hnothing threshold
    obtain ⟨hterms, hcands⟩ := not_or.1 hnothing
    obtain ⟨hcoverage, hseparation, hscore⟩ := memoryRetrievalConfidence_eq hterms hcands threshold
    have hc := coverageOf_mem terms cands
    have hs : separationOf cands ∈ Set.Icc 0 1 :=
      ⟨(separationOf_nonneg_iff cands).2 (h.resolve_left hterms), separationOf_le_one cands⟩
    rw [InUnit, hcoverage, hseparation, hscore]
    exact ⟨hc, hs, blend_mem hc hs⟩

/-! ## A scope before a score -/

/-- The candidates stand in the order of a comparator. -/
def OrderedBy (cmp : Candidate ℚ → Candidate ℚ → ℤ) (cands : List (Candidate ℚ)) : Prop :=
  cands.Pairwise fun a c => cmp a c ≤ 0

/-- A candidate of a scope with a score. -/
def scopedCandidate (scopeRank : ℤ) (score : ℚ) : Candidate ℚ where
  id := scopeRank
  tier := text "L2"
  key := text "deploy"
  content := text "staging first"
  kind := text "fact"
  confidence := 1
  useCount := 0
  scope := text "global"
  scopeRank
  tierPriority := 2
  score
  scorePerToken := score / 5
  estimatedTokens := 5

/-- Either order puts a candidate of the nearer scope first, whatever it scores: the gap is
negative, and the confidence too. -/
theorem confidence_below_zero : ¬∀ (cmp : Candidate ℚ → Candidate ℚ → ℤ) (terms : List Text) (cands : List (Candidate ℚ))
    (threshold : ℚ), cmp = cmpCandidates ∨ cmp = cmpCandidatesByDensity → OrderedBy cmp cands →
    (∀ c ∈ cands, 0 ≤ c.score) → InUnit (memoryRetrievalConfidence terms cands threshold) := by
  intro h
  have hunit := h cmpCandidates [text "deploy"] [scopedCandidate 2 (1 / 10), scopedCandidate 1 1] 0 (.inl rfl)
    (by simp [OrderedBy, cmpCandidates, scopedCandidate]) (by simp [scopedCandidate])
  have hbelow := refBelow_of_inUnit (List.cons_ne_nil _ _) hunit _ _ _ rfl (show (1e-9 : ℚ) < 1 / 10 by norm_num)
  exact absurd hbelow (by simp [scopedCandidate]; norm_num)

end AimeeMemory.Context
