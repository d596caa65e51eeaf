import AimeeMemory.Context.SectionPass
import AimeeMemory.Lib.Filling
import AimeeMemory.Lib.Trace

/-!
# A section's turn

The pass over the sections is a run of `sectionStep`. What holds of a turn whatever limits
are reached: what the section selects, and that it fills its room with that from the last
to the first.
-/

namespace AimeeMemory.Context

open AimeeMemory.Core AimeeMemory.Lib

variable {R : Type*}

/-- What a section selects when its turn comes, with the places. -/
def selected (b : Build R) (w : World R) (p : SectionPass R) (s : SectionSpec) : List (Candidate R × ℕ) :=
  (selectSection b w s p.tokensUsed p.cands).chosen

/-- What it writes of that, last line last. -/
def written (b : Build R) (w : World R) (p : SectionPass R) (s : SectionSpec) : List (Candidate R × ℕ) :=
  (emitSection b s (selectSection b w s p.tokensUsed p.cands)).emitted

/-- The pass of a hint before its first section. -/
def passStart [ScoreArith R] (b : Build R) (w : World R) (hint : Text) : SectionPass R := ⟨answerable b w hint, 0, [], []⟩

/-- The table of sections for a hint. -/
def planTable [ScoreArith R] (b : Build R) (hint : Text) : List SectionSpec :=
  sectionTable b (planFor hint : RetrievalPlan R).kindBudget

theorem taskPass_eq_run [ScoreArith R] (b : Build R) (w : World R) (hint : Text) :
    taskPass b w hint = run (sectionStep b w) (passStart b w hint) (planTable b hint) := rfl

variable {b : Build R} {w : World R} {p : SectionPass R} {s : SectionSpec} {x : Candidate R × ℕ} {n : ℕ}

/-! ## Selection -/

/-- What a section has selected of the candidates `seen`. -/
structure SelectInv (w : World R) (s : SectionSpec) (n : ℕ) (seen : List (Candidate R × ℕ)) (sel : Selection R) : Prop where
  sublist : sel.chosen.Sublist seen
  canSelect : ∀ x ∈ sel.chosen, s.canSelect x = true
  unrestated : sel.chosen.Pairwise fun x y => restates y x = false
  tokens : sel.tokens = tokensOf sel.chosen
  budget : w.contextBudgetEnabled → n ≤ tokenBudget w → n + sel.tokens ≤ tokenBudget w

theorem SelectInv.step {seen : List (Candidate R × ℕ)} {sel : Selection R} (h : SelectInv w s n seen sel) :
    SelectInv w s n (seen ++ [x]) (selectStep b w s n sel x) := by
  unfold selectStep
  split
  · rename_i hnew
    obtain ⟨-, hid, hadmits, hbudget, hsame⟩ := hnew
    refine ⟨h.sublist.append (List.Sublist.refl _), fun y hy => ?_, ?_, ?_, fun henabled _ => ?_⟩
    · rcases List.mem_append.1 hy with hy | hy
      · exact h.canSelect y hy
      · obtain rfl := List.mem_singleton.1 hy
        exact decide_eq_true ⟨hid, hadmits⟩
    · refine List.pairwise_append.2 ⟨h.unrestated, List.pairwise_singleton _ _, fun y hy z hz => ?_⟩
      obtain rfl := List.mem_singleton.1 hz
      exact Bool.eq_false_iff.2 fun heq => hsame (List.any_eq_true.2 ⟨y, hy, heq⟩)
    · rw [tokensOf_append, tokensOf_singleton, h.tokens]
    · have hroom : ¬ tokenBudget w < n + sel.tokens + x.1.estimatedTokens := fun hover => hbudget ⟨henabled, hover⟩
      rw [← Nat.add_assoc]
      omega
  · exact ⟨h.sublist.trans (List.sublist_append_left _ _), h.canSelect, h.unrestated, h.tokens, h.budget⟩

theorem selectInv_selectSection (b : Build R) (w : World R) (s : SectionSpec) (n : ℕ) (cands : List (Candidate R)) :
    SelectInv w s n cands.zipIdx (selectSection b w s n cands) := by
  have hstart : SelectInv w s n [] (⟨[], 0⟩ : Selection R) :=
    ⟨List.Sublist.refl _, nofun, List.Pairwise.nil, rfl, fun _ hle => hle⟩
  exact run_keeps hstart (fun _ _ _ h => h.step) _

/-- The places of candidates differ, so no candidate stands twice among those selected. -/
theorem selected_nodup : (selected b w p s).Nodup :=
  (zipIdx_nodup p.cands).sublist (selectInv_selectSection b w s _ _).sublist

/-! ## Emission -/

/-- A section fills its room with lines. -/
theorem foldl_emitCandidate_eq (cs : List (Candidate R × ℕ)) (e : Emission R)
    (hlen : e.sectionLen = lengthOf (fun c => lineLen b c.1) e.emitted) :
    (cs.foldl (emitCandidate b s) e).emitted =
      greedyFrom (overfull s.maxChars fun c => lineLen b c.1) e.emitted cs := by
  induction cs generalizing e with
  | nil => rfl
  | cons c cs ih =>
    rw [List.foldl_cons, greedyFrom]
    by_cases hover : s.maxChars < e.sectionLen + lineLen b c.1
    · have hout : overfull s.maxChars (fun c => lineLen b c.1) e.emitted c = true := by
        rw [overfull, ← hlen]
        exact decide_eq_true (by exact_mod_cast hover)
      rw [emitCandidate, if_pos hover, if_pos hout]
      exact ih e hlen
    · have hroom : ¬ overfull s.maxChars (fun c => lineLen b c.1) e.emitted c = true := by
        rw [overfull, ← hlen]
        exact fun hout => hover (by exact_mod_cast of_decide_eq_true hout)
      rw [emitCandidate, if_neg hover, if_neg hroom]
      refine ih _ ?_
      rw [lengthOf_concat, hlen]

theorem written_eq : written b w p s = greedy (overfull s.maxChars fun c => lineLen b c.1) (selected b w p s).reverse :=
  foldl_emitCandidate_eq _ _ rfl

theorem written_sublist : (written b w p s).Sublist (selected b w p s).reverse := by
  rw [written_eq]
  exact greedy_sublist _

theorem mem_selected_of_mem_written (h : x ∈ written b w p s) : x ∈ selected b w p s :=
  List.mem_reverse.1 (written_sublist.subset h)

/-! ## Samples -/

/-- The primary candidates in the order of their rows. -/
def rowCandidates (w : World ℚ) (hint : Text) : List (Candidate ℚ) :=
  ((w.candidates .primary).take sampleBuild.maxCandidates).map
    (primaryCandidate w (w.scopeLabelsForCwd []) (sampleBuild.tokenizeForSearch hint 64) (hasTemporalMarkers hint))

/-- Rows that come in the order of the sort stay in it. -/
theorem retrieved_of_sorted {w : World ℚ} {hint : Text} (hunlooked : failureThreshold w = none)
    (hsorted : (rowCandidates w hint).Pairwise fun c d =>
      decide ((if w.contextBudgetEnabled then cmpCandidatesByDensity else cmpCandidates) c d ≤ 0) = true) :
    retrieved sampleBuild w hint = (rowCandidates w hint, false) := by
  have hprimary : primaryCandidates sampleBuild w hint = rowCandidates w hint := by
    unfold primaryCandidates sortCandidates
    split
    · exact List.mergeSort_of_pairwise hsorted
    · rfl
  rw [retrieved, hunlooked, hprimary]

theorem answerable_of_sorted {w : World ℚ} {hint : Text} (hunlooked : failureThreshold w = none)
    (hsorted : (rowCandidates w hint).Pairwise fun c d =>
      decide ((if w.contextBudgetEnabled then cmpCandidatesByDensity else cmpCandidates) c d ≤ 0) = true) :
    answerable sampleBuild w hint = rowCandidates w hint := by
  rw [answerable, retrieved_of_sorted hunlooked hsorted]
  rfl

end AimeeMemory.Context
