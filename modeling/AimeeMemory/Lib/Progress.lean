import AimeeMemory.Lib.Trace
import Mathlib.Data.Nat.Find
import Mathlib.Data.List.Range

/-!
# Infinite runs

A machine that is given an infinite string of inputs. What it does is what its finite runs
do; that it arrives somewhere is shown by a measure: while every step that changes the state
lowers the measure, and a step that changes it is always to come, the goal is reached.
-/

namespace AimeeMemory.Lib

universe u v

variable {σ : Type u} {ι : Type v} {step : σ → ι → σ} {s : σ} {inputs : ℕ → ι}

/-- The first `n` members of an infinite string. -/
def firstInputs (inputs : ℕ → ι) (n : ℕ) : List ι := (List.range n).map inputs

@[simp] theorem firstInputs_zero (inputs : ℕ → ι) : firstInputs inputs 0 = [] := rfl

theorem firstInputs_succ (inputs : ℕ → ι) (n : ℕ) : firstInputs inputs (n + 1) = firstInputs inputs n ++ [inputs n] := by
  simp [firstInputs, List.range_succ]

theorem mem_firstInputs {n : ℕ} {i : ι} : i ∈ firstInputs inputs n ↔ ∃ m < n, inputs m = i := by
  simp [firstInputs]

/-- The state after the first `n` inputs. -/
def after (step : σ → ι → σ) (s : σ) (inputs : ℕ → ι) (n : ℕ) : σ := run step s (firstInputs inputs n)

@[simp] theorem after_zero (step : σ → ι → σ) (s : σ) (inputs : ℕ → ι) : after step s inputs 0 = s := rfl

theorem after_succ (step : σ → ι → σ) (s : σ) (inputs : ℕ → ι) (n : ℕ) :
    after step s inputs (n + 1) = step (after step s inputs n) (inputs n) := by
  rw [after, firstInputs_succ, run_concat, ← after]

theorem after_invariant {I : σ → Prop} (h₀ : I s) (hstep : ∀ t i, I t → I (step t i)) (n : ℕ) :
    I (after step s inputs n) := by
  induction n with
  | zero => exact h₀
  | succ n ih =>
    rw [after_succ]
    exact hstep _ _ ih

/-- Inputs that change nothing leave the state where it was. -/
theorem after_stays {n m : ℕ} (hnm : n ≤ m)
    (h : ∀ k, n ≤ k → k < m → step (after step s inputs n) (inputs k) = after step s inputs n) :
    after step s inputs m = after step s inputs n := by
  induction m, hnm using Nat.le_induction with
  | base => rfl
  | succ m hnm ih =>
    have hstays := ih fun k hk hlt => h k hk (by omega)
    rw [after_succ, hstays, h m hnm (Nat.lt_succ_self m)]

/-- The first input that changes the state finds it as it was. -/
theorem first_change {n : ℕ} (h : ∃ m, n ≤ m ∧ step (after step s inputs n) (inputs m) ≠ after step s inputs n) :
    ∃ m, after step s inputs m = after step s inputs n ∧
      step (after step s inputs n) (inputs m) ≠ after step s inputs n := by
  classical
  obtain ⟨hnm, hmoves⟩ := Nat.find_spec h
  refine ⟨Nat.find h, ?_, hmoves⟩
  apply after_stays hnm
  intro k hk hlt
  by_contra hne
  exact Nat.find_min h hlt ⟨hk, hne⟩

/-- **The progress rule**: where a step that changes the state lowers the measure or reaches the goal, and while the goal
is not reached a step that changes the state is still to come, the goal is reached. -/
theorem reaches_goal (Goal : σ → Prop) (measure : σ → ℕ)
    (hstep : ∀ n i, ¬Goal (after step s inputs n) →
      step (after step s inputs n) i = after step s inputs n ∨ Goal (step (after step s inputs n) i) ∨
        measure (step (after step s inputs n) i) < measure (after step s inputs n))
    (hcomes : ∀ n, ¬Goal (after step s inputs n) →
      ∃ m, n ≤ m ∧ step (after step s inputs n) (inputs m) ≠ after step s inputs n) :
    ∃ n, Goal (after step s inputs n) := by
  -- The induction is on the measure that is left after some `n` inputs.
  suffices hleft : ∀ k n, measure (after step s inputs n) = k → ∃ n, Goal (after step s inputs n) from hleft _ 0 rfl
  intro k
  induction k using Nat.strong_induction_on with
  | _ k ih =>
    intro n hk
    by_cases hgoal : Goal (after step s inputs n)
    · exact ⟨n, hgoal⟩
    obtain ⟨m, hstays, hmoves⟩ := first_change (hcomes n hgoal)
    rcases hstep n (inputs m) hgoal with hsame | hreached | hless
    · exact absurd hsame hmoves
    · exact ⟨m + 1, by rwa [after_succ, hstays]⟩
    · exact ih _ (hk ▸ hless) (m + 1) (by rw [after_succ, hstays])

end AimeeMemory.Lib
