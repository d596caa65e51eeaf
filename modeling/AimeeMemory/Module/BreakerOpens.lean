import AimeeMemory.Module.BreakerDelay

/-!
# When the breaker opens

Runs of the four methods of `embedBreaker` in `embed.go`, in any order and with any clock.
From the third failure in a row on, each failure sets the time of the next try: its own time
and a delay of one to thirty seconds. The sum is an `int64`, and a positive one means that the
breaker is open.

## What is proved

* `toInt_breakerDelayMS`: every delay is between one second and thirty.
* `failureStreak_run`: the streak counts the failures in a row, up to its limit.
* **`opens_iff`**: the third failure in a row opens the breaker exactly when the next try still
  is an `int64`.
* **`lastFailure_wraps`**: three failures at the end of the clock leave the breaker closed.
-/

namespace AimeeMemory.Module

open AimeeMemory.Lib

/-- A method of the breaker that takes its lock. -/
inductive BreakerOp where
  | allow (nowMS : Int64)
  | reportSuccess
  | cancelProbe
  | reportFailure (nowMS : Int64)
  deriving DecidableEq, Repr

namespace EmbedBreaker

def operate (b : EmbedBreaker) : BreakerOp → EmbedBreaker
  | .allow nowMS => (b.allow nowMS).2.2
  | .reportSuccess => b.reportSuccess
  | .cancelProbe => b.cancelProbe
  | .reportFailure nowMS => b.reportFailure nowMS

/-- The failures after the last success. -/
def countFailure (n : ℕ) : BreakerOp → ℕ
  | .reportSuccess => 0
  | .reportFailure _ => n + 1
  | _ => n

/-- How many failures there are at the end of a run, with no success between. -/
def failuresInARow (ops : List BreakerOp) : ℕ := run countFailure 0 ops

/-- Neither a success nor a failure. -/
def isQuiet : BreakerOp → Bool
  | .allow _ => true
  | .cancelProbe => true
  | _ => false

/-- The delay that a failure at `t` sets. -/
def delayAt (b : EmbedBreaker) (t : Int64) : Int64 := breakerDelayMS b.openCount t breakerBaseMS breakerMaxMS

/-- A breaker that a failure at `t` has opened for `delay`. -/
structure Opened (b : EmbedBreaker) (t delay : Int64) : Prop where
  refused : (b.allow t).1 = false
  /-- No probe is let through before the delay has passed. -/
  suppressed : ∀ now, t ≤ now → now.toInt < t.toInt + delay.toInt → (b.allow now).1 = false
  /-- Half a minute later, or where the clock went back, a probe is let through. -/
  granted : b.probeInflight = false → ∀ now, t.toInt + breakerMaxMS.toInt ≤ now.toInt ∨ now < t → (b.allow now).1 = true

/-! ### The delay -/

theorem toInt_max : breakerMaxMS.toInt = 30000 := rfl

/-- **Every delay is between one second and thirty.** -/
theorem toInt_breakerDelayMS (openCount : UInt32) (t : Int64) :
    1000 ≤ (breakerDelayMS openCount t breakerBaseMS breakerMaxMS).toInt ∧
      (breakerDelayMS openCount t breakerBaseMS breakerMaxMS).toInt ≤ 30000 := by
  have hpow : (1 : ℤ) ≤ 2 ^ openCount.toNat := one_le_pow₀ (by omega)
  have hvalue := toInt_unjittered openCount breakerBaseMS breakerMaxMS
  obtain ⟨-, hlower, hupper⟩ := toInt_breakerDelayMS_mem openCount t breakerBaseMS breakerMaxMS
  rw [toInt_max, show breakerBaseMS.toInt = 1000 from rfl, show max (1000 : ℤ) 1 = 1000 from rfl] at hvalue hupper
  omega

/-! ### The streak -/

theorem failureStreak_run (ops : List BreakerOp) :
    (run operate {} ops).failureStreak.toNat = min (failuresInARow ops) (2 ^ 32 - 1) := by
  induction ops using List.reverseRecOn with
  | nil => rfl
  | append_singleton ops op ih =>
    rw [run_concat, failuresInARow, run_concat, ← failuresInARow]
    cases op with
    | allow nowMS =>
      rcases (run operate {} ops).allow_cases nowMS with ⟨-, d, heq⟩ | ⟨-, d, heq⟩ | ⟨d, heq⟩ <;>
        simpa only [operate, heq, countFailure] using ih
    | reportSuccess => rfl
    | cancelProbe => exact ih
    | reportFailure nowMS =>
      have hstreak : ((run operate {} ops).reportFailure nowMS).failureStreak =
          if (run operate {} ops).failureStreak < 0xffffffff then (run operate {} ops).failureStreak + 1
          else (run operate {} ops).failureStreak := by
        simp only [reportFailure]
        split_ifs <;> rfl
      rw [operate, hstreak, countFailure]
      have hlimit : (0xffffffff : UInt32).toNat = 2 ^ 32 - 1 := rfl
      split_ifs with hlt
      · rw [UInt32.lt_iff_toNat_lt, hlimit, ih] at hlt
        rw [UInt32.toNat_add, ih, show (1 : UInt32).toNat = 1 from rfl]
        omega
      · rw [UInt32.lt_iff_toNat_lt, hlimit, ih] at hlt
        rw [ih]
        omega

/-- From the third failure in a row on, a failure sets the time of the next try. -/
theorem reportFailure_opens {b : EmbedBreaker} (h : 2 ≤ b.failureStreak.toNat) (t : Int64) :
    (b.reportFailure t).openedAtMS = t ∧ (b.reportFailure t).retryAtMS = t + b.delayAt t := by
  have hthree : (if b.failureStreak < 0xffffffff then b.failureStreak + 1 else b.failureStreak) ≥ breakerThreshold := by
    have hlimit : (0xffffffff : UInt32).toNat = 2 ^ 32 - 1 := rfl
    rw [ge_iff_le, UInt32.le_iff_toNat_le, show breakerThreshold.toNat = 3 from rfl]
    split_ifs with hlt
    · rw [UInt32.lt_iff_toNat_lt, hlimit] at hlt
      rw [UInt32.toNat_add, show (1 : UInt32).toNat = 1 from rfl]
      omega
    · rw [UInt32.lt_iff_toNat_lt, hlimit] at hlt
      omega
  refine ⟨?_, ?_⟩
  · simp only [reportFailure, if_pos hthree]
  · simp only [reportFailure, if_pos hthree, delayAt]

/-- A grant and a cancel leave the time of the next try alone. -/
theorem run_quiet {ops : List BreakerOp} (h : ∀ op ∈ ops, isQuiet op) (b : EmbedBreaker) :
    (run operate b ops).openedAtMS = b.openedAtMS ∧ (run operate b ops).retryAtMS = b.retryAtMS := by
  induction ops using List.reverseRecOn with
  | nil => exact ⟨rfl, rfl⟩
  | append_singleton ops op ih =>
    have hquiet : isQuiet op := h op (by simp)
    rw [run_concat]
    have hbefore := ih fun op hop => h op (by simp [hop])
    cases op with
    | allow nowMS =>
      rcases (run operate b ops).allow_cases nowMS with ⟨-, d, heq⟩ | ⟨-, d, heq⟩ | ⟨d, heq⟩ <;>
        simpa only [operate, heq] using hbefore
    | reportSuccess => cases hquiet
    | cancelProbe => exact hbefore
    | reportFailure nowMS => cases hquiet

/-! ### What an open breaker lets through -/

theorem allow_iff (b : EmbedBreaker) (nowMS : Int64) : (b.allow nowMS).1 = true ↔
    b.retryAtMS.toInt ≤ 0 ∨ (b.retryAtMS.toInt ≤ nowMS.toInt ∨ nowMS < b.openedAtMS) ∧ b.probeInflight = false := by
  have hzero : (0 : Int64).toInt = 0 := rfl
  simp only [allow, ge_iff_le, Int64.le_iff_toInt_le, hzero]
  split_ifs with hclosed hprobe hlate
  · simp [hclosed]
  · obtain ⟨heligible, hfree⟩ := hprobe
    simp [heligible, show b.probeInflight = false by simpa using hfree]
  · have hbusy : b.probeInflight = true := by
      by_contra hfree
      exact hprobe ⟨hlate, by simpa using hfree⟩
    simp [hclosed, hbusy]
  · simp [hclosed, hlate]

/-- A breaker whose next try is at `t + delay`, without overflow, is open from `t` on. -/
theorem opened_of_retryAt {b : EmbedBreaker} {t delay : Int64} (hopened : b.openedAtMS = t)
    (hretry : b.retryAtMS.toInt = t.toInt + delay.toInt) (ht : 0 < t.toInt)
    (hdelay : 1000 ≤ delay.toInt ∧ delay.toInt ≤ 30000) : Opened b t delay := by
  have hsuppressed : ∀ now, t ≤ now → now.toInt < t.toInt + delay.toInt → (b.allow now).1 = false := by
    intro now hlow hhigh
    rw [Bool.eq_false_iff, ne_eq, allow_iff, hretry, hopened]
    rintro (hclosed | ⟨hlate | hback, -⟩)
    · omega
    · omega
    · rw [Int64.le_iff_toInt_le] at hlow
      rw [Int64.lt_iff_toInt_lt] at hback
      omega
  refine ⟨hsuppressed t (Int64.le_refl t) (by omega), hsuppressed, ?_⟩
  rintro hfree now (hlate | hback)
  · rw [toInt_max] at hlate
    exact (allow_iff b now).2 (.inr ⟨.inl (by omega), hfree⟩)
  · exact (allow_iff b now).2 (.inr ⟨.inr (hopened ▸ hback), hfree⟩)

/-- **The breaker opens** at the third failure in a row, whatever calls ask or are cancelled after it, exactly when the
time of the next try is an `int64`. -/
theorem opens_iff (earlier later : List BreakerOp) (t : Int64) (ht : 0 < t) (hrow : 2 ≤ failuresInARow earlier)
    (hlater : ∀ op ∈ later, isQuiet op) :
    Opened (run operate {} (earlier ++ .reportFailure t :: later)) t ((run operate {} earlier).delayAt t) ↔
      t.toInt + ((run operate {} earlier).delayAt t).toInt < 2 ^ 63 := by
  have hrun : run operate {} (earlier ++ .reportFailure t :: later) =
      run operate ((run operate {} earlier).reportFailure t) later := by simp [run, operate]
  have hstreak : 2 ≤ (run operate {} earlier).failureStreak.toNat := by
    rw [failureStreak_run]
    omega
  obtain ⟨hopened, hretry⟩ := reportFailure_opens hstreak t
  obtain ⟨hopened', hretry'⟩ := run_quiet hlater ((run operate {} earlier).reportFailure t)
  rw [← hrun, hopened] at hopened'
  rw [← hrun, hretry] at hretry'
  have hdelay := toInt_breakerDelayMS (run operate {} earlier).openCount t
  rw [← delayAt] at hdelay
  have hpos : 0 < t.toInt := Int64.lt_iff_toInt_lt.1 ht
  have hlt := t.toInt_lt
  constructor
  · intro hopen
    by_contra hwraps
    -- The sum is negative, so the breaker takes itself for closed.
    have hrefused := hopen.refused
    rw [Bool.eq_false_iff, ne_eq, allow_iff, hretry', Int64.toInt_add] at hrefused
    apply hrefused
    left
    rw [Int.bmod_def, Int.emod_eq_of_lt (by omega) (by omega)]
    split_ifs <;> omega
  · intro hfits
    apply opened_of_retryAt hopened' _ hpos hdelay
    rw [hretry', Int64.toInt_add, Int.bmod_eq_of_le (by omega) (by omega)]

/-! ### Three failures -/

def twoFailures : List BreakerOp := [.reportFailure 1, .reportFailure 2]

theorem thirdFailure_opens :
    Opened (run operate {} (twoFailures ++ .reportFailure 3 :: [])) 3 ((run operate {} twoFailures).delayAt 3) :=
  (opens_iff twoFailures [] 3 (by decide) (Nat.le_refl 2) (by simp)).2 (by decide)

/-- A third failure at the end of the clock leaves the breaker closed, and the next call is let through. -/
theorem lastFailure_wraps :
    ((run operate {} (twoFailures ++ .reportFailure Int64.maxValue :: [])).allow Int64.maxValue).1 = true ∧
      ¬Opened (run operate {} (twoFailures ++ .reportFailure Int64.maxValue :: [])) Int64.maxValue
        ((run operate {} twoFailures).delayAt Int64.maxValue) := by
  have hallowed : ((run operate {} (twoFailures ++ .reportFailure Int64.maxValue :: [])).allow Int64.maxValue).1 = true := by
    decide
  refine ⟨hallowed, fun hopened => ?_⟩
  rw [hopened.refused] at hallowed
  cases hallowed

end EmbedBreaker

end AimeeMemory.Module
