import AimeeMemory.Lib.CheckedInt
import AimeeMemory.Module.EmbedBreaker

/-!
# The delay of the breaker

`breakerDelayMS` of `embed.go` for every base and maximum, not only those of the breaker: the base
is doubled for each time that the breaker has opened, up to the maximum, and a jitter of at most a
quarter goes on top, as far as the maximum allows.

## What is proved

* `toInt_doubled`: the doublings are those of the integers, cut at the maximum.
* `toInt_breakerDelayMS_mem`: the delay is between its doublings and the maximum.
* **`breakerDelayMS_sound`**: no operation of the delay overflows, for any `int64`s, and the delay
  is between its bounds; before the jitter it grows with the open count and reaches the maximum.
-/

namespace AimeeMemory.Module

open AimeeMemory.Lib

/-- `doubled`, where each doubling is an `int64`. -/
def doubledChecked (maxMS : Int64) : ℕ → Int64 → Option Int64
  | 0, delay => some delay
  | n + 1, delay =>
    if delay < maxMS then
      if delay > maxMS / 2 then doubledChecked maxMS n maxMS else (checkedMul delay 2).bind (doubledChecked maxMS n)
    else some delay

/-- `breakerDelayMS`, where the result of each signed operation is an `int64`. -/
def breakerDelayChecked (openCount : UInt32) (nowMS baseMS maxMS : Int64) : Option Int64 := do
  let baseMS := if baseMS < 1 then 1 else baseMS
  let maxMS := if maxMS < baseMS then baseMS else maxMS
  let delay ← doubledChecked maxMS openCount.toNat baseMS
  let room ← checkedSub maxMS delay
  let jitterCap := if delay / 4 > room then room else delay / 4
  if jitterCap > 0 then
    let modulus ← checkedAdd jitterCap 1
    let mixed := nowMS.toUInt64 ^^^ ((openCount + 1).toUInt64 * 0x9e3779b97f4a7c15)
    let jitter ← fitInt64 (mixed % modulus.toUInt64).toNat
    checkedAdd delay jitter
  else some delay

/-- The delay before the jitter. -/
def unjittered (openCount : UInt32) (baseMS maxMS : Int64) : Int64 :=
  let baseMS := if baseMS < 1 then 1 else baseMS
  let maxMS := if maxMS < baseMS then baseMS else maxMS
  doubled maxMS openCount.toNat baseMS

/-- What holds of the delays of a base and a maximum. -/
structure BreakerDelaySound (nowMS baseMS maxMS : Int64) : Prop where
  fits : ∀ openCount, breakerDelayChecked openCount nowMS baseMS maxMS = some (breakerDelayMS openCount nowMS baseMS maxMS)
  lower : ∀ openCount, max baseMS.toInt 1 ≤ (breakerDelayMS openCount nowMS baseMS maxMS).toInt
  upper : ∀ openCount, (breakerDelayMS openCount nowMS baseMS maxMS).toInt ≤ max maxMS.toInt (max baseMS.toInt 1)
  grows : ∀ m n : UInt32, m ≤ n → (unjittered m baseMS maxMS).toInt ≤ (unjittered n baseMS maxMS).toInt
  reaches : ∀ n : UInt32, 63 ≤ n.toNat → (unjittered n baseMS maxMS).toInt = max maxMS.toInt (max baseMS.toInt 1)

/-! ### Doubling -/

variable {maxMS delay : Int64}

/-- The doublings are those of the integers, cut at the maximum. -/
theorem toInt_doubled (n : ℕ) (hpos : 1 ≤ delay.toInt) (hle : delay.toInt ≤ maxMS.toInt) :
    (doubled maxMS n delay).toInt = min maxMS.toInt (delay.toInt * 2 ^ n) ∧
      doubledChecked maxMS n delay = some (doubled maxMS n delay) := by
  have hmax := maxMS.toInt_lt
  have hhalf : (maxMS / 2).toInt = maxMS.toInt / 2 := toInt_div_of_nonneg (by omega) (by decide)
  induction n generalizing delay with
  | zero =>
    rw [pow_zero, mul_one, min_eq_right hle]
    exact ⟨rfl, rfl⟩
  | succ n ih =>
    have hpow : (1 : ℤ) ≤ 2 ^ n := one_le_pow₀ (by omega)
    rw [doubled, doubledChecked]
    split_ifs with hlt hover
    · -- one doubling more would pass the maximum
      obtain ⟨hvalue, hchecked⟩ := ih (by omega) le_rfl
      rw [gt_iff_lt, Int64.lt_iff_toInt_lt, hhalf] at hover
      have hpast : maxMS.toInt * 2 ^ n ≤ delay.toInt * 2 ^ (n + 1) := by
        rw [pow_succ', ← mul_assoc]
        exact mul_le_mul_of_nonneg_right (by omega) (by omega)
      have hgrow : maxMS.toInt * 1 ≤ maxMS.toInt * 2 ^ n := mul_le_mul_of_nonneg_left hpow (by omega)
      rw [hvalue, min_eq_left (by omega), min_eq_left (by omega)]
      exact ⟨rfl, hchecked⟩
    · rw [gt_iff_lt, Int64.lt_iff_toInt_lt, hhalf, not_lt] at hover
      have htwo : (2 : Int64).toInt = 2 := rfl
      have hfits : FitsInt64 (delay.toInt * (2 : Int64).toInt) := by
        rw [htwo]
        exact ⟨by omega, by omega⟩
      have htwice : (delay * 2).toInt = delay.toInt * 2 := toInt_mul_of_fits hfits
      obtain ⟨hvalue, hchecked⟩ := @ih (delay * 2) (by omega) (by omega)
      rw [hvalue, htwice, pow_succ', ← mul_assoc, checkedMul_of_fits hfits]
      exact ⟨rfl, hchecked⟩
    · rw [Int64.lt_iff_toInt_lt, not_lt] at hlt
      have hgrow : delay.toInt * 1 ≤ delay.toInt * 2 ^ (n + 1) :=
        mul_le_mul_of_nonneg_left (one_le_pow₀ (by omega)) (by omega)
      rw [min_eq_left (by omega)]
      exact ⟨by omega, rfl⟩

/-! ### Jitter -/

/-- What is left of a word modulo a positive number. -/
theorem mod_jitter (mixed : UInt64) {cap : Int64} (hpos : 0 < cap.toInt) (hsmall : cap.toInt < 2 ^ 62) :
    checkedAdd cap 1 = some (cap + 1) ∧
      fitInt64 (mixed % (cap + 1).toUInt64).toNat = some (mixed % (cap + 1).toUInt64).toInt64 ∧
      0 ≤ (mixed % (cap + 1).toUInt64).toInt64.toInt ∧ (mixed % (cap + 1).toUInt64).toInt64.toInt ≤ cap.toInt := by
  have hone : (1 : Int64).toInt = 1 := rfl
  have hfits : FitsInt64 (cap.toInt + (1 : Int64).toInt) := ⟨by omega, by omega⟩
  have hsucc : (cap + 1).toInt = cap.toInt + 1 := toInt_add_of_fits hfits
  have hnat := toNat_toUInt64 (a := cap + 1) (by omega)
  have hlt : (mixed % (cap + 1).toUInt64).toNat < (cap + 1).toUInt64.toNat := by
    rw [UInt64.toNat_mod]
    exact Nat.mod_lt _ (by omega)
  have htoInt := toInt_toInt64 (w := mixed % (cap + 1).toUInt64) (by omega)
  exact ⟨checkedAdd_of_fits hfits, fitInt64_eq_some_iff.2 htoInt, by omega, by omega⟩

/-- The jitter goes on top of a delay as far as the maximum allows, and no operation overflows. -/
theorem jittered (mixed : UInt64) {cap : Int64} (hpos : 1 ≤ delay.toInt) (hle : delay.toInt ≤ maxMS.toInt)
    (hcap : cap = if delay / 4 > maxMS - delay then maxMS - delay else delay / 4) :
    (if cap > 0 then
        (checkedAdd cap 1).bind fun modulus =>
          (fitInt64 (mixed % modulus.toUInt64).toNat).bind fun jitter => checkedAdd delay jitter
      else some delay) = some (if cap > 0 then delay + (mixed % (cap + 1).toUInt64).toInt64 else delay) ∧
    delay.toInt ≤ (if cap > 0 then delay + (mixed % (cap + 1).toUInt64).toInt64 else delay).toInt ∧
      (if cap > 0 then delay + (mixed % (cap + 1).toUInt64).toInt64 else delay).toInt ≤ maxMS.toInt := by
  have hmax := maxMS.toInt_lt
  have hquarter : (delay / 4).toInt = delay.toInt / 4 := toInt_div_of_nonneg (by omega) (by decide)
  have hroom : (maxMS - delay).toInt = maxMS.toInt - delay.toInt := toInt_sub_of_fits ⟨by omega, by omega⟩
  have hbound : cap.toInt ≤ delay.toInt / 4 ∧ cap.toInt ≤ maxMS.toInt - delay.toInt := by
    rw [hcap]
    split_ifs with hover
    · rw [gt_iff_lt, Int64.lt_iff_toInt_lt] at hover
      omega
    · rw [gt_iff_lt, Int64.lt_iff_toInt_lt] at hover
      omega
  by_cases hcapPos : cap > 0
  · rw [if_pos hcapPos, if_pos hcapPos]
    rw [gt_iff_lt, Int64.lt_iff_toInt_lt, show (0 : Int64).toInt = 0 from rfl] at hcapPos
    obtain ⟨hadd, hfit, hnonneg, hjitter⟩ := mod_jitter mixed hcapPos (by omega)
    have hsumFits : FitsInt64 (delay.toInt + (mixed % (cap + 1).toUInt64).toInt64.toInt) := ⟨by omega, by omega⟩
    rw [hadd, Option.bind_some, hfit, Option.bind_some, checkedAdd_of_fits hsumFits, toInt_add_of_fits hsumFits]
    exact ⟨rfl, by omega, by omega⟩
  · rw [if_neg hcapPos, if_neg hcapPos]
    exact ⟨rfl, le_rfl, hle⟩

/-! ### The delay -/

theorem toInt_base (baseMS : Int64) : (if baseMS < 1 then 1 else baseMS).toInt = max baseMS.toInt 1 := by
  have hone : (1 : Int64).toInt = 1 := rfl
  split_ifs with h
  · rw [Int64.lt_iff_toInt_lt] at h
    omega
  · rw [Int64.lt_iff_toInt_lt] at h
    omega

theorem toInt_maximum (baseMS maxMS : Int64) :
    (if maxMS < baseMS then baseMS else maxMS).toInt = max maxMS.toInt baseMS.toInt := by
  split_ifs with h
  · rw [Int64.lt_iff_toInt_lt] at h
    omega
  · rw [Int64.lt_iff_toInt_lt] at h
    omega

/-- The delay before the jitter is the base times a power of two, cut at the maximum. -/
theorem toInt_unjittered (openCount : UInt32) (baseMS maxMS : Int64) :
    (unjittered openCount baseMS maxMS).toInt =
      min (max maxMS.toInt (max baseMS.toInt 1)) (max baseMS.toInt 1 * 2 ^ openCount.toNat) := by
  have hbase := toInt_base baseMS
  rw [unjittered]
  generalize (if baseMS < 1 then (1 : Int64) else baseMS) = base at hbase ⊢
  have hmax := toInt_maximum base maxMS
  generalize (if maxMS < base then base else maxMS) = maximum at hmax ⊢
  rw [(toInt_doubled openCount.toNat (by omega) (by omega)).1, hmax, hbase]

/-- The delay is between its doublings and the maximum, and no operation overflows. -/
theorem toInt_breakerDelayMS_mem (openCount : UInt32) (nowMS baseMS maxMS : Int64) :
    breakerDelayChecked openCount nowMS baseMS maxMS = some (breakerDelayMS openCount nowMS baseMS maxMS) ∧
      (unjittered openCount baseMS maxMS).toInt ≤ (breakerDelayMS openCount nowMS baseMS maxMS).toInt ∧
      (breakerDelayMS openCount nowMS baseMS maxMS).toInt ≤ max maxMS.toInt (max baseMS.toInt 1) := by
  have hbase := toInt_base baseMS
  rw [unjittered, breakerDelayMS, breakerDelayChecked]
  dsimp only
  generalize (if baseMS < 1 then (1 : Int64) else baseMS) = base at hbase ⊢
  have hmax := toInt_maximum base maxMS
  generalize (if maxMS < base then base else maxMS) = maximum at hmax ⊢
  obtain ⟨hvalue, hchecked⟩ := toInt_doubled openCount.toNat (show 1 ≤ base.toInt by omega)
    (show base.toInt ≤ maximum.toInt by omega)
  have hpow : (1 : ℤ) ≤ 2 ^ openCount.toNat := one_le_pow₀ (by omega)
  have hgrow : base.toInt * 1 ≤ base.toInt * 2 ^ openCount.toNat := mul_le_mul_of_nonneg_left hpow (by omega)
  generalize doubled maximum openCount.toNat base = delay at hvalue hchecked ⊢
  have hlt := maximum.toInt_lt
  have hroom : checkedSub maximum delay = some (maximum - delay) := checkedSub_of_fits ⟨by omega, by omega⟩
  obtain ⟨hsame, hlower, hupper⟩ := jittered (nowMS.toUInt64 ^^^ ((openCount + 1).toUInt64 * 0x9e3779b97f4a7c15))
    (show 1 ≤ delay.toInt by omega) (show delay.toInt ≤ maximum.toInt by omega) rfl
  rw [hchecked]
  refine ⟨?_, hlower, by omega⟩
  rw [Option.bind_eq_bind, Option.bind_some, hroom]
  exact hsame

/-- For any base, maximum and clock no operation of the delay overflows, and it is between its
bounds; before the jitter it grows with the open count and reaches the maximum. -/
theorem breakerDelayMS_sound (nowMS baseMS maxMS : Int64) : BreakerDelaySound nowMS baseMS maxMS where
  fits openCount := (toInt_breakerDelayMS_mem openCount nowMS baseMS maxMS).1
  lower openCount := by
    obtain ⟨-, hlower, -⟩ := toInt_breakerDelayMS_mem openCount nowMS baseMS maxMS
    have hvalue := toInt_unjittered openCount baseMS maxMS
    have hgrow : max baseMS.toInt 1 * 1 ≤ max baseMS.toInt 1 * 2 ^ openCount.toNat :=
      mul_le_mul_of_nonneg_left (one_le_pow₀ (by omega)) (by omega)
    omega
  upper openCount := (toInt_breakerDelayMS_mem openCount nowMS baseMS maxMS).2.2
  grows m n hmn := by
    have hpow : (2 : ℤ) ^ m.toNat ≤ 2 ^ n.toNat := pow_le_pow_right₀ (by omega) (UInt32.le_iff_toNat_le.1 hmn)
    rw [toInt_unjittered, toInt_unjittered]
    exact min_le_min_left _ (mul_le_mul_of_nonneg_left hpow (by omega))
  reaches n hn := by
    have hpow : (2 : ℤ) ^ 63 ≤ 2 ^ n.toNat := pow_le_pow_right₀ (by omega) hn
    have hgrow : 1 * 2 ^ n.toNat ≤ max baseMS.toInt 1 * 2 ^ n.toNat :=
      mul_le_mul_of_nonneg_right (le_max_right _ _) (by omega)
    have hmax := maxMS.toInt_lt
    have hbase := baseMS.toInt_lt
    rw [toInt_unjittered]
    omega

end AimeeMemory.Module
