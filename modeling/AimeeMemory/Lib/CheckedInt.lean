import Mathlib.Algebra.Order.Ring.Int
import Mathlib.Algebra.Order.Ring.Nat

/-!
# Signed words that do not overflow

Operations on `Int64` that have a result only where the integers they stand for have one of 64
bits. Where they have a result it is that of the operation that wraps.
-/

namespace AimeeMemory.Lib

/-- An integer that a signed word of 64 bits holds. -/
def FitsInt64 (z : ℤ) : Prop := -2 ^ 63 ≤ z ∧ z < 2 ^ 63

instance (z : ℤ) : Decidable (FitsInt64 z) := inferInstanceAs (Decidable (_ ∧ _))

def fitInt64 (z : ℤ) : Option Int64 := if FitsInt64 z then some (.ofInt z) else none

def checkedAdd (a b : Int64) : Option Int64 := fitInt64 (a.toInt + b.toInt)

def checkedSub (a b : Int64) : Option Int64 := fitInt64 (a.toInt - b.toInt)

def checkedMul (a b : Int64) : Option Int64 := fitInt64 (a.toInt * b.toInt)

variable {a b x : Int64} {z : ℤ}

theorem fitInt64_eq_some_iff : fitInt64 z = some x ↔ x.toInt = z := by
  have hge := x.le_toInt
  have hlt := x.toInt_lt
  rw [fitInt64]
  split_ifs with h
  · rw [Option.some.injEq]
    constructor
    · rintro rfl
      exact Int64.toInt_ofInt_of_le h.1 h.2
    · rintro rfl
      exact Int64.ofInt_toInt x
  · refine ⟨fun hnone => (by cases hnone), ?_⟩
    rintro rfl
    exact absurd ⟨hge, hlt⟩ h

theorem toInt_bmod (h : FitsInt64 z) : z.bmod (2 ^ 64) = z := Int.bmod_eq_of_le (by have := h.1; omega) (by have := h.2; omega)

theorem toInt_add_of_fits (h : FitsInt64 (a.toInt + b.toInt)) : (a + b).toInt = a.toInt + b.toInt := by
  rw [Int64.toInt_add, toInt_bmod h]

theorem toInt_sub_of_fits (h : FitsInt64 (a.toInt - b.toInt)) : (a - b).toInt = a.toInt - b.toInt := by
  rw [Int64.toInt_sub, toInt_bmod h]

theorem toInt_mul_of_fits (h : FitsInt64 (a.toInt * b.toInt)) : (a * b).toInt = a.toInt * b.toInt := by
  rw [Int64.toInt_mul, toInt_bmod h]

theorem checkedAdd_of_fits (h : FitsInt64 (a.toInt + b.toInt)) : checkedAdd a b = some (a + b) :=
  fitInt64_eq_some_iff.2 (toInt_add_of_fits h)

theorem checkedSub_of_fits (h : FitsInt64 (a.toInt - b.toInt)) : checkedSub a b = some (a - b) :=
  fitInt64_eq_some_iff.2 (toInt_sub_of_fits h)

theorem checkedMul_of_fits (h : FitsInt64 (a.toInt * b.toInt)) : checkedMul a b = some (a * b) :=
  fitInt64_eq_some_iff.2 (toInt_mul_of_fits h)

/-- A word is divided as its integer is, where neither is negative. -/
theorem toInt_div_of_nonneg (ha : 0 ≤ a.toInt) (hb : 0 < b.toInt) : (a / b).toInt = a.toInt / b.toInt := by
  have hlt := a.toInt_lt
  have hle : a.toInt / b.toInt ≤ a.toInt := Int.ediv_le_self _ ha
  have hnonneg : 0 ≤ a.toInt / b.toInt := Int.ediv_nonneg ha hb.le
  rw [Int64.toInt_div, Int.tdiv_eq_ediv_of_nonneg ha, toInt_bmod ⟨by omega, by omega⟩]

/-- A word that is not negative, read without its sign. -/
theorem toNat_toUInt64 (h : 0 ≤ a.toInt) : (a.toUInt64.toNat : ℤ) = a.toInt := by
  have hnonneg : (0 : Int64) ≤ a := by
    rw [Int64.le_iff_toInt_le]
    exact h
  rw [Int64.toNat_toUInt64_of_le hnonneg, Int64.toNatClampNeg]
  omega

/-- An unsigned word below the sign, read with it. -/
theorem toInt_toInt64 {w : UInt64} (h : w.toNat < 2 ^ 63) : w.toInt64.toInt = w.toNat := by
  rw [← Int64.toInt_toBitVec, UInt64.toBitVec_toInt64, BitVec.toInt_eq_toNat_of_lt (by rw [UInt64.toNat_toBitVec]; omega),
    UInt64.toNat_toBitVec]

end AimeeMemory.Lib
