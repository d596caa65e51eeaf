import Mathlib.Data.Finset.Card
import Mathlib.Data.Finset.Image
import Mathlib.Data.Finset.Lattice.Lemmas
import Mathlib.Data.Nat.Bitwise

/-!
# Words as sets of bits

A word stands for the set of its bits. The operations of the word are those of the set, and
a set of places written into a word bit by bit is read back.
-/

namespace AimeeMemory.Lib

variable {n : ℕ}

/-- The places of the bits that are set. -/
def bitSet (x : BitVec n) : Finset ℕ := (Finset.range n).filter fun i => x.getLsbD i

theorem mem_bitSet {x : BitVec n} {i : ℕ} : i ∈ bitSet x ↔ x.getLsbD i := by
  rw [bitSet, Finset.mem_filter, Finset.mem_range, and_iff_right_iff_imp]
  exact BitVec.lt_of_getLsbD

/-- The count of the bits by a scan of the places is the size of the set. -/
theorem countP_getLsbD (x : BitVec n) : (List.range n).countP (x.getLsbD ·) = (bitSet x).card := by
  rw [bitSet, List.countP_eq_length_filter, ← List.toFinset_card_of_nodup (List.nodup_range.filter _)]
  congr 1
  ext i
  simp

@[simp] theorem bitSet_zero : bitSet (0#n) = ∅ := by
  ext i
  simp [mem_bitSet]

@[simp] theorem bitSet_or (x y : BitVec n) : bitSet (x ||| y) = bitSet x ∪ bitSet y := by
  ext i
  simp [mem_bitSet]

@[simp] theorem bitSet_and (x y : BitVec n) : bitSet (x &&& y) = bitSet x ∩ bitSet y := by
  ext i
  simp [mem_bitSet]

/-- A word with one bit. -/
theorem bitSet_shiftLeft_one {k : ℕ} (hk : k < n) : bitSet (1#n <<< k) = {k} := by
  ext i
  rw [mem_bitSet, BitVec.getLsbD_shiftLeft, Finset.mem_singleton]
  simp only [BitVec.getLsbD_one, Bool.and_eq_true, decide_eq_true_eq, Bool.not_eq_true', decide_eq_false_iff_not]
  omega

/-- A word is zero where it has no bit. -/
theorem bitSet_eq_empty_iff {x : BitVec n} : bitSet x = ∅ ↔ x = 0#n := by
  constructor
  · intro h
    apply BitVec.eq_of_getLsbD_eq
    intro i _
    have hnot : i ∉ bitSet x := h ▸ Finset.notMem_empty i
    rw [mem_bitSet, Bool.not_eq_true] at hnot
    rw [hnot, BitVec.getLsbD_zero]
  · rintro rfl
    exact bitSet_zero

/-- Places written into a word one after the other. -/
theorem bitSet_foldl_or {α : Type*} (place : α → ℕ) (hplace : ∀ a, place a < n) (xs : List α) (bits : BitVec n) :
    bitSet (xs.foldl (fun bits a => bits ||| (1#n <<< place a)) bits) = bitSet bits ∪ (xs.map place).toFinset := by
  induction xs generalizing bits with
  | nil => simp
  | cons a xs ih =>
    rw [List.foldl_cons, ih, bitSet_or, bitSet_shiftLeft_one (hplace a), List.map_cons, List.toFinset_cons,
      Finset.union_assoc, Finset.singleton_union]

end AimeeMemory.Lib
