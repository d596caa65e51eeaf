import Mathlib.Data.Finset.Dedup
import Mathlib.Data.Finset.Card
import Mathlib.Data.Finset.Image
import Mathlib.Data.Finset.Lattice.Lemmas
import Mathlib.Algebra.Order.Field.Rat
import Mathlib.Algebra.Order.GroupWithZero.Basic

/-!
# The overlap of lists as sets

Two lists without repetitions, with what they share counted by a scan of the one for the
elements of the other. The counts are those of the intersection and of the union, so they
are the same from either side and know nothing of the order.

Sets that are compared by their images under a map, such as a hash to a few places, look as
alike as the images do: elements that the map merges are counted once, and elements of the
one set with an image in the other are counted as shared.
-/

namespace AimeeMemory.Lib

variable {α : Type*} [DecidableEq α] {xs ys : List α}

/-- How many elements of the one list are in the other. -/
def sharedWith (xs ys : List α) : ℕ := xs.countP (· ∈ ys)

theorem sharedWith_eq_card (hx : xs.Nodup) : sharedWith xs ys = (xs.toFinset ∩ ys.toFinset).card := by
  have hfilter : xs.toFinset ∩ ys.toFinset = (xs.filter (· ∈ ys)).toFinset := by
    ext a
    simp
  rw [hfilter, List.toFinset_card_of_nodup (hx.filter _), sharedWith, List.countP_eq_length_filter]

/-- The two lengths less what is shared are the size of the union. -/
theorem length_add_length_sub_sharedWith (hx : xs.Nodup) (hy : ys.Nodup) :
    xs.length + ys.length - sharedWith xs ys = (xs.toFinset ∪ ys.toFinset).card := by
  have hcard := Finset.card_union_add_card_inter xs.toFinset ys.toFinset
  rw [List.toFinset_card_of_nodup hx, List.toFinset_card_of_nodup hy] at hcard
  rw [sharedWith_eq_card hx]
  omega

/-! ## The share of what two sets have in common -/

/-- The Jaccard similarity of two sets. -/
def jaccard (a b : Finset α) : ℚ := ((a ∩ b).card : ℚ) / ((a ∪ b).card : ℚ)

/-- A bound on the share, in whole numbers. -/
theorem le_jaccard_iff {a b : Finset α} (h : a ≠ ∅) {n d : ℕ} (hd : 0 < d) :
    (n : ℚ) / (d : ℚ) ≤ jaccard a b ↔ n * (a ∪ b).card ≤ d * (a ∩ b).card := by
  have hpos : 0 < (a ∪ b).card := by
    rw [Finset.card_pos]
    exact (Finset.nonempty_iff_ne_empty.2 h).mono Finset.subset_union_left
  rw [jaccard, div_le_div_iff₀ (Nat.cast_pos.2 hd) (Nat.cast_pos.2 hpos), ← Nat.cast_mul, ← Nat.cast_mul, Nat.cast_le,
    Nat.mul_comm d]

variable {β : Type*} [DecidableEq β] (f : α → β) (a b : Finset α)

/-- How many elements a map merges with others. -/
def merged (s : Finset α) : ℤ := (s.card : ℤ) - ((s.image f).card : ℤ)

/-- How many more images two sets share than elements. -/
def falselyShared : ℤ := ((a.image f ∩ b.image f).card : ℤ) - ((a ∩ b).card : ℤ)

/-- **How alike the images look**: a bound on the share holds of them where the merged and the falsely
shared elements make up for what the sets are short of it. -/
theorem image_share_iff (n d : ℕ) : n * (a.image f ∪ b.image f).card ≤ d * (a.image f ∩ b.image f).card ↔
    (n * (a ∪ b).card : ℤ) - d * (a ∩ b).card ≤ d * falselyShared f a b + n * merged f (a ∪ b) := by
  rw [falselyShared, merged, Finset.image_union, ← Int.ofNat_le, Nat.cast_mul, Nat.cast_mul, mul_sub, mul_sub]
  constructor <;> intro h <;> omega

variable {f a b}

/-- A map that tells the elements apart merges none of them and shares none falsely. -/
theorem not_merged_of_injOn (h : Set.InjOn f (a ∪ b : Finset α)) : merged f (a ∪ b) = 0 ∧ falselyShared f a b = 0 := by
  constructor
  · rw [merged, Finset.card_image_of_injOn h, sub_self]
  · have hinter : a.image f ∩ b.image f = (a ∩ b).image f := by
      refine (Finset.image_inter_of_injOn _ _ ?_).symm
      rwa [← Finset.coe_union]
    rw [falselyShared, hinter, Finset.card_image_of_injOn (h.mono ?_), sub_self]
    exact_mod_cast Finset.inter_subset_left.trans Finset.subset_union_left

end AimeeMemory.Lib
