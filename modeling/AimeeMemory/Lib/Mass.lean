import Mathlib.Algebra.BigOperators.Group.List.Lemmas
import Mathlib.Algebra.BigOperators.Ring.List
import Mathlib.Algebra.Order.BigOperators.Group.List
import Mathlib.Algebra.Order.Field.Basic
import Mathlib.Algebra.Order.Ring.Rat
import Mathlib.Tactic.Ring

/-!
# Mass on a list

Positive numbers with a given total, as a list. Shares of a further mass are poured over
them, one list of shares after another; the total grows by what is poured.

A mass is shared out by weights: some of the shares make up the whole only if they are all.
-/

namespace AimeeMemory.Lib

/-- The greatest of the elements and a first value. -/
theorem foldl_greatest {K : Type*} [LinearOrder K] (xs : List K) (b : K) :
    b ≤ xs.foldl (fun best x => if best < x then x else best) b ∧
      (∀ x ∈ xs, x ≤ xs.foldl (fun best x => if best < x then x else best) b) ∧
      (xs.foldl (fun best x => if best < x then x else best) b = b ∨
        xs.foldl (fun best x => if best < x then x else best) b ∈ xs) := by
  induction xs generalizing b with
  | nil => exact ⟨le_refl b, fun x hx => (nomatch hx), .inl rfl⟩
  | cons x xs ih =>
    rw [List.foldl_cons]
    obtain ⟨hle, hall, hfrom⟩ := ih (if b < x then x else b)
    by_cases hlt : b < x
    · rw [if_pos hlt] at hle hall hfrom ⊢
      refine ⟨le_trans (le_of_lt hlt) hle, ?_, .inr ?_⟩
      · intro y hy
        rcases List.mem_cons.1 hy with rfl | hy
        · exact hle
        · exact hall y hy
      · rcases hfrom with heq | hmem
        · rw [heq]
          exact List.mem_cons_self
        · exact List.mem_cons_of_mem _ hmem
    · rw [if_neg hlt] at hle hall hfrom ⊢
      refine ⟨hle, ?_, hfrom.imp id (List.mem_cons_of_mem _)⟩
      intro y hy
      rcases List.mem_cons.1 hy with rfl | hy
      · exact le_trans (not_lt.1 hlt) hle
      · exact hall y hy

variable {K : Type*} [Field K] [LinearOrder K] {n : ℕ} {total : K} {xs : List K}

/-- So many positive numbers, of a total. -/
structure Spread (n : ℕ) (total : K) (xs : List K) : Prop where
  length_eq : xs.length = n
  sum_eq : xs.sum = total
  pos : ∀ x ∈ xs, 0 < x

/-- Each element with its share. -/
def pour (share : ℕ → K) (xs : List K) : List K := xs.mapIdx fun j x => x + share j

/-- What is poured on `n` elements. -/
def poured (share : ℕ → K) (n : ℕ) : K := ((List.range n).map share).sum

omit [LinearOrder K] in
theorem sum_pour (share : ℕ → K) (xs : List K) : (pour share xs).sum = xs.sum + poured share xs.length := by
  induction xs generalizing share with
  | nil => simp [pour, poured]
  | cons x xs ih =>
    have htail := ih fun j => share (j + 1)
    rw [pour] at htail
    rw [pour, List.mapIdx_cons, List.sum_cons, List.sum_cons, htail, poured, poured, List.length_cons, List.range_succ_eq_map,
      List.map_cons, List.sum_cons, List.map_map]
    simp only [Function.comp_def, Nat.succ_eq_add_one]
    ring

theorem Spread.replicate (n : ℕ) {c : K} (hc : 0 < c) : Spread n (n * c) (List.replicate n c) where
  length_eq := List.length_replicate
  sum_eq := by rw [List.sum_replicate, nsmul_eq_mul]
  pos := by
    intro x hx
    rwa [List.eq_of_mem_replicate hx]

variable [IsStrictOrderedRing K]

theorem Spread.pour (h : Spread n total xs) {share : ℕ → K} (hshare : ∀ j < n, 0 ≤ share j) :
    Spread n (total + poured share n) (pour share xs) where
  length_eq := by rw [Lib.pour, List.length_mapIdx, h.length_eq]
  sum_eq := by rw [sum_pour, h.sum_eq, h.length_eq]
  pos := by
    intro y hy
    obtain ⟨j, hj, rfl⟩ := List.mem_mapIdx.1 hy
    exact add_pos_of_pos_of_nonneg (h.pos _ (List.getElem_mem hj)) (hshare j (h.length_eq ▸ hj))

/-- Shares of several masses, one after another. -/
theorem Spread.foldl_pour {ι : Type*} {is : List ι} {share : ι → ℕ → K} (h : Spread n total xs)
    (hshare : ∀ i ∈ is, ∀ j < n, 0 ≤ share i j) :
    Spread n (total + (is.map fun i => poured (share i) n).sum) (is.foldl (fun xs i => Lib.pour (share i) xs) xs) := by
  induction is generalizing total xs with
  | nil => simpa using h
  | cons i is ih =>
    have hone := h.pour (hshare i List.mem_cons_self)
    have hrest := ih hone fun i' hi' => hshare i' (List.mem_cons_of_mem _ hi')
    rwa [add_assoc, ← List.sum_cons, ← List.map_cons (f := fun i => poured (share i) n)] at hrest

/-! ### Sharing out -/

section

variable {ι : Type*} {is : List ι} {weight : ι → K} {p : ι → Bool}

/-- Some of the positive weights have the sum of all only if they are all. -/
theorem sum_filter_eq_sum_iff (hpos : ∀ i ∈ is, 0 < weight i) :
    ((is.filter p).map weight).sum = (is.map weight).sum ↔ ∀ i ∈ is, p i := by
  induction is with
  | nil => simp
  | cons i is ih =>
    obtain ⟨hi, his⟩ := List.forall_mem_cons.1 hpos
    rw [List.forall_mem_cons, List.map_cons, List.sum_cons]
    by_cases hp : p i
    · rw [List.filter_cons_of_pos hp, List.map_cons, List.sum_cons, add_right_inj, ih his, and_iff_right hp]
    · rw [List.filter_cons_of_neg hp]
      have hle : ((is.filter p).map weight).sum ≤ (is.map weight).sum := by
        refine (List.filter_sublist.map weight).sum_le_sum fun w hw => ?_
        obtain ⟨j, hj, rfl⟩ := List.mem_map.1 hw
        exact (his j hj).le
      exact iff_of_false (hle.trans_lt (lt_add_of_pos_left _ hi)).ne fun hall => hp hall.1

theorem sum_weights_pos (hpos : ∀ i ∈ is, 0 < weight i) (hne : is ≠ []) : 0 < (is.map weight).sum := by
  refine List.sum_pos _ (fun w hw => ?_) (mt List.map_eq_nil_iff.1 hne)
  obtain ⟨i, hi, rfl⟩ := List.mem_map.1 hw
  exact hpos i hi

/-- Some of the shares of an amount make it up only if they are all. -/
theorem sum_filter_shares_eq_iff {amount : K} (hamount : amount ≠ 0) (hne : is ≠ []) (hpos : ∀ i ∈ is, 0 < weight i) :
    ((is.filter p).map fun i => amount * weight i / (is.map weight).sum).sum = amount ↔ ∀ i ∈ is, p i := by
  have htotal := (sum_weights_pos hpos hne).ne'
  rw [← sum_filter_eq_sum_iff hpos]
  simp only [mul_div_right_comm]
  rw [List.sum_map_mul_left, div_mul_eq_mul_div, div_eq_iff htotal, mul_right_inj' hamount]

end

end AimeeMemory.Lib
