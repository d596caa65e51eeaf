import AimeeMemory.Lib.Greedy
import Mathlib.Algebra.Order.BigOperators.Group.List
import Mathlib.Algebra.Order.Ring.Nat
import Mathlib.Data.List.Induction

/-!
# Filling up

Elements are taken in their order while their lengths stay within a cap. One that would fit
alone is left out only for those taken before it; this happens to none iff all that fit
alone fit together (`noneGivesWay_iff`).
-/

namespace AimeeMemory.Lib

variable {α : Type*} (cap : ℤ) (len : α → ℕ) {xs : List α} {x : α}

/-- The length of a list of elements. -/
def lengthOf (xs : List α) : ℕ := (xs.map len).sum

/-- The criterion that what is left of the cap is too little for an element. -/
def overfull (taken : List α) (x : α) : Bool := cap < (lengthOf len taken + len x : ℕ)

/-- The elements that fit alone. -/
def fitting (xs : List α) : List α := xs.filter fun x => len x ≤ cap

/-- If some element fits alone, all that do fit together. -/
def FitTogether (xs : List α) : Prop := ∀ x ∈ xs, len x ≤ cap → lengthOf len (fitting cap len xs) ≤ cap

/-- What is left out behind one that is taken does not fit alone. -/
def NoneGivesWay (xs : List α) : Prop :=
  ∀ x y, [x, y].Sublist xs → x ∈ greedy (overfull cap len) xs → y ∉ greedy (overfull cap len) xs → cap < len y

variable {cap len}

@[simp] theorem lengthOf_concat (xs : List α) (x : α) : lengthOf len (xs ++ [x]) = lengthOf len xs + len x := by
  simp [lengthOf]

theorem lengthOf_sublist (len : α → ℕ) {ys : List α} (h : ys.Sublist xs) : lengthOf len ys ≤ lengthOf len xs :=
  List.Sublist.sum_le_sum (h.map _) fun _ _ => Nat.zero_le _

theorem lengthOf_greedyFrom_le {taken : List α} (h : lengthOf len taken ≤ cap) :
    lengthOf len (greedyFrom (overfull cap len) taken xs) ≤ cap := by
  induction xs generalizing taken with
  | nil => exact h
  | cons x xs ih =>
    rw [greedyFrom]
    refine ih ?_
    split
    · exact h
    · rename_i hroom
      rw [lengthOf_concat]
      simpa [overfull] using hroom

/-- What is taken fits alone. -/
theorem le_cap_of_mem_greedy (h : x ∈ greedy (overfull cap len) xs) : len x ≤ cap := by
  induction xs using List.reverseRecOn with
  | nil => cases h
  | append_singleton xs y ih =>
    rw [greedy_concat] at h
    split at h
    · exact ih h
    · rename_i hroom
      rcases List.mem_append.1 h with h | h
      · exact ih h
      · obtain rfl := List.mem_singleton.1 h
        have hle : ((lengthOf len (greedy (overfull cap len) xs) + len x : ℕ) : ℤ) ≤ cap := by
          simpa [overfull] using hroom
        omega

/-- What is left out had too little room when its turn came. -/
theorem overfull_of_notMem (hnodup : xs.Nodup) (hx : x ∈ xs) (hnot : x ∉ greedy (overfull cap len) xs) :
    ∃ pre post, xs = pre ++ x :: post ∧ cap < (lengthOf len (greedy (overfull cap len) pre) + len x : ℕ) := by
  obtain ⟨pre, post, rfl⟩ := List.append_of_mem hx
  have hover : overfull cap len (greedy (overfull cap len) pre) x = true := by
    rw [mem_greedy_append hnodup] at hnot
    simpa using hnot
  exact ⟨pre, post, rfl, of_decide_eq_true hover⟩

/-- Nothing is taken iff nothing fits alone. -/
theorem greedy_overfull_eq_nil_iff : greedy (overfull cap len) xs = [] ↔ ∀ x ∈ xs, cap < len x := by
  induction xs using List.reverseRecOn with
  | nil => exact iff_of_true rfl nofun
  | append_singleton xs y ih =>
    rw [greedy_concat]
    constructor
    · intro h
      split at h
      · rename_i hover
        rw [h, overfull, decide_eq_true_iff] at hover
        intro x hx
        rcases List.mem_append.1 hx with hx | hx
        · exact ih.1 h x hx
        · obtain rfl := List.mem_singleton.1 hx
          simpa [lengthOf] using hover
      · exact absurd h (by simp)
    · intro h
      have hnil := ih.2 fun x hx => h x (List.mem_append_left _ hx)
      have hover : overfull cap len [] y = true := by
        rw [overfull, decide_eq_true_iff]
        simpa [lengthOf] using h y (by simp)
      rw [hnil, if_pos hover]

/-- **All that fit alone fit together iff each of them is taken.** -/
theorem fitTogether_iff (hnodup : xs.Nodup) :
    FitTogether cap len xs ↔ ∀ x ∈ xs, len x ≤ cap → x ∈ greedy (overfull cap len) xs := by
  constructor
  · intro hfit x hx hlen
    by_contra hnot
    obtain ⟨pre, post, hxs, hover⟩ := overfull_of_notMem hnodup hx hnot
    -- those taken before `x` fit alone, and so does `x`
    have htaken : (greedy (overfull cap len) pre ++ [x]).Sublist (fitting cap len xs) := by
      have hfits : (greedy (overfull cap len) pre ++ [x]).filter (fun y => len y ≤ cap) =
          greedy (overfull cap len) pre ++ [x] := by
        refine List.filter_eq_self.2 fun y hy => decide_eq_true ?_
        rcases List.mem_append.1 hy with hy | hy
        · exact le_cap_of_mem_greedy hy
        · obtain rfl := List.mem_singleton.1 hy
          exact hlen
      have hall : (greedy (overfull cap len) pre ++ [x]).Sublist xs := by
        rw [hxs]
        exact (greedy_sublist pre).append (List.singleton_sublist.2 List.mem_cons_self)
      exact hfits ▸ hall.filter _
    have hle := lengthOf_sublist len htaken
    rw [lengthOf_concat] at hle
    have hcap := hfit x hx hlen
    omega
  · intro htaken x hx hlen
    have hgreedy : lengthOf len (greedy (overfull cap len) xs) ≤ cap := by
      refine lengthOf_greedyFrom_le ?_
      have hnil : lengthOf len ([] : List α) = 0 := rfl
      omega
    have hsubset : fitting cap len xs ⊆ greedy (overfull cap len) xs := by
      intro y hy
      obtain ⟨hmem, hfits⟩ := List.mem_filter.1 hy
      exact htaken y hmem (of_decide_eq_true hfits)
    obtain ⟨ys, hperm, hsub⟩ := List.subperm_of_subset (hnodup.filter _) hsubset
    have hsum : lengthOf len ys = lengthOf len (fitting cap len xs) := (hperm.map len).sum_eq
    have hle := lengthOf_sublist len hsub
    omega

theorem fitTogether_perm {ys : List α} (h : xs.Perm ys) : FitTogether cap len xs ↔ FitTogether cap len ys := by
  have hlength : lengthOf len (fitting cap len xs) = lengthOf len (fitting cap len ys) := ((h.filter _).map len).sum_eq
  simp only [FitTogether, h.mem_iff, hlength]

/-- **None gives way iff all that fit alone fit together.** -/
theorem noneGivesWay_iff (hnodup : xs.Nodup) : NoneGivesWay cap len xs ↔ FitTogether cap len xs := by
  rw [fitTogether_iff hnodup]
  constructor
  · intro hnone y hy hlen
    by_contra hnot
    obtain ⟨pre, post, rfl, hover⟩ := overfull_of_notMem hnodup hy hnot
    -- something was taken before `y`, as `y` fits alone
    have hne : greedy (overfull cap len) pre ≠ [] := by
      intro hnil
      rw [hnil] at hover
      have hzero : lengthOf len ([] : List α) = 0 := rfl
      omega
    obtain ⟨x, hx⟩ := List.exists_mem_of_ne_nil _ hne
    have hbefore : ([x] ++ [y]).Sublist (pre ++ y :: post) :=
      (List.singleton_sublist.2 (mem_of_mem_greedy hx)).append (List.singleton_sublist.2 List.mem_cons_self)
    have hgives := hnone x y hbefore ((prefix_greedy_append pre (y :: post)).subset hx) hnot
    omega
  · intro htaken x y hbefore _ hnot
    by_contra hlen
    exact hnot (htaken y (hbefore.subset (by simp)) (by omega))

end AimeeMemory.Lib
