import Mathlib.Data.List.Perm.Basic
import Mathlib.Data.List.Pairwise

/-!
# The first test that holds

A list of tests is tried in order, and the first that holds decides. Where no two of them
hold together, the order decides nothing.
-/

namespace AimeeMemory.Lib

variable {α : Type*} {p : α → Bool}

/-- Where at most one entry holds, the first that does is the one that does. -/
theorem find?_eq_some_of_mem {xs : List α} (h : xs.Pairwise fun x y => ¬(p x ∧ p y)) {x : α} (hx : x ∈ xs) (hp : p x) :
    xs.find? p = some x := by
  induction xs with
  | nil => cases hx
  | cons y ys ih =>
    rw [List.pairwise_cons] at h
    rcases List.mem_cons.1 hx with rfl | hx
    · exact List.find?_cons_of_pos hp
    · have hy : ¬p y := fun hy => h.1 x hx ⟨hy, hp⟩
      rw [List.find?_cons_of_neg hy]
      exact ih h.2 hx

/-- At most one entry holds where no two of them do together. -/
theorem countP_le_one {xs : List α} (h : xs.Pairwise fun x y => ¬(p x ∧ p y)) : xs.countP p ≤ 1 := by
  induction xs with
  | nil => exact Nat.zero_le 1
  | cons x xs ih =>
    rw [List.pairwise_cons] at h
    by_cases hx : p x
    · have hnone : xs.countP p = 0 := List.countP_eq_zero.2 fun y hy hpy => h.1 y hy ⟨hx, hpy⟩
      exact Nat.le_of_eq (by rw [List.countP_cons_of_pos hx, hnone])
    · rw [List.countP_cons_of_neg hx]
      exact ih h.2

/-- **The order decides nothing** where at most one of the tests holds. -/
theorem find?_perm {xs ys : List α} (h : xs.Pairwise fun x y => ¬(p x ∧ p y)) (hperm : xs.Perm ys) :
    ys.find? p = xs.find? p := by
  have hys : ys.Pairwise fun x y => ¬(p x ∧ p y) :=
    hperm.pairwise h fun hxy hyx => hxy hyx.symm
  cases hfind : xs.find? p with
  | some x =>
    have hx := hperm.mem_iff.1 (List.mem_of_find?_eq_some hfind)
    exact find?_eq_some_of_mem hys hx (List.find?_some hfind)
  | none =>
    rw [List.find?_eq_none] at hfind ⊢
    exact fun y hy => hfind y (hperm.mem_iff.2 hy)

end AimeeMemory.Lib
