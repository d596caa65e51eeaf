import Mathlib.Data.List.Basic

/-!
# Runs of a predicate

The maximal runs of elements that satisfy a predicate, in their order. Joined by an element that
does not satisfy it they can be read off again (`runs_eq_of_joined_eq`).
-/

namespace AimeeMemory.Lib

variable {α : Type*} {p : α → Bool} {x sep : α} {r xs ys : List α} {rs : List (List α)}

/-- The lists that are not empty. -/
def nonempties (rs : List (List α)) : List (List α) := rs.filter fun r => !r.isEmpty

/-- The maximal runs of elements that satisfy `p`. -/
def runs (p : α → Bool) (xs : List α) : List (List α) := nonempties (xs.splitOnP fun x => !p x)

/-- Lists one after the other, with an element between them. -/
def joined (sep : α) (rs : List (List α)) : List α := [sep].intercalate rs

theorem joined_cons (sep : α) (r : List α) (rs : List (List α)) : joined sep (r :: rs) = r ++ rs.flatMap (sep :: ·) := by
  induction rs generalizing r with
  | nil => simp [joined]
  | cons r' rs ih =>
    rw [joined, List.intercalate_cons_cons, ← joined, ih]
    simp

/-- A word with its separator stands before what is left of a joined list exactly where it is the
first word there, and not the last. -/
theorem append_sep_prefix_iff (hr : sep ∉ r) (hxs : sep ∉ xs) (hys : ys = [] ∨ ys.head? = some sep) :
    r ++ [sep] <+: xs ++ ys ↔ r = xs ∧ ys ≠ [] := by
  induction r generalizing xs with
  | nil =>
    cases xs with
    | nil =>
      rcases hys with rfl | hys
      · simp
      · obtain ⟨ys, rfl⟩ := List.head?_eq_some_iff.1 hys
        simp
    | cons x xs =>
      have hx : sep ≠ x := fun h => hxs (h ▸ List.mem_cons_self)
      simp [hx]
  | cons a r ih =>
    have ha : a ≠ sep := fun h => hr (h ▸ List.mem_cons_self)
    cases xs with
    | nil =>
      rcases hys with rfl | hys
      · simp
      · obtain ⟨ys, rfl⟩ := List.head?_eq_some_iff.1 hys
        simp [ha]
    | cons x xs =>
      rw [List.cons_append, List.cons_append, List.cons_prefix_cons, List.cons.injEq, and_assoc,
        ih (fun h => hr (List.mem_cons_of_mem _ h)) fun h => hxs (List.mem_cons_of_mem _ h)]

@[simp] theorem runs_nil (p : α → Bool) : runs p [] = [] := by simp [runs, nonempties]

theorem runs_cons_of_not (h : p x = false) : runs p (x :: xs) = runs p xs := by
  simp [runs, nonempties, List.splitOnP_cons_eq_if_modifyHead, h]

theorem runs_cons_of (h : p x = true) (hsplit : (xs.splitOnP fun x => !p x) = r :: rs) :
    runs p (x :: xs) = (x :: r) :: nonempties rs := by
  simp [runs, nonempties, List.splitOnP_cons_eq_if_modifyHead, h, hsplit]

theorem of_mem_splitOnP {q : α → Bool} (hr : r ∈ xs.splitOnP q) : ∀ x ∈ r, q x = false := by
  induction xs generalizing r with
  | nil =>
    obtain rfl : r = [] := by simpa using hr
    exact nofun
  | cons y ys ih =>
    rw [List.splitOnP_cons_eq_if_modifyHead] at hr
    split at hr
    · rcases List.mem_cons.1 hr with rfl | hr
      · exact nofun
      · exact ih hr
    · rename_i hy
      obtain ⟨s, ss, hs⟩ := List.exists_cons_of_ne_nil (List.splitOnP_ne_nil q ys)
      rw [hs, List.modifyHead_cons] at hr
      rcases List.mem_cons.1 hr with rfl | hr
      · intro x hx
        rcases List.mem_cons.1 hx with rfl | hx
        · exact Bool.eq_false_iff.2 hy
        · exact ih (hs ▸ List.mem_cons_self) x hx
      · exact ih (hs ▸ List.mem_cons_of_mem s hr)

theorem of_mem_runs (hr : r ∈ runs p xs) : r ≠ [] ∧ ∀ x ∈ r, p x := by
  obtain ⟨hmem, hne⟩ := List.mem_filter.1 hr
  refine ⟨by simpa using hne, fun x hx => ?_⟩
  simpa using of_mem_splitOnP hmem x hx

theorem joined_runs_eq_nil (h : joined sep (runs p xs) = []) : runs p xs = [] := by
  cases hruns : runs p xs with
  | nil => rfl
  | cons r rs =>
    rw [hruns, joined_cons] at h
    exact absurd (List.append_eq_nil_iff.1 h).1 (of_mem_runs (hruns ▸ List.mem_cons_self)).1

/-- What separates the runs is in none of them, so that they can be told apart. -/
theorem runs_eq_of_joined_eq [DecidableEq α] (hsep : p sep = false) (h : joined sep (runs p xs) = joined sep (runs p ys)) :
    runs p xs = runs p ys := by
  have hfree : ∀ zs : List α, ∀ r ∈ runs p zs, sep ∉ r := by
    intro zs r hr hmem
    rw [(of_mem_runs hr).2 sep hmem] at hsep
    cases hsep
  by_cases hx : runs p xs = []
  · rw [hx]
    rw [hx] at h
    exact (joined_runs_eq_nil h.symm).symm
  · have hy : runs p ys ≠ [] := by
      intro hy
      rw [hy] at h
      exact hx (joined_runs_eq_nil h)
    rw [← List.splitOn_intercalate sep (hfree xs) hx, ← List.splitOn_intercalate sep (hfree ys) hy]
    exact congrArg (List.splitOn sep) h

end AimeeMemory.Lib
