import Mathlib.Data.List.Basic

/-!
# Greedy selection

The elements of a list in their order, without those that a criterion excludes beside the
ones chosen before them. One such criterion is to be related to one of them. Where the
relation keeps within the classes of a predicate, the selection from a class is the class
of the selection (`greedy_filter`).
-/

namespace AimeeMemory.Lib

variable {α : Type*} {excluded : List α → α → Bool} {same : α → α → Bool} {chosen xs : List α} {x : α}

/-- The selection, behind what is chosen already. -/
def greedyFrom (excluded : List α → α → Bool) : List α → List α → List α
  | chosen, [] => chosen
  | chosen, x :: xs => greedyFrom excluded (if excluded chosen x then chosen else chosen ++ [x]) xs

def greedy (excluded : List α → α → Bool) (xs : List α) : List α := greedyFrom excluded [] xs

/-- The criterion to be related to one of those chosen. -/
def related (same : α → α → Bool) (chosen : List α) (x : α) : Bool := chosen.any (same x)

theorem greedyFrom_append (chosen xs ys : List α) :
    greedyFrom excluded chosen (xs ++ ys) = greedyFrom excluded (greedyFrom excluded chosen xs) ys := by
  induction xs generalizing chosen with
  | nil => rfl
  | cons x xs ih => exact ih _

theorem greedy_concat (xs : List α) (x : α) :
    greedy excluded (xs ++ [x]) =
      if excluded (greedy excluded xs) x then greedy excluded xs else greedy excluded xs ++ [x] :=
  greedyFrom_append [] xs [x]

theorem prefix_greedyFrom (chosen xs : List α) : chosen <+: greedyFrom excluded chosen xs := by
  induction xs generalizing chosen with
  | nil => exact List.prefix_refl _
  | cons x xs ih =>
    refine List.IsPrefix.trans ?_ (ih _)
    split
    · exact List.prefix_refl _
    · exact List.prefix_append _ _

/-- What is chosen of the first elements begins what is chosen of all. -/
theorem prefix_greedy_append (xs ys : List α) : greedy excluded xs <+: greedy excluded (xs ++ ys) := by
  rw [greedy, greedy, greedyFrom_append]
  exact prefix_greedyFrom _ _

/-- What is chosen beyond `chosen` is a part of the list, in its order. -/
theorem greedyFrom_sublist (chosen xs : List α) : (greedyFrom excluded chosen xs).Sublist (chosen ++ xs) := by
  induction xs generalizing chosen with
  | nil => exact (List.append_nil chosen).symm ▸ List.Sublist.refl _
  | cons x xs ih =>
    refine (ih _).trans ?_
    split
    · exact (List.Sublist.refl _).append (List.sublist_cons_self _ _)
    · exact (List.append_assoc chosen [x] xs).symm ▸ List.Sublist.refl _

theorem greedy_sublist (xs : List α) : (greedy excluded xs).Sublist xs := greedyFrom_sublist [] xs

theorem mem_of_mem_greedy (h : x ∈ greedy excluded xs) : x ∈ xs := (greedy_sublist xs).subset h

/-- An element of a list without repetitions is chosen iff those chosen before it do not exclude it. -/
theorem mem_greedy_append {pre post : List α} (hnodup : (pre ++ x :: post).Nodup) :
    x ∈ greedy excluded (pre ++ x :: post) ↔ excluded (greedy excluded pre) x = false := by
  obtain ⟨-, hcons, hdisjoint⟩ := List.nodup_append.1 hnodup
  have hpre : x ∉ greedy excluded pre := fun hmem => hdisjoint x (mem_of_mem_greedy hmem) x List.mem_cons_self rfl
  rw [greedy, greedyFrom_append, greedyFrom, ← greedy]
  constructor
  · intro hmem
    by_contra hout
    rw [if_pos (by simpa using hout)] at hmem
    rcases List.mem_append.1 ((greedyFrom_sublist _ _).subset hmem) with hmem | hmem
    · exact hpre hmem
    · exact (List.nodup_cons.1 hcons).1 hmem
  · intro hout
    rw [if_neg (by simp [hout])]
    exact (prefix_greedyFrom _ _).subset (by simp)

/-- Two criteria choose the same where they agree beside all that one of them chooses on the way. -/
theorem greedyFrom_congr {excluded' : List α → α → Bool}
    (h : ∀ pre x post, xs = pre ++ x :: post →
      excluded' (greedyFrom excluded chosen pre) x = excluded (greedyFrom excluded chosen pre) x) :
    greedyFrom excluded' chosen xs = greedyFrom excluded chosen xs := by
  induction xs generalizing chosen with
  | nil => rfl
  | cons x xs ih =>
    have hhead : excluded' chosen x = excluded chosen x := h [] x xs rfl
    rw [greedyFrom, greedyFrom, hhead]
    exact ih fun pre y post hsplit => h (x :: pre) y post (congrArg (x :: ·) hsplit)

/-! ## Elements that are related -/

/-- What is not chosen is related to something chosen. -/
theorem exists_same_of_notMem (hx : x ∈ xs) (hnot : x ∉ greedyFrom (related same) chosen xs) :
    ∃ y ∈ greedyFrom (related same) chosen xs, same x y = true := by
  induction xs generalizing chosen with
  | nil => cases hx
  | cons z xs ih =>
    rcases List.mem_cons.1 hx with rfl | hx
    · rw [greedyFrom] at hnot ⊢
      by_cases hany : related same chosen x = true
      · rw [if_pos hany]
        obtain ⟨y, hy, hsame⟩ := List.any_eq_true.1 hany
        exact ⟨y, (prefix_greedyFrom _ _).subset hy, hsame⟩
      · rw [if_neg hany] at hnot
        exact absurd ((prefix_greedyFrom _ _).subset (by simp)) hnot
    · exact ih hx hnot

/-- The selection from a class of a predicate that the relation respects. -/
theorem greedyFrom_filter (p : α → Bool) (h : ∀ x ∈ xs, ∀ y ∈ chosen ++ xs, same x y → p x = p y) :
    (greedyFrom (related same) chosen xs).filter p = greedyFrom (related same) (chosen.filter p) (xs.filter p) := by
  induction xs generalizing chosen with
  | nil => rfl
  | cons x xs ih =>
    have hsplit : ∀ y ∈ chosen, same x y → p x = p y :=
      fun y hy => h x List.mem_cons_self y (List.mem_append_left _ hy)
    have hrest : ∀ c : List α, (∀ y ∈ c, y ∈ chosen ∨ y = x) → ∀ z ∈ xs, ∀ y ∈ c ++ xs, same z y → p z = p y := by
      intro c hc z hz y hy
      refine h z (List.mem_cons_of_mem _ hz) y ?_
      rcases List.mem_append.1 hy with hy | hy
      · rcases hc y hy with hy | rfl
        · exact List.mem_append_left _ hy
        · exact List.mem_append_right _ List.mem_cons_self
      · exact List.mem_append_right _ (List.mem_cons_of_mem _ hy)
    rw [greedyFrom]
    by_cases hany : related same chosen x = true
    · rw [if_pos hany, ih (hrest chosen fun y hy => .inl hy)]
      cases hx : p x with
      | false => rw [List.filter_cons_of_neg (by simp [hx])]
      | true =>
        obtain ⟨y, hy, hsame⟩ := List.any_eq_true.1 hany
        have hchosen : related same (chosen.filter p) x = true :=
          List.any_eq_true.2 ⟨y, List.mem_filter.2 ⟨hy, (hsplit y hy hsame).symm.trans hx⟩, hsame⟩
        rw [List.filter_cons_of_pos hx, greedyFrom, if_pos hchosen]
    · have hmem : ∀ y ∈ chosen ++ [x], y ∈ chosen ∨ y = x := fun y hy => by simpa using hy
      rw [if_neg hany, ih (hrest _ hmem), List.filter_append]
      cases hx : p x with
      | false =>
        rw [List.filter_cons_of_neg (by simp [hx]), List.filter_cons_of_neg (by simp [hx])]
        rw [List.filter_nil, List.append_nil]
      | true =>
        have hchosen : ¬ related same (chosen.filter p) x = true := by
          intro hfilter
          obtain ⟨y, hy, hsame⟩ := List.any_eq_true.1 hfilter
          exact hany (List.any_eq_true.2 ⟨y, (List.mem_filter.1 hy).1, hsame⟩)
        rw [List.filter_cons_of_pos hx, List.filter_cons_of_pos hx, List.filter_nil, greedyFrom, if_neg hchosen]

theorem greedy_filter (p : α → Bool) (h : ∀ x ∈ xs, ∀ y ∈ xs, same x y → p x = p y) :
    (greedy (related same) xs).filter p = greedy (related same) (xs.filter p) :=
  greedyFrom_filter p (by simpa using h)

end AimeeMemory.Lib
