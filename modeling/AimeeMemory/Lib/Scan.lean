import Mathlib.Data.Nat.Notation

/-!
# Loops over an index

The loops of a scanner: the first index with a property, the index where a property ends,
and the same backwards. Each is bounded by the number of indices that are left, and says
where it stops.
-/

namespace AimeeMemory.Lib

variable {p q : ℕ → Bool} {n i j : ℕ}

/-- The first of the indices `i, i+1, …, i+n-1` that has a property. -/
def firstIndex (p : ℕ → Bool) : ℕ → ℕ → Option ℕ
  | 0, _ => none
  | n + 1, i => if p i then some i else firstIndex p n (i + 1)

/-- The index moved up while it has a property, at most `n` times. -/
def advance (p : ℕ → Bool) : ℕ → ℕ → ℕ
  | 0, i => i
  | n + 1, i => if p i then advance p n (i + 1) else i

/-- The index moved down while the one before it has a property, at most `n` times. -/
def retreat (p : ℕ → Bool) : ℕ → ℕ → ℕ
  | 0, i => i
  | n + 1, i => if p (i - 1) then retreat p n (i - 1) else i

theorem firstIndex_eq_none : firstIndex p n i = none ↔ ∀ j, i ≤ j → j < i + n → p j = false := by
  induction n generalizing i with
  | zero =>
    simp only [firstIndex, true_iff]
    omega
  | succ n ih =>
    rw [firstIndex]
    split
    · rename_i hp
      simp only [reduceCtorEq, false_iff]
      intro h
      simp [h i (Nat.le_refl i) (by omega)] at hp
    · rename_i hp
      rw [ih]
      constructor
      · intro h j h1 h2
        by_cases hj : j = i
        · simpa [hj] using hp
        · exact h j (by omega) (by omega)
      · intro h j h1 h2
        exact h j (by omega) (by omega)

theorem firstIndex_isSome : (firstIndex p n i).isSome ↔ ∃ j, i ≤ j ∧ j < i + n ∧ p j := by
  rw [Option.isSome_iff_ne_none, ne_eq, firstIndex_eq_none]
  constructor
  · intro h
    simp only [Classical.not_forall] at h
    obtain ⟨j, h1, h2, hj⟩ := h
    exact ⟨j, h1, h2, by simpa using hj⟩
  · rintro ⟨j, h1, h2, hj⟩ h
    simp [h j h1 h2] at hj

/-- The index found has the property, and is within the range. -/
theorem firstIndex_eq_some (h : firstIndex p n i = some j) : i ≤ j ∧ j < i + n ∧ p j := by
  induction n generalizing i with
  | zero => cases h
  | succ n ih =>
    rw [firstIndex] at h
    split at h
    · rename_i hp
      cases h
      exact ⟨Nat.le_refl _, by omega, hp⟩
    · obtain ⟨h1, h2, hj⟩ := ih h
      exact ⟨by omega, by omega, hj⟩

/-- No index before the one found has the property. -/
theorem firstIndex_min (h : firstIndex p n i = some j) {k : ℕ} (hik : i ≤ k) (hkj : k < j) : p k = false := by
  induction n generalizing i with
  | zero => cases h
  | succ n ih =>
    rw [firstIndex] at h
    split at h
    · cases h
      omega
    · rename_i hp
      rcases Nat.eq_or_lt_of_le hik with rfl | hlt
      · simpa using hp
      · exact ih h hlt

/-- The first index with the property is the one found. -/
theorem firstIndex_eq (hij : i ≤ j) (hjn : j < i + n) (h : ∀ k, i ≤ k → k < j → p k = false) (hj : p j = true) :
    firstIndex p n i = some j := by
  obtain ⟨j', hj'⟩ := Option.isSome_iff_exists.1 (firstIndex_isSome.2 ⟨j, hij, hjn, hj⟩)
  obtain ⟨hle, -, hp⟩ := firstIndex_eq_some hj'
  rcases Nat.lt_trichotomy j' j with hlt | rfl | hlt
  · rw [h j' hle hlt] at hp
    cases hp
  · exact hj'
  · rw [firstIndex_min hj' hij hlt] at hj
    cases hj

theorem le_advance : i ≤ advance p n i := by
  induction n generalizing i with
  | zero => exact Nat.le_refl i
  | succ n ih =>
    rw [advance]
    split
    · exact Nat.le_trans (by omega) (ih (i := i + 1))
    · exact Nat.le_refl i

theorem firstIndex_congr (h : ∀ j, i ≤ j → j < i + n → p j = q j) : firstIndex p n i = firstIndex q n i := by
  induction n generalizing i with
  | zero => rfl
  | succ n ih =>
    rw [firstIndex, firstIndex, h i (Nat.le_refl i) (by omega), ih fun j hj hjn => h j (by omega) (by omega)]

theorem advance_le : advance p n i ≤ i + n := by
  induction n generalizing i with
  | zero => exact Nat.le_refl i
  | succ n ih =>
    rw [advance]
    split
    · have := ih (i := i + 1)
      omega
    · omega

/-- The index does not pass one without the property. -/
theorem advance_le_of_not (hij : i ≤ j) (hj : p j = false) : advance p n i ≤ j := by
  induction n generalizing i with
  | zero => exact hij
  | succ n ih =>
    rw [advance]
    rcases Nat.eq_or_lt_of_le hij with rfl | hlt
    · exact Nat.le_of_eq (by rw [hj, if_neg Bool.false_ne_true])
    · split
      · exact ih hlt
      · exact hij

/-- Every index that was passed has the property. -/
theorem advance_passed (hij : i ≤ j) (hj : j < advance p n i) : p j = true := by
  cases hp : p j with
  | true => rfl
  | false => exact absurd hj (Nat.not_lt_of_le (advance_le_of_not hij hp))

/-- The index passes what has the property. -/
theorem lt_advance (h : ∀ k, i ≤ k → k ≤ j → p k) (hij : i ≤ j) (hj : j < i + n) : j < advance p n i := by
  induction n generalizing i with
  | zero => exact absurd hj (Nat.not_lt_of_le hij)
  | succ n ih =>
    rw [advance, if_pos (h i (Nat.le_refl i) hij)]
    rcases Nat.eq_or_lt_of_le hij with rfl | hlt
    · exact le_advance
    · exact ih (fun k h1 h2 => h k (by omega) h2) hlt (by omega)

theorem advance_of_forall (h : ∀ j, i ≤ j → j < i + n → p j) : advance p n i = i + n := by
  induction n generalizing i with
  | zero => rfl
  | succ n ih =>
    rw [advance, if_pos (h i (Nat.le_refl i) (by omega)), ih fun j h1 h2 => h j (by omega) (by omega)]
    omega

/-- The index stops where the property ends. -/
theorem advance_eq (hij : i ≤ j) (hjn : j ≤ i + n) (h : ∀ k, i ≤ k → k < j → p k) (hj : p j = false) :
    advance p n i = j := by
  induction n generalizing i with
  | zero => exact Nat.le_antisymm hij hjn
  | succ n ih =>
    rw [advance]
    rcases Nat.eq_or_lt_of_le hij with rfl | hlt
    · rw [hj, if_neg Bool.false_ne_true]
    · rw [if_pos (h i (Nat.le_refl i) hlt)]
      exact ih hlt (by omega) fun k h1 h2 => h k (by omega) h2

theorem advance_congr (h : ∀ j, i ≤ j → j < i + n → p j = q j) : advance p n i = advance q n i := by
  induction n generalizing i with
  | zero => rfl
  | succ n ih =>
    rw [advance, advance, h i (Nat.le_refl i) (by omega), ih fun j h1 h2 => h j (by omega) (by omega)]

theorem retreat_le : retreat p n i ≤ i := by
  induction n generalizing i with
  | zero => exact Nat.le_refl i
  | succ n ih =>
    rw [retreat]
    split
    · exact Nat.le_trans (ih (i := i - 1)) (Nat.sub_le i 1)
    · exact Nat.le_refl i

theorem le_retreat : i - n ≤ retreat p n i := by
  induction n generalizing i with
  | zero => exact Nat.le_refl i
  | succ n ih =>
    rw [retreat]
    split
    · have := ih (i := i - 1)
      omega
    · omega

/-- Every index that was passed has the property. -/
theorem retreat_passed (hij : retreat p n i ≤ j) (hji : j < i) : p j = true := by
  induction n generalizing i with
  | zero => exact absurd hij (Nat.not_le_of_lt hji)
  | succ n ih =>
    rw [retreat] at hij
    split at hij
    · rename_i hp
      rcases Nat.eq_or_lt_of_le (Nat.le_sub_one_of_lt hji) with rfl | hlt
      · exact hp
      · exact ih hij hlt
    · exact absurd hij (Nat.not_le_of_lt hji)

/-- The index stays behind one without the property. -/
theorem lt_retreat_of_not (hji : j < i) (hj : p j = false) : j < retreat p n i := by
  refine Nat.lt_of_not_le fun hle => ?_
  rw [retreat_passed hle hji] at hj
  cases hj

/-- The index stops behind one without the property, if not at the end of its way. -/
theorem retreat_stopped (h : i - n < retreat p n i) : p (retreat p n i - 1) = false := by
  induction n generalizing i with
  | zero => exact absurd h (Nat.lt_irrefl i)
  | succ n ih =>
    rw [retreat] at h ⊢
    split
    · rename_i hp
      rw [if_pos hp] at h
      exact ih (by omega)
    · rename_i hp
      simpa using hp

end AimeeMemory.Lib
