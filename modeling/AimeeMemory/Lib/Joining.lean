import Mathlib.Data.List.Basic
import Mathlib.Data.List.Infix

/-!
# Joining within a bound

Items are joined by a separator while the text stays below a bound. The loop here writes the
separator, where there is room for it, before it looks at the item. It goes wrong in two ways:
the separator fits and the item does not, and the separator does not fit and the item does.
`joinWithin_iff` says that there is no third, for items that are not empty and a separator of
one or two characters.
-/

namespace AimeeMemory.Lib

universe u

variable {α : Type u} {bound : ℕ} {sep t x : List α} {pre xs ys : List (List α)}

/-- The loop: the text, and whether it stopped behind a separator. -/
def joinWithin (bound : ℕ) (sep : List α) : List (List α) → List α → List α × Bool
  | [], t => (t, false)
  | x :: xs, t =>
    if t = [] ∨ bound ≤ t.length + sep.length then
      if t.length + x.length < bound then joinWithin bound sep xs (t ++ x) else (t, false)
    else if t.length + sep.length + x.length < bound then joinWithin bound sep xs (t ++ sep ++ x)
    else (t ++ sep, true)

/-- Behind these items the separator and the next item fit both, or neither does. -/
def FitsBehind (bound : ℕ) (sep : List α) (pre : List (List α)) (x : List α) : Prop :=
  ((sep.intercalate pre).length + sep.length < bound → (sep.intercalate pre).length + sep.length + x.length < bound) ∧
    (bound ≤ (sep.intercalate pre).length + sep.length → bound ≤ (sep.intercalate pre).length + x.length)

/-- So they do behind every part of the items, if they are continued so. -/
def CleanFrom (bound : ℕ) (sep : List α) (pre xs : List (List α)) : Prop :=
  ∀ mid x post, xs = mid ++ x :: post → pre ++ mid ≠ [] → FitsBehind bound sep (pre ++ mid) x

/-- So they do behind every part of the items. -/
def JoinsCleanly (bound : ℕ) (sep : List α) (xs : List (List α)) : Prop :=
  ∀ pre x post, xs = pre ++ x :: post → pre ≠ [] → FitsBehind bound sep pre x

/-! ### Joins -/

theorem intercalate_concat (h : pre ≠ []) (sep x : List α) :
    sep.intercalate (pre ++ [x]) = sep.intercalate pre ++ sep ++ x := by
  induction pre with
  | nil => exact absurd rfl h
  | cons y pre ih =>
    cases pre with
    | nil => simp
    | cons z pre =>
      have hrest := ih (List.cons_ne_nil _ _)
      rw [List.cons_append] at hrest
      simp [hrest]

theorem length_intercalate_concat (h : pre ≠ []) (sep x : List α) :
    (sep.intercalate (pre ++ [x])).length = (sep.intercalate pre).length + sep.length + x.length := by
  rw [intercalate_concat h, List.length_append, List.length_append]

theorem length_intercalate_mono (h : ys <+: xs) (sep : List α) :
    (sep.intercalate ys).length ≤ (sep.intercalate xs).length := by
  obtain ⟨zs, rfl⟩ := h
  induction zs using List.reverseRecOn with
  | nil => simp
  | append_singleton zs z ih =>
    refine ih.trans ?_
    rw [← List.append_assoc]
    by_cases hnil : ys ++ zs = []
    · simp [hnil]
    · rw [length_intercalate_concat hnil]
      omega

theorem intercalate_ne_nil (h : pre ≠ []) (hne : ∀ y ∈ pre, y ≠ []) (sep : List α) : sep.intercalate pre ≠ [] := by
  cases pre with
  | nil => exact absurd rfl h
  | cons y pre =>
    intro hnil
    have hle := length_intercalate_mono (List.prefix_append [y] pre) sep
    rw [List.singleton_append, hnil, List.intercalate_singleton] at hle
    exact hne y List.mem_cons_self (List.length_eq_zero_iff.1 (Nat.le_zero.1 hle))

/-- No part of the items has a join whose length is between those of two that follow one another. -/
theorem not_join_between (hlow : (sep.intercalate pre).length < t.length)
    (hhigh : t.length < (sep.intercalate (pre ++ [x])).length) :
    ¬ ∃ ys, ys <+: pre ++ x :: xs ∧ t = sep.intercalate ys := by
  rintro ⟨ys, hys, rfl⟩
  have hall : pre ++ [x] <+: pre ++ x :: xs := ⟨xs, by simp⟩
  rcases List.prefix_or_prefix_of_prefix hys hall with hle | hle
  · rcases List.prefix_concat_iff.1 hle with heq | hpre
    · rw [heq] at hhigh
      exact absurd hhigh (lt_irrefl _)
    · exact absurd (length_intercalate_mono hpre sep) (not_le.2 hlow)
  · exact absurd (length_intercalate_mono hle sep) (not_le.2 hhigh)

/-! ### Clean joins -/

theorem cleanFrom_nil : CleanFrom bound sep [] xs ↔ JoinsCleanly bound sep xs := Iff.rfl

theorem cleanFrom_cons : CleanFrom bound sep pre (x :: xs) ↔
    (pre ≠ [] → FitsBehind bound sep pre x) ∧ CleanFrom bound sep (pre ++ [x]) xs := by
  constructor
  · intro h
    refine ⟨fun hpre => ?_, fun mid y post hsplit hne => ?_⟩
    · simpa using h [] x xs rfl (by simpa using hpre)
    · simpa using h (x :: mid) y post (by rw [hsplit, List.cons_append]) (by simp)
  · rintro ⟨hfirst, hrest⟩ mid y post hsplit hne
    cases mid with
    | nil =>
      obtain ⟨rfl, rfl⟩ := List.cons.inj hsplit
      rw [List.append_nil] at hne ⊢
      exact hfirst hne
    | cons z mid =>
      obtain ⟨rfl, rfl⟩ := List.cons.inj hsplit
      simpa using hrest mid y post rfl (by simp)

/-- Behind a join that fills the bound nothing fits. -/
theorem cleanFrom_of_full (h : bound ≤ (sep.intercalate pre).length) (xs : List (List α)) : CleanFrom bound sep pre xs := by
  intro mid x post _ _
  have := length_intercalate_mono (List.prefix_append pre mid) sep
  constructor <;> omega

/-- Items that all fit join cleanly. -/
theorem joinsCleanly_of_length_lt (h : (sep.intercalate xs).length < bound) : JoinsCleanly bound sep xs := by
  rintro pre x post rfl hpre
  have hle := length_intercalate_mono (⟨post, by simp⟩ : pre ++ [x] <+: pre ++ x :: post) sep
  rw [length_intercalate_concat hpre] at hle
  constructor <;> omega

/-! ### The loop -/

/-- Where there is no room for a character, the loop writes none. -/
theorem joinWithin_full (hsep : sep ≠ []) (h : bound ≤ t.length + 1) (hne : ∀ y ∈ xs, y ≠ []) :
    joinWithin bound sep xs t = (t, false) := by
  cases xs with
  | nil => rfl
  | cons x xs =>
    have hx : 0 < x.length := List.length_pos_iff.2 (hne x List.mem_cons_self)
    have hs : 0 < sep.length := List.length_pos_iff.2 hsep
    rw [joinWithin, if_pos (.inr (by omega)), if_neg (by omega)]

/-- The text stays within the bound. -/
theorem joinWithin_length_le (bound : ℕ) (sep : List α) (xs : List (List α)) (h : t.length ≤ bound) :
    (joinWithin bound sep xs t).1.length ≤ bound := by
  induction xs generalizing t with
  | nil => exact h
  | cons x xs ih =>
    rw [joinWithin]
    split_ifs with hroom hfits hfits
    · exact ih (by rw [List.length_append]; exact hfits.le)
    · exact h
    · exact ih (by rw [List.length_append, List.length_append]; exact hfits.le)
    · rw [not_or, not_le] at hroom
      rw [List.length_append]
      exact hroom.2.le

/-- **The loop joins a part of the items** exactly where the separator and the next item fit both or neither, behind
each part that it has joined; and then it stops behind an item. -/
theorem joinWithin_from (pre : List (List α)) (hsep : sep ≠ []) (hshort : sep.length ≤ 2) (hne : ∀ y ∈ pre ++ xs, y ≠ []) :
    ((∃ ys, ys <+: pre ++ xs ∧ (joinWithin bound sep xs (sep.intercalate pre)).1 = sep.intercalate ys) ↔
      CleanFrom bound sep pre xs) ∧
    (CleanFrom bound sep pre xs → (joinWithin bound sep xs (sep.intercalate pre)).2 = false) := by
  have hs : 0 < sep.length := List.length_pos_iff.2 hsep
  induction xs generalizing pre with
  | nil =>
    have hclean : CleanFrom bound sep pre [] := fun mid x post hsplit => absurd hsplit (by simp)
    exact ⟨iff_of_true ⟨pre, by simp, rfl⟩ hclean, fun _ => rfl⟩
  | cons x xs ih =>
    have hx : 0 < x.length := List.length_pos_iff.2 (hne x (by simp))
    have hrest := ih (pre ++ [x]) (by simpa using hne)
    rw [List.append_assoc, List.singleton_append] at hrest
    rw [cleanFrom_cons]
    by_cases hpre : pre = []
    · subst hpre
      simp only [List.nil_append, List.intercalate_singleton] at hrest
      by_cases hfits : x.length < bound
      · simpa [joinWithin, hfits] using hrest
      · have hclean : CleanFrom bound sep [x] xs := cleanFrom_of_full (by simpa using hfits) xs
        simp only [joinWithin, List.intercalate_nil, List.length_nil, true_or, if_true, Nat.zero_add, if_neg hfits]
        exact ⟨iff_of_true ⟨[], by simp, by simp⟩ ⟨fun h => absurd rfl h, hclean⟩, fun _ => trivial⟩
    · have ht : sep.intercalate pre ≠ [] := intercalate_ne_nil hpre (fun y hy => hne y (by simp [hy])) sep
      have hnext := length_intercalate_concat hpre sep x
      by_cases hroom : bound ≤ (sep.intercalate pre).length + sep.length
      · rw [joinWithin, if_pos (.inr hroom)]
        by_cases hfits : (sep.intercalate pre).length + x.length < bound
        · -- the item is joined without a separator, and nothing behind it
          rw [if_pos hfits, joinWithin_full hsep (by rw [List.length_append]; omega)
            fun y hy => hne y (by simp [hy])]
          have hbad : ¬ FitsBehind bound sep pre x := fun h => by have := h.2 hroom; omega
          refine ⟨iff_of_false (not_join_between ?_ ?_) fun h => hbad (h.1 hpre), fun _ => rfl⟩
          · rw [List.length_append]
            omega
          · rw [hnext, List.length_append]
            omega
        · rw [if_neg hfits]
          have hgood : FitsBehind bound sep pre x := ⟨fun h => by omega, fun _ => by omega⟩
          refine ⟨iff_of_true ⟨pre, by simp, rfl⟩ ⟨fun _ => hgood, cleanFrom_of_full ?_ xs⟩, fun _ => rfl⟩
          omega
      · rw [joinWithin, if_neg (by simp [ht, hroom])]
        by_cases hfits : (sep.intercalate pre).length + sep.length + x.length < bound
        · rw [if_pos hfits, ← intercalate_concat hpre]
          have hgood : FitsBehind bound sep pre x := ⟨fun _ => hfits, fun h => absurd h hroom⟩
          simpa [hgood] using hrest
        · -- the separator is left behind
          rw [if_neg hfits]
          have hbad : ¬ FitsBehind bound sep pre x := fun h => hfits (h.1 (not_le.1 hroom))
          refine ⟨iff_of_false (not_join_between ?_ ?_) fun h => hbad (h.1 hpre), fun h => absurd (h.1 hpre) hbad⟩
          · rw [List.length_append]
            omega
          · rw [hnext, List.length_append]
            omega

/-- From nothing. -/
theorem joinWithin_iff (bound : ℕ) (hsep : sep ≠ []) (hshort : sep.length ≤ 2) (hne : ∀ y ∈ xs, y ≠ []) :
    ((∃ ys, ys <+: xs ∧ (joinWithin bound sep xs []).1 = sep.intercalate ys) ↔ JoinsCleanly bound sep xs) ∧
    (JoinsCleanly bound sep xs → (joinWithin bound sep xs []).2 = false) := by
  simpa [cleanFrom_nil] using joinWithin_from [] hsep hshort (by simpa using hne)

end AimeeMemory.Lib
