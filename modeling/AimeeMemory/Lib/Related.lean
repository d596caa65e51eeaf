import Mathlib.Data.List.Forall2
import Mathlib.Data.List.Infix

/-!
# Related lists and options

What is done to two lists whose elements are related place by place, or to two options whose
values are, leaves them related: dropping and searching, on the lists; mapping, binding and
choosing, on the options.
-/

namespace AimeeMemory.Lib

variable {α β γ δ : Type*} {R : α → β → Prop} {S : γ → δ → Prop} {xs : List α} {ys : List β} {x : Option α} {y : Option β}

theorem optionRel_map {f : α → γ} {g : β → δ} (h : Option.Rel R x y) (hfg : ∀ a b, R a b → S (f a) (g b)) :
    Option.Rel S (x.map f) (y.map g) := by
  cases h with
  | none => exact .none
  | some hab => exact .some (hfg _ _ hab)

theorem optionRel_bind {f : α → Option γ} {g : β → Option δ} (h : Option.Rel R x y)
    (hfg : ∀ a b, R a b → Option.Rel S (f a) (g b)) : Option.Rel S (x.bind f) (y.bind g) := by
  cases h with
  | none => exact .none
  | some hab => exact hfg _ _ hab

theorem optionRel_or {x' : Option α} {y' : Option β} (h : Option.Rel R x y) (h' : Option.Rel R x' y') :
    Option.Rel R (x.or x') (y.or y') := by
  cases h with
  | none => exact h'
  | some hab => exact .some hab

theorem optionRel_isSome (h : Option.Rel R x y) : x.isSome = y.isSome := by
  cases h <;> rfl

theorem optionRel_eq {x y : Option α} : Option.Rel Eq x y ↔ x = y := by
  constructor
  · intro h
    cases h with
    | none => rfl
    | some heq => rw [heq]
  · rintro rfl
    cases x with
    | none => exact .none
    | some a => exact .some rfl

theorem forall₂_dropWhile {p : α → Bool} {q : β → Bool} (h : List.Forall₂ R xs ys) (hpq : ∀ a b, R a b → p a = q b) :
    List.Forall₂ R (xs.dropWhile p) (ys.dropWhile q) := by
  induction h with
  | nil => exact .nil
  | cons hab h ih =>
    rw [List.dropWhile_cons, List.dropWhile_cons, hpq _ _ hab]
    split
    · exact ih
    · exact .cons hab h

theorem forall₂_tails (h : List.Forall₂ R xs ys) : List.Forall₂ (List.Forall₂ R) xs.tails ys.tails := by
  induction h with
  | nil => exact .cons .nil .nil
  | cons hab h ih =>
    rw [List.tails_cons, List.tails_cons]
    exact .cons (.cons hab h) ih

theorem forall₂_findSome? {f : α → Option γ} {g : β → Option δ} (h : List.Forall₂ R xs ys)
    (hfg : ∀ a b, R a b → Option.Rel S (f a) (g b)) : Option.Rel S (xs.findSome? f) (ys.findSome? g) := by
  induction h with
  | nil => exact .none
  | @cons a b as bs hab h ih =>
    rw [List.findSome?_cons, List.findSome?_cons]
    have hhead := hfg _ _ hab
    generalize f a = x at hhead
    generalize g b = y at hhead
    cases hhead with
    | none => exact ih
    | some hcd => exact .some hcd

/-- Two lists are made place by place, of the same elements at some places and of one element each at the others: they
are equal exactly if those elements are. -/
theorem flatMap_eq_iff_forall₂ {ε ζ : Type*} {f : α → List γ} {g : β → List γ} {m : α → Option ε} {n : β → Option ζ}
    {A : ε → ζ → Prop} (h : List.Forall₂ R xs ys)
    (hplace : ∀ a b, R a b → f a = g b ∧ m a = none ∧ n b = none ∨
      ∃ x y u v, f a = [x] ∧ g b = [y] ∧ m a = some u ∧ n b = some v ∧ (x = y ↔ A u v)) :
    xs.flatMap f = ys.flatMap g ↔ List.Forall₂ A (xs.filterMap m) (ys.filterMap n) := by
  induction h with
  | nil => exact iff_of_true rfl .nil
  | cons hab _ ih =>
    rw [List.flatMap_cons, List.flatMap_cons]
    rcases hplace _ _ hab with ⟨hsame, hm, hn⟩ | ⟨x, y, u, v, hf, hg, hm, hn, hxy⟩
    · rw [List.filterMap_cons_none hm, List.filterMap_cons_none hn, hsame, List.append_cancel_left_eq, ih]
    · rw [List.filterMap_cons_some hm, List.filterMap_cons_some hn, hf, hg, List.forall₂_cons, List.singleton_append,
        List.singleton_append, List.cons.injEq, hxy, ih]

end AimeeMemory.Lib
