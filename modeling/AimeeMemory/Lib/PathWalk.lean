import Mathlib.Data.List.Induction
import Mathlib.Order.Nat

/-!
# Walking a path

A path from a directory goes down into names and up again. What is left of a walk when the
steps that undo each other are dropped is how many levels it climbs above its start, and the
names it then goes down (`walk_eq`); so a walk ends below its start exactly when it goes
down again through the levels that it has climbed (`prefix_walk_iff`).
-/

namespace AimeeMemory.Lib

variable {α : Type*}

inductive PathStep (α : Type*) where
  | up
  | down (name : α)
  deriving DecidableEq, Repr

/-- A step from a directory; the root is above itself. -/
def pathStep (dir : List α) : PathStep α → List α
  | .up => dir.dropLast
  | .down name => dir ++ [name]

/-- Where a walk from a directory ends. -/
def walk (dir : List α) (steps : List (PathStep α)) : List α := steps.foldl pathStep dir

/-- A step from a place that is so many levels above the start, and then so many names down. -/
def relativeStep (place : ℕ × List α) : PathStep α → ℕ × List α
  | .up => if place.2 = [] then (place.1 + 1, []) else (place.1, place.2.dropLast)
  | .down name => (place.1, place.2 ++ [name])

/-- How many levels a walk climbs above its start, and the names it goes down from there. -/
def relative (steps : List (PathStep α)) : ℕ × List α := steps.foldl relativeStep (0, [])

/-- The walk goes down again through the levels that it has climbed above its start. -/
def Returns (dir : List α) (steps : List (PathStep α)) : Prop :=
  dir.drop (dir.length - (relative steps).1) <+: (relative steps).2

instance [DecidableEq α] (dir : List α) (steps : List (PathStep α)) : Decidable (Returns dir steps) :=
  inferInstanceAs (Decidable (_ <+: _))

variable {dir : List α} {steps : List (PathStep α)}

theorem walk_append (dir : List α) (xs ys : List (PathStep α)) : walk dir (xs ++ ys) = walk (walk dir xs) ys :=
  List.foldl_append

theorem relative_concat (steps : List (PathStep α)) (s : PathStep α) :
    relative (steps ++ [s]) = relativeStep (relative steps) s := by
  rw [relative, List.foldl_append]
  rfl

/-- **The walk** is what its normal form says. -/
theorem walk_eq (dir : List α) (steps : List (PathStep α)) :
    walk dir steps = dir.take (dir.length - (relative steps).1) ++ (relative steps).2 := by
  induction steps using List.reverseRecOn with
  | nil => simp [walk, relative]
  | append_singleton steps s ih =>
    rw [walk_append, ih, relative_concat]
    show pathStep (_ ++ _) s = _
    cases s with
    | down name => rw [pathStep, relativeStep, List.append_assoc]
    | up =>
      rw [pathStep, relativeStep]
      by_cases hdown : (relative steps).2 = []
      · rw [if_pos hdown, hdown, List.append_nil, List.append_nil, List.dropLast_eq_take, List.take_take,
          List.length_take]
        congr 1
        omega
      · rw [if_neg hdown, List.dropLast_append_of_ne_nil hdown]

/-- A walk ends below its start exactly when it goes down again through what it has climbed. -/
theorem prefix_walk_iff : dir <+: walk dir steps ↔ Returns dir steps := by
  calc
    dir <+: walk dir steps ↔ dir.take (dir.length - (relative steps).1) ++ dir.drop (dir.length - (relative steps).1) <+:
        dir.take (dir.length - (relative steps).1) ++ (relative steps).2 := by
      rw [List.take_append_drop, walk_eq]
    _ ↔ _ := List.prefix_append_right_inj _

/-- A walk that never goes up ends below its start. -/
theorem returns_of_down (h : PathStep.up ∉ steps) : Returns dir steps := by
  have hclimb : (relative steps).1 = 0 := by
    induction steps using List.reverseRecOn with
    | nil => rfl
    | append_singleton steps s ih =>
      rw [List.mem_append, not_or] at h
      rw [relative_concat]
      cases s with
      | up => exact absurd (List.mem_singleton_self _) h.2
      | down name => exact ih h.1
  rw [Returns, hclimb, Nat.sub_zero, List.drop_length]
  exact List.nil_prefix

end AimeeMemory.Lib
