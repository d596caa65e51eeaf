import Mathlib.Logic.Relation
import Mathlib.Data.Nat.Init

/-!
# Loops without a bound

A `for (;;)` is a body that goes on with a new state or leaves with a result. `loop` runs it
with fuel, `Entered` is what the body may be entered with, and the rules say when the loop
comes to an end: when a measure falls with every turn, and not while the body always goes on.
-/

namespace AimeeMemory.Lib

universe u v

variable {σ : Type u} {β : Type v} {body : σ → σ ⊕ β} {s t : σ} {b : β}

/-- At most `n` turns of a loop. -/
def loop (body : σ → σ ⊕ β) : ℕ → σ → Option β
  | 0, _ => none
  | n + 1, s =>
    match body s with
    | .inl t => loop body n t
    | .inr b => some b

/-- The loop is left after some number of turns. -/
def Ends (body : σ → σ ⊕ β) (s : σ) : Prop := ∃ n, (loop body n s).isSome

/-- A turn of the loop that starts in `s` is entered in `t`. -/
def Entered (body : σ → σ ⊕ β) : σ → σ → Prop := Relation.ReflTransGen fun s t => body s = .inl t

theorem ends_of_goesOn (h : body s = .inl t) : Ends body t → Ends body s := by
  rintro ⟨n, hn⟩
  exact ⟨n + 1, by simpa [loop, h] using hn⟩

theorem ends_of_leaves (h : body s = .inr b) : Ends body s := ⟨1, by simp [loop, h]⟩

/-- **The measure rule**: while an invariant holds, every turn that goes on keeps it and makes
the measure smaller. -/
theorem ends_of_measure {I : σ → Prop} {μ : σ → ℕ}
    (hstep : ∀ s t, I s → body s = .inl t → I t ∧ μ t < μ s) : ∀ s, I s → Ends body s := by
  intro s
  induction hμ : μ s using Nat.strong_induction_on generalizing s with
  | _ n ih =>
    intro hs
    cases hbody : body s with
    | inr b => exact ends_of_leaves hbody
    | inl t =>
      obtain ⟨ht, hlt⟩ := hstep s t hs hbody
      exact ends_of_goesOn hbody (ih (μ t) (hμ ▸ hlt) t rfl ht)

/-- **The invariant rule**: what a turn that goes on keeps holds whenever the body is entered. -/
theorem Entered.invariant {I : σ → Prop} (h : Entered body s t) (hstep : ∀ s t, I s → body s = .inl t → I t)
    (hs : I s) : I t := by
  induction h with
  | refl => exact hs
  | tail _ hlast ih => exact hstep _ _ ih hlast

/-- A loop that is left has been left in a turn. -/
theorem exists_entered_of_loop {n : ℕ} (h : loop body n s = some b) : ∃ t, Entered body s t ∧ body t = .inr b := by
  induction n generalizing s with
  | zero => cases h
  | succ n ih =>
    rw [loop] at h
    cases hbody : body s with
    | inr c =>
      rw [hbody] at h
      exact ⟨s, .refl, hbody.trans (congrArg Sum.inr (Option.some.inj h))⟩
    | inl u =>
      rw [hbody] at h
      obtain ⟨t, ht, hleaves⟩ := ih h
      exact ⟨t, .head hbody ht, hleaves⟩

/-- A turn that is entered leaves with what the loop does. -/
theorem Entered.loop_eq {n : ℕ} (h : Entered body s t) (hn : loop body n t = some b) : ∃ m, loop body m s = some b := by
  induction h using Relation.ReflTransGen.head_induction_on with
  | refl => exact ⟨n, hn⟩
  | head hgoes _ ih =>
    obtain ⟨m, hm⟩ := ih
    exact ⟨m + 1, by rw [loop, hgoes]; exact hm⟩

/-- A loop that comes to an end does so from every turn. -/
theorem Entered.ends (h : Entered body s t) (hs : Ends body s) : Ends body t := by
  induction h with
  | refl => exact hs
  | tail _ hgoes ih =>
    obtain ⟨n, hn⟩ := ih
    cases n with
    | zero => cases hn
    | succ n =>
      rw [loop, hgoes] at hn
      exact ⟨n, hn⟩

/-- A loop whose body always goes on is never left. -/
theorem not_ends_of_invariant {I : σ → Prop} (hstep : ∀ s, I s → ∃ t, body s = .inl t ∧ I t) (hs : I s) :
    ¬ Ends body s := by
  rintro ⟨n, hn⟩
  induction n generalizing s with
  | zero => simp [loop] at hn
  | succ n ih =>
    obtain ⟨t, hgoes, ht⟩ := hstep s hs
    rw [loop, hgoes] at hn
    exact ih ht hn

end AimeeMemory.Lib
