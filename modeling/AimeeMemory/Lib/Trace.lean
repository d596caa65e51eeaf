import Mathlib.Data.List.Induction

/-!
# Runs of a deterministic machine

A machine is a step function; a run is the fold of its inputs. A condition on a
run speaks of each input together with the inputs before it and the state it
arrives in, which is what an assumption about an environment usually is. The
induction over a run is done once, in `run_invariant`; `decided_run` is the one for
conditions that are exact.
-/

namespace AimeeMemory.Lib

universe u v

variable {σ : Type u} {ι : Type v} {step : σ → ι → σ} {ok : List ι → σ → ι → Prop} {s : σ}

/-- The state a machine reaches by taking its inputs in order. -/
def run (step : σ → ι → σ) (s : σ) (is : List ι) : σ := is.foldl step s

@[simp] theorem run_concat (is : List ι) (i : ι) : run step s (is ++ [i]) = step (run step s is) i := by
  simp [run]

/-- Every input meets `ok`, given the inputs before it and the state they lead to. -/
def Meets (step : σ → ι → σ) (ok : List ι → σ → ι → Prop) (s : σ) (is : List ι) : Prop :=
  ∀ pre i post, is = pre ++ i :: post → ok pre (run step s pre) i

theorem Meets.nil : Meets step ok s [] := by
  intro pre i post h
  simp at h

theorem Meets.concat {is : List ι} {i : ι} (h : Meets step ok s is) (hi : ok is (run step s is) i) :
    Meets step ok s (is ++ [i]) := by
  intro pre j post hsplit
  rcases List.append_eq_append_iff.1 hsplit with ⟨as, rfl, has⟩ | ⟨cs, rfl, hcs⟩
  · cases as with
    | nil => simp at has; obtain ⟨rfl, -⟩ := has; simpa using hi
    | cons a as => simp at has
  · cases cs with
    | nil => simp at hcs; obtain ⟨rfl, -⟩ := hcs; simpa using hi
    | cons c cs =>
      simp only [List.cons_append, List.cons.injEq] at hcs
      obtain ⟨rfl, rfl⟩ := hcs
      exact h pre j cs rfl

theorem Meets.init {is js : List ι} (h : Meets step ok s (is ++ js)) : Meets step ok s is := by
  rintro pre i post rfl
  exact h pre i (post ++ js) (by simp)

theorem Meets.last {is : List ι} {i : ι} (h : Meets step ok s (is ++ [i])) : ok is (run step s is) i :=
  h is i [] rfl

/-- A condition on the state and the input alone is met step by step. -/
theorem meets_cons {ok : σ → ι → Prop} {i : ι} {is : List ι} :
    Meets step (fun _ => ok) s (i :: is) ↔ ok s i ∧ Meets step (fun _ => ok) (step s i) is := by
  constructor
  · intro h
    refine ⟨h [] i is rfl, fun pre j post hsplit => ?_⟩
    exact h (i :: pre) j post (by rw [hsplit, List.cons_append])
  · rintro ⟨hi, his⟩ pre j post hsplit
    cases pre with
    | nil =>
      obtain ⟨rfl, rfl⟩ := List.cons.inj hsplit
      exact hi
    | cons k pre =>
      obtain ⟨rfl, rfl⟩ := List.cons.inj hsplit
      exact his pre j post rfl

instance decidableMeets {ok : σ → ι → Prop} [∀ s i, Decidable (ok s i)] :
    ∀ (s : σ) (is : List ι), Decidable (Meets step (fun _ => ok) s is)
  | _, [] => .isTrue .nil
  | s, i :: is =>
    have : Decidable (Meets step (fun _ => ok) (step s i) is) := decidableMeets (step s i) is
    decidable_of_iff _ meets_cons.symm

/-- **The run rule**: what holds at the start, and is kept by every step that meets
the condition, holds after every run that meets it. -/
theorem run_invariant {I : List ι → σ → Prop} (h₀ : I [] s)
    (hstep : ∀ pre t i, I pre t → ok pre t i → I (pre ++ [i]) (step t i)) (is : List ι)
    (his : Meets step ok s is) : I is (run step s is) := by
  induction is using List.reverseRecOn with
  | nil => exact h₀
  | append_singleton is i ih =>
    rw [run_concat]
    exact hstep _ _ _ (ih his.init) his.last

/-- What every step keeps, every run keeps. -/
theorem run_keeps {I : List ι → σ → Prop} (h₀ : I [] s) (hstep : ∀ pre t i, I pre t → I (pre ++ [i]) (step t i))
    (is : List ι) : I is (run step s is) := by
  have hmeets : Meets step (fun _ _ _ => True) s is := fun _ _ _ _ => trivial
  exact run_invariant h₀ (fun pre t i h _ => hstep pre t i h) is hmeets

/-! ### Conditions that decide -/

/-- A way that states move, and one that leaves a mark: a marked move stays one, whatever moves come before and after. -/
structure Marking (Moves Marks : σ → σ → Prop) : Prop where
  refl : ∀ a, Moves a a
  trans : ∀ {a b c}, Moves a b → Moves b c → Moves a c
  before : ∀ {a b c}, Moves a b → Marks b c → Marks a c
  after : ∀ {a b c}, Marks a b → Moves b c → Marks a c

theorem Marking.comap {τ : Type*} {Moves Marks : σ → σ → Prop} (h : Marking Moves Marks) (f : τ → σ) :
    Marking (fun a b => Moves (f a) (f b)) fun a b => Marks (f a) (f b) :=
  ⟨fun a => h.refl (f a), h.trans, h.before, h.after⟩

/-- A move that a condition decides: where it holds, the move keeps `Same`, and else it leaves a mark. -/
structure Decided (Same : σ → Prop) (Moves Marks : σ → σ → Prop) (t u : σ) (condition : Prop) : Prop where
  keeps : Same t → condition → Same u
  moves : Moves t u
  marks : ¬condition → Marks t u

theorem Decided.congr {Same : σ → Prop} {Moves Marks : σ → σ → Prop} {t u : σ} {p q : Prop}
    (h : Decided Same Moves Marks t u p) (hpq : p ↔ q) : Decided Same Moves Marks t u q :=
  ⟨fun hs hq => h.keeps hs (hpq.2 hq), h.moves, fun hq => h.marks fun hp => hq (hpq.1 hp)⟩

/-- **The exact run rule**: where each step is decided by a condition, the run is by the steps' conditions. -/
theorem decided_run {Same : σ → Prop} {Moves Marks : σ → σ → Prop} {ok : σ → ι → Prop} (h : Marking Moves Marks)
    (is : List ι) (hstep : ∀ t, ∀ i ∈ is, Decided Same Moves Marks t (step t i) (ok t i)) (s : σ) :
    Decided Same Moves Marks s (run step s is) (Meets step (fun _ => ok) s is) := by
  induction is generalizing s with
  | nil => exact ⟨fun hs _ => hs, h.refl s, fun hnot => absurd .nil hnot⟩
  | cons i is ih =>
    have hfirst := hstep s i List.mem_cons_self
    have hrest := ih (fun t j hj => hstep t j (List.mem_cons_of_mem i hj)) (step s i)
    rw [meets_cons]
    refine ⟨fun hs hok => hrest.keeps (hfirst.keeps hs hok.1) hok.2, h.trans hfirst.moves hrest.moves, fun hnot => ?_⟩
    by_cases hi : ok s i
    · exact h.before hfirst.moves (hrest.marks fun his => hnot ⟨hi, his⟩)
    · exact h.after (hfirst.marks hi) hrest.moves

end AimeeMemory.Lib
